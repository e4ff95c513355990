import MessageBroker.Proofs.Store.Statement

/-! # A failed operation leaves the store as it was

Whatever rules are in force, whatever tables are missing and whatever columns hold, an operation
that answers an error leaves all rows as they were (`failsClean_perform`). A single statement
changes all rows that it should or none, and what is made of several runs in a transaction. The
operations that answer that nothing was found do so after a statement that affected no row. -/

namespace MessageBroker.Store

open Fallible

/-! ### Statements that affect no row -/

section Rows

variable {ρ : Type} [Row ρ] {rules : Rules} {selected : ρ → Bool}

theorem updateRows_cons {change : ρ → ρ} {r : ρ} {rest : List ρ} {n : Nat} {rows : List ρ}
    (h : updateRows rules selected change (r :: rest) = .ok (n, rows)) :
    ∃ m rest', updateRows rules selected change rest = .ok (m, rest') ∧
      ((n, rows) = (m + 1, change r :: rest') ∨ (n, rows) = (m, r :: rest')) := by
  rw [updateRows] at h
  split at h
  all_goals
    obtain ⟨admitted, -, h⟩ := exists_of_bind_ok h
    obtain ⟨⟨m, rest'⟩, hrest, h⟩ := exists_of_bind_ok h
    refine ⟨m, rest', hrest, ?_⟩
    cases admitted
    · exact Or.inr (Except.ok.inj h).symm
    · exact Or.inl (Except.ok.inj h).symm

theorem deleteRows_cons {r : ρ} {rest : List ρ} {n : Nat} {rows : List ρ}
    (h : deleteRows rules selected (r :: rest) = .ok (n, rows)) :
    ∃ m rest', deleteRows rules selected rest = .ok (m, rest') ∧
      ((n, rows) = (m + 1, rest') ∨ (n, rows) = (m, r :: rest')) := by
  rw [deleteRows] at h
  split at h
  all_goals
    obtain ⟨admitted, -, h⟩ := exists_of_bind_ok h
    obtain ⟨⟨m, rest'⟩, hrest, h⟩ := exists_of_bind_ok h
    refine ⟨m, rest', hrest, ?_⟩
    cases admitted
    · exact Or.inr (Except.ok.inj h).symm
    · exact Or.inl (Except.ok.inj h).symm

theorem eq_of_updateRows_zero {change : ρ → ρ} {rows rows' : List ρ}
    (h : updateRows rules selected change rows = .ok (0, rows')) : rows' = rows := by
  induction rows generalizing rows' with
  | nil =>
    cases h
    rfl
  | cons r rest ih =>
    obtain ⟨m, rest', hrest, he | he⟩ := updateRows_cons h
    · cases he
    · cases he
      rw [ih hrest]

theorem eq_of_deleteRows_zero {rows rows' : List ρ}
    (h : deleteRows rules selected rows = .ok (0, rows')) : rows' = rows := by
  induction rows generalizing rows' with
  | nil =>
    cases h
    rfl
  | cons r rest ih =>
    obtain ⟨m, rest', hrest, he | he⟩ := deleteRows_cons h
    · cases he
    · cases he
      rw [ih hrest]

end Rows

theorem eq_of_updateMessageRow_zero {rules : Rules} {id : String} {selected : MessageRow → Bool}
    {change : MessageRow → MessageRow} {rows rows' : List MessageRow}
    (h : updateMessageRow rules id selected change rows = .ok (0, rows')) : rows' = rows := by
  rw [updateMessageRow] at h
  obtain ⟨⟨n, changed⟩, hupdate, h⟩ := exists_of_bind_ok h
  dsimp only at h
  split at h
  · next hn =>
    subst hn
    cases h
    exact eq_of_updateRows_zero hupdate
  · next hn =>
    obtain ⟨stolen, -, h⟩ := exists_of_bind_ok h
    cases h
    exact absurd rfl hn

/-! ### Accesses -/

/-- The access leaves the store as it was. -/
abbrev Reads {α : Type} (a : Access α) : Prop := Preserves id a

/-- The access leaves the store as it was if it fails. -/
abbrev FailsClean {α : Type} (a : Access α) : Prop := Atomic id a

section Statements

variable {ρ : Type} [TableRow ρ] {α : Type}

theorem failsClean_statement (report : Report)
    (run : Rules → List ρ → Except StorageFailure (α × List ρ)) :
    FailsClean (statement report run) := by
  intro s e he
  unfold statement at he ⊢
  split
  · rfl
  · split
    · rfl
    · next hf _ _ _ hrun =>
      rw [hf, hrun] at he
      cases he

/-- A statement leaves what does not depend on the rows of its table. -/
theorem preserves_of_withRows {τ : Type} {view : Store → τ}
    (h : ∀ (s : Store) (rows : List ρ), view (TableRow.withRows s rows) = view s) (report : Report)
    (run : Rules → List ρ → Except StorageFailure (α × List ρ)) :
    Preserves view (statement report run) := by
  intro s
  unfold statement
  split
  · rfl
  · split
    · rfl
    · exact h s _

theorem reads_connect : Reads connect := fun _ => rfl

theorem failsClean_transaction (a : Access α) : FailsClean (transaction a) := by
  intro s e he
  unfold transaction at he ⊢
  split
  · rfl
  · split
    · rfl
    · next hc _ _ _ ha =>
      rw [hc, ha] at he
      cases he

theorem reads_requireAffected (e : Error) (affected : Nat) :
    Reads (requireAffected e affected) := by
  unfold requireAffected
  split
  · exact preserves_throw e
  · exact preserves_pure ()

theorem failsClean_insert (entity : Entity) (r : ρ) : FailsClean (insert entity r) :=
  (failsClean_statement _ _).bind_pure fun _ => ()

variable [LawfulTableRow ρ]

theorem reads_select (report : Report) (query : List ρ → Except StorageFailure α) :
    Reads (select report query) := by
  intro s
  unfold select statement
  split
  · rfl
  · split
    · rfl
    · next hrun =>
      dsimp only at hrun
      rcases hq : query (TableRow.rows s) with f | a <;> rw [hq] at hrun <;> cases hrun
      exact LawfulTableRow.withRows_rows s

theorem failsClean_requireAffected (report : Report) (e : Error)
    {run : Rules → List ρ → Except StorageFailure (Nat × List ρ)}
    (hzero : ∀ rules rows rows', run rules rows = .ok (0, rows') → rows' = rows) :
    FailsClean (statement report run >>= requireAffected e) := by
  intro s e' he
  rw [bind_apply] at he ⊢
  rcases hs : statement report run s with ⟨f | n, s'⟩ <;> rw [hs] at he
  · have hclean := failsClean_statement report run s f
    rw [hs] at hclean
    exact hclean rfl
  · dsimp only at he ⊢
    rcases n with _ | n
    · unfold statement at hs
      split at hs
      · cases hs
      · split at hs
        · cases hs
        · next hrun =>
          cases hs
          rw [hzero _ _ _ hrun]
          exact LawfulTableRow.withRows_rows s
    · cases he

theorem reads_get (entity : Entity) (decode? : ρ → Option α) (id : String) :
    Reads (get entity decode? id) := reads_select _ _

theorem failsClean_delete (entity : Entity) (id : String) : FailsClean (delete ρ entity id) :=
  failsClean_requireAffected _ _ fun _ _ _ h => eq_of_deleteRows_zero h

theorem reads_listPage (decode? : ρ → Option α) (selected : ρ → Bool) (offset limit : UInt32) :
    Reads (listPage decode? selected offset limit) := reads_select _ _

end Statements

theorem reads_health : Reads health := reads_connect.bind fun _ => preserves_pure true

/-! ### Queues -/

theorem failsClean_updateQueue (q : Queue) : FailsClean (updateQueue q) :=
  failsClean_requireAffected _ _ fun _ _ _ h => eq_of_updateRows_zero h

theorem reads_queueStats (id : String) (now : Instant) : Reads (queueStats id now) := by
  refine (reads_select _ _).bind fun count => ?_
  split
  · exact preserves_pure _
  · exact (reads_select _ _).bind fun oldest => preserves_pure _

/-! ### Messages -/

theorem failsClean_createMessage (m : Message) : FailsClean (createMessage m) :=
  reads_connect.bind_atomic fun _ => failsClean_insert _ _

theorem failsClean_createMessages (ms : List Message) : FailsClean (createMessages ms) := by
  unfold createMessages
  split
  · exact (preserves_pure ()).atomic
  · exact failsClean_transaction _

/-- Whatever claim of a lease fails, the claims before it are not recorded. -/
theorem failsClean_lease (q : Queue) (label : Option String) (limit : UInt32) (now : Instant) :
    FailsClean (lease q label limit now) := by
  unfold lease
  split
  · exact (preserves_pure []).atomic
  · refine (reads_select _ _).bind_atomic fun ms => ?_
    unfold claimAll
    split
    · exact (preserves_pure []).atomic
    · exact failsClean_transaction _

theorem failsClean_updateMessage (m : Message) : FailsClean (updateMessage m) :=
  failsClean_requireAffected _ _ fun _ _ _ h => eq_of_updateMessageRow_zero h

theorem failsClean_ack (id : String) (now : Instant) : FailsClean (ack id now) :=
  (reads_get _ _ _).bind_atomic fun m => failsClean_updateMessage (m.ack now)

theorem failsClean_nack (id : String) (timeout : UInt32) (now : Instant) :
    FailsClean (nack id timeout now) :=
  (reads_get _ _ _).bind_atomic fun m => failsClean_updateMessage (m.nack now timeout)

/-! ### All operations -/

/-- **An operation that fails leaves the store as it was**, whatever the store. -/
theorem failsClean_perform (op : Operation) : FailsClean (perform op) := by
  cases op with
  | createQueue q => exact (failsClean_insert _ _).bind_pure _
  | updateQueue q => exact (failsClean_updateQueue q).bind_pure _
  | getQueue id => exact (reads_get _ _ _).atomic.bind_pure _
  | listQueues offset limit => exact (reads_listPage _ _ _ _).atomic.bind_pure _
  | deleteQueue id => exact (failsClean_delete _ _).bind_pure _
  | queueStats id now => exact (reads_queueStats id now).atomic.bind_pure _
  | purge id => exact (failsClean_statement _ _).bind_pure _
  | cleanup id now => exact (failsClean_statement _ _).bind_pure _
  | createMessage m => exact (failsClean_createMessage m).bind_pure _
  | createMessages ms => exact (failsClean_createMessages ms).bind_pure _
  | getMessage id => exact (reads_get _ _ _).atomic.bind_pure _
  | allMessages => exact (reads_select _ _).atomic.bind_pure _
  | lease q label limit now => exact (failsClean_lease q label limit now).bind_pure _
  | ack id now => exact (failsClean_ack id now).bind_pure _
  | nack id timeout now => exact (failsClean_nack id timeout now).bind_pure _
  | createTopic t => exact (failsClean_insert _ _).bind_pure _
  | getTopic id => exact (reads_get _ _ _).atomic.bind_pure _
  | listTopics offset limit => exact (reads_listPage _ _ _ _).atomic.bind_pure _
  | deleteTopic id => exact (failsClean_delete _ _).bind_pure _
  | createSubscription s => exact (failsClean_insert _ _).bind_pure _
  | getSubscription id => exact (reads_get _ _ _).atomic.bind_pure _
  | listSubscriptions offset limit => exact (reads_listPage _ _ _ _).atomic.bind_pure _
  | listTopicSubscriptions topicId offset limit =>
    exact (reads_listPage _ _ _ _).atomic.bind_pure _
  | deleteSubscription id => exact (failsClean_delete _ _).bind_pure _
  | health => exact reads_health.atomic.bind_pure _

end MessageBroker.Store

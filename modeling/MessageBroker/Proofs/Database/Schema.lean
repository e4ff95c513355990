import MessageBroker.Database.Migration
import MessageBroker.Proofs.Store.Atomicity

/-! # Schemas and rows

A statement of a script creates at most what is not there: a store has afterwards all tables that it
had, with the same rows (`extends_define`), and so it is with whole scripts (`extends_defineAll`).
Run again on a store with all tables and indexes, whatever its rows are, the script does nothing
(`Defined.defineAll`). No operation drops a table or an index (`reach_perform`), so once they are
created they stay. -/

namespace MessageBroker.Store

open Fallible

/-! ### Scripts -/

/-- A table has the same rows in two stores. -/
def AgreesOn (s s' : Store) : Table → Prop
  | .queues => s'.queues = s.queues
  | .messages => s'.messages = s.messages
  | .topics => s'.topics = s.topics
  | .subscriptions => s'.subscriptions = s.subscriptions

/-- A store has all that another one has, and possibly further tables and indexes. -/
structure Extends (s s' : Store) : Prop where
  tables : s'.missing ⊆ s.missing
  rows : ∀ t ∉ s.missing, AgreesOn s s' t
  indexes : s.indexes ⊆ s'.indexes
  rules : s'.rules = s.rules
  closed : s'.closed = s.closed

variable {s s' : Store}

theorem AgreesOn.refl (s : Store) (t : Table) : AgreesOn s s t := by
  cases t <;> rfl

theorem AgreesOn.trans {s'' : Store} {t : Table} (h : AgreesOn s s' t) (h' : AgreesOn s' s'' t) :
    AgreesOn s s'' t := by
  cases t <;> exact Eq.trans h' h

theorem agreesOn_cleared {t t' : Table} (h : t' ≠ t) : AgreesOn s (s.cleared t) t' := by
  cases t <;> cases t' <;> first | rfl | exact absurd rfl h

theorem cleared_eq (s : Store) (t : Table) : (s.cleared t).indexes = s.indexes ∧
    (s.cleared t).rules = s.rules ∧ (s.cleared t).closed = s.closed := by
  cases t <;> exact ⟨rfl, rfl, rfl⟩

theorem Extends.refl (s : Store) : Extends s s where
  tables := List.Subset.refl _
  rows t _ := .refl s t
  indexes := List.Subset.refl _
  rules := rfl
  closed := rfl

theorem Extends.trans {s'' : Store} (h : Extends s s') (h' : Extends s' s'') : Extends s s'' where
  tables := List.Subset.trans h'.tables h.tables
  rows t ht := (h.rows t ht).trans (h'.rows t fun ht' => ht (h.tables ht'))
  indexes := List.Subset.trans h.indexes h'.indexes
  rules := h'.rules.trans h.rules
  closed := h'.closed.trans h.closed

/-- **A statement of a script keeps the rows of every table that exists.** -/
theorem extends_define {x : Definition} (h : s.define x = .ok s') : Extends s s' := by
  cases x with
  | table ifNotExists t =>
    rw [define] at h
    split_ifs at h with hmissing
    · cases h
      obtain ⟨hindexes, hrules, hclosed⟩ := s.cleared_eq t
      refine ⟨List.filter_sublist.subset, fun t' ht' => ?_, hindexes ▸ List.Subset.refl _, hrules,
        hclosed⟩
      have hne : t' ≠ t := fun he => ht' (he ▸ hmissing)
      have hrows : AgreesOn s (s.cleared t) t' := agreesOn_cleared hne
      cases t' <;> exact hrows
    · cases h
      exact .refl s
  | index ifNotExists i =>
    rw [define] at h
    split_ifs at h
    · cases h
      exact .refl s
    · split at h <;> cases h
      exact { Extends.refl s with
        rows := fun t _ => by cases t <;> rfl
        indexes := List.subset_append_left _ _ }

/-- **A script keeps the rows of every table that exists.** -/
theorem extends_defineAll {l : List Definition} (h : s.defineAll l = .ok s') : Extends s s' := by
  induction l generalizing s with
  | nil =>
    cases h
    exact .refl _
  | cons x l ih =>
    obtain ⟨s₁, hx, hl⟩ := exists_of_bind_ok h
    exact (extends_define hx).trans (ih hl)

/-! ### Scripts that are run again -/

/-- What a statement creates is there, and the statement passes over it. -/
def Present (s : Store) : Definition → Prop
  | .table ifNotExists t => ifNotExists = true ∧ t ∉ s.missing
  | .index ifNotExists i => ifNotExists = true ∧ i.table ∉ s.missing ∧ i.name ∉ s.tableNames ∧
    s.hasIndex i.name = true

theorem define_of_present {x : Definition} (h : s.Present x) : s.define x = .ok s := by
  cases x with
  | table ifNotExists t =>
    obtain ⟨hflag, htable⟩ := h
    rw [define, if_neg htable, if_pos hflag]
  | index ifNotExists i =>
    obtain ⟨hflag, htable, hname, hindex⟩ := h
    rw [define, if_neg htable, if_neg hname, if_pos hindex, if_pos hflag]

theorem defineAll_of_present {l : List Definition} (h : ∀ x ∈ l, s.Present x) :
    s.defineAll l = .ok s := by
  induction l with
  | nil => rfl
  | cons x l ih =>
    obtain ⟨hx, hl⟩ := List.forall_mem_cons.mp h
    rw [defineAll, List.foldlM_cons, define_of_present hx]
    exact ih hl

/-- All tables and indexes exist, and connections are accepted. -/
structure Defined (s : Store) : Prop where
  missing : s.missing = []
  indexes : s.indexes = Index.all
  closed : s.closed = false

theorem Defined.present (h : s.Defined) : ∀ x ∈ script, s.Present x := by
  have hnames : s.tableNames = Table.all.map Table.name := by simp [tableNames, h.missing]
  intro x hx
  simp only [script, List.mem_cons, List.not_mem_nil, or_false] at hx
  rcases hx with rfl | rfl | rfl | rfl | rfl | rfl | rfl <;>
    simp [Present, hnames, h.missing, hasIndex, h.indexes, Index.all, Index.visibility, Index.label,
      Index.topic, Table.all, Table.name]

/-- **The script does nothing to a store with all tables and indexes**, whatever their rows. -/
theorem Defined.defineAll (h : s.Defined) : s.defineAll script = .ok s :=
  defineAll_of_present h.present

theorem defined_empty : empty.Defined := ⟨rfl, rfl, rfl⟩

theorem defineAll_blank : Database.blank.store.defineAll script = .ok empty := by
  rfl

/-! ### What operations leave as it was -/

/-- The rows of all tables. -/
def allRows (s : Store) : List QueueRow × List MessageRow × List TopicRow × List SubscriptionRow :=
  (s.queues, s.messages, s.topics, s.subscriptions)

/-- The tables that do not exist, the indexes, and whether connections are refused. -/
def reach (s : Store) : List Table × List Index × Bool := (s.missing, s.indexes, s.closed)

section Reach

variable {ρ : Type} [TableRow ρ] {α : Type}

/-- The rows of a kind do not decide whether tables can be reached. -/
class ReachableRow (ρ : Type) [TableRow ρ] : Prop where
  reach_withRows : ∀ (s : Store) (rows : List ρ), (TableRow.withRows s rows).reach = s.reach

instance : ReachableRow QueueRow := ⟨fun _ _ => rfl⟩
instance : ReachableRow MessageRow := ⟨fun _ _ => rfl⟩
instance : ReachableRow TopicRow := ⟨fun _ _ => rfl⟩
instance : ReachableRow SubscriptionRow := ⟨fun _ _ => rfl⟩

theorem reach_transaction {a : Access α} (ha : Preserves reach a) :
    Preserves reach (transaction a) := by
  intro s
  have hs := ha s
  unfold transaction
  split
  · rfl
  · split
    · rfl
    · next heq =>
      rw [heq] at hs
      exact hs

variable [ReachableRow ρ]

theorem reach_statement (report : Report)
    (run : Rules → List ρ → Except StorageFailure (α × List ρ)) :
    Preserves reach (statement report run) :=
  preserves_of_withRows ReachableRow.reach_withRows report run

theorem reach_insert (entity : Entity) (r : ρ) : Preserves reach (insert entity r) :=
  (reach_statement _ _).bind fun _ => preserves_pure ()

theorem reach_change (report : Report)
    (run : Rules → List ρ → Except StorageFailure (Nat × List ρ)) (e : Error) :
    Preserves reach (statement report run >>= requireAffected e) :=
  (reach_statement _ _).bind fun n => (reads_requireAffected _ n).part

end Reach

theorem reach_forM (ms : List Message) :
    Preserves reach (ms.forM fun m => insert .message (MessageRow.ofMessage m)) := by
  induction ms with
  | nil => exact preserves_pure ()
  | cons m ms ih => exact (reach_insert _ _).bind fun _ => ih

theorem reach_createMessages (ms : List Message) : Preserves reach (createMessages ms) := by
  unfold createMessages
  split
  · exact preserves_pure ()
  · exact reach_transaction (reach_forM ms)

theorem reach_claimEach (q : Queue) (now : Instant) (ms : List Message) :
    Preserves reach (claimEach q now ms) := by
  induction ms with
  | nil => exact preserves_pure []
  | cons m ms ih =>
    have hclaim : Preserves reach (claim q now m) := reach_statement _ _
    exact hclaim.bind fun _ => ih.bind fun _ => preserves_pure _

theorem reach_lease (q : Queue) (label : Option String) (limit : UInt32) (now : Instant) :
    Preserves reach (lease q label limit now) := by
  unfold lease
  split
  · exact preserves_pure []
  · refine (reads_select _ _).part.bind fun ms => ?_
    unfold claimAll
    split
    · exact preserves_pure []
    · exact reach_transaction (reach_claimEach q now ms)

/-- **No operation drops a table or an index, or refuses connections.** -/
theorem reach_perform (op : Operation) : Preserves reach (perform op) := by
  cases op with
  | createQueue q => exact (reach_insert _ _).bind_pure _
  | updateQueue q => exact (reach_change _ _ _).bind_pure _
  | getQueue id => exact (reads_get _ _ _).part.bind_pure _
  | listQueues offset limit => exact (reads_listPage _ _ _ _).part.bind_pure _
  | deleteQueue id => exact (reach_change _ _ _).bind_pure _
  | queueStats id now => exact (reads_queueStats id now).part.bind_pure _
  | purge id => exact (reach_statement _ _).bind_pure _
  | cleanup id now => exact (reach_statement _ _).bind_pure _
  | createMessage m =>
    exact (reads_connect.part.bind fun _ => reach_insert _ _).bind_pure _
  | createMessages ms => exact (reach_createMessages ms).bind_pure _
  | getMessage id => exact (reads_get _ _ _).part.bind_pure _
  | allMessages => exact (reads_select _ _).part.bind_pure _
  | lease q label limit now => exact (reach_lease q label limit now).bind_pure _
  | ack id now | nack id timeout now =>
    exact ((reads_get _ _ _).part.bind fun m => reach_change _ _ _).bind_pure _
  | createTopic t => exact (reach_insert _ _).bind_pure _
  | getTopic id => exact (reads_get _ _ _).part.bind_pure _
  | listTopics offset limit => exact (reads_listPage _ _ _ _).part.bind_pure _
  | deleteTopic id => exact (reach_change _ _ _).bind_pure _
  | createSubscription t => exact (reach_insert _ _).bind_pure _
  | getSubscription id => exact (reads_get _ _ _).part.bind_pure _
  | listSubscriptions offset limit => exact (reads_listPage _ _ _ _).part.bind_pure _
  | listTopicSubscriptions topicId offset limit => exact (reads_listPage _ _ _ _).part.bind_pure _
  | deleteSubscription id => exact (reach_change _ _ _).bind_pure _
  | health => exact reads_health.part.bind_pure _

theorem Defined.of_reach (h : s.Defined) (hreach : s'.reach = s.reach) : s'.Defined := by
  obtain ⟨hmissing, hindexes, hclosed⟩ := Prod.mk.inj hreach |>.imp_right Prod.mk.inj
  exact ⟨hmissing.trans h.missing, hindexes.trans h.indexes, hclosed.trans h.closed⟩

end MessageBroker.Store

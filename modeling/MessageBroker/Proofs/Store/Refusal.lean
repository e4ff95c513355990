import MessageBroker.Proofs.Store.Claim

/-! # What accesses refuse

Nothing disturbs the store, and every row that is read can be read back. Then an access to what is
stored under an identifier is refused if and only if there is no such row (`answers_get`,
`answers_rewrite`), an insertion if and only if there is one (`answers_insert`), and nothing else is
refused: no listing (`answers_listPage`), no count of a backlog (`answers_queueStats`), no lease
(`Keyed.answers_lease`), and no removal of messages (`answers_removal`). -/

namespace MessageBroker.Store

open Fallible

/-- Every row can be read back. -/
def Legible {ρ α : Type} (decode? : ρ → Option α) (rows : List ρ) : Prop :=
  ∀ r ∈ rows, ∃ a, decode? r = some a

/-- The refusal of access to a row that does not exist. -/
def missing? (ρ : Type) [TableRow ρ] (s : Store) (entity : Entity) (id : String) : Option Error :=
  if ∃ r ∈ (TableRow.rows s : List ρ), Row.id r = id then none else some (.notFound entity id)

/-- The refusal of a row whose identifier is taken. -/
def taken? (ρ : Type) [TableRow ρ] (s : Store) (entity : Entity) (id : String) : Option Error :=
  if ∃ r ∈ (TableRow.rows s : List ρ), Row.id r = id then some (.alreadyExists entity id) else none

section Rows

variable {ρ α : Type} {rows : List ρ} {decode? : ρ → Option α}

theorem Legible.sublist (h : Legible decode? rows) {l : List ρ} (hl : l ⊆ rows) :
    Legible decode? l := fun r hr => h r (hl hr)

theorem Legible.mapM_eq (h : Legible decode? rows) (a : α) :
    (rows.mapM fun r => decoded (decode? r)) = .ok (rows.map fun r => (decode? r).getD a) := by
  induction rows with
  | nil => rfl
  | cons r rows ih =>
    obtain ⟨⟨v, hv⟩, hrows⟩ := List.forall_mem_cons.mp h
    rw [List.mapM_cons, ih hrows, List.map_cons, hv]
    rfl

theorem Legible.exists_mapM (h : Legible decode? rows) :
    ∃ l, (rows.mapM fun r => decoded (decode? r)) = .ok l := by
  cases rows with
  | nil => exact ⟨[], rfl⟩
  | cons r rows =>
    obtain ⟨a, -⟩ := h r List.mem_cons_self
    exact ⟨_, h.mapM_eq a⟩

theorem exists_rowOf [Row ρ] {id : String} (h : ∃ r ∈ rows, Row.id r = id) :
    ∃ r ∈ rows, rowOf id rows = .ok r := by
  obtain ⟨r, hr, hid⟩ := h
  rcases hfind : rows.find? fun x => Row.id x = id with _ | r'
  · have hne := List.find?_eq_none.mp hfind r hr
    simp [hid] at hne
  · refine ⟨r', List.mem_of_find?_eq_some hfind, ?_⟩
    rw [rowOf, hfind]

end Rows

/-! ### Single rows -/

section Rows

variable {ρ α : Type} [TableRow ρ] {s : Store}

theorem missing?_eq_some_iff {entity : Entity} {id : String} {e : Error} :
    missing? ρ s entity id = some e ↔
      (∀ r ∈ (TableRow.rows s : List ρ), Row.id r ≠ id) ∧ e = .notFound entity id := by
  unfold missing?
  split_ifs with h
  · obtain ⟨r, hr, hid⟩ := h
    have hexists : ¬∀ r ∈ (TableRow.rows s : List ρ), Row.id r ≠ id := fun hne => hne r hr hid
    simp [hexists]
  · push Not at h
    rw [Option.some.injEq, and_iff_right h]
    exact eq_comm

theorem taken?_eq_some_iff {entity : Entity} {id : String} {e : Error} :
    taken? ρ s entity id = some e ↔
      (∃ r ∈ (TableRow.rows s : List ρ), Row.id r = id) ∧ e = .alreadyExists entity id := by
  unfold taken?
  split_ifs with h
  · rw [Option.some.injEq, and_iff_right h]
    exact eq_comm
  · simp [h]

/-- **Access by an identifier** is refused if no row has it. -/
theorem answers_get [LawfulTableRow ρ] (h : s.Undisturbed) {decode? : ρ → Option α}
    (hrows : Legible decode? (TableRow.rows s)) (entity : Entity) (id : String) :
    Answers (get entity decode? id) s (missing? ρ s entity id) := by
  unfold missing?
  split_ifs with hid
  · obtain ⟨r, hr, hrow⟩ := exists_rowOf hid
    obtain ⟨a, ha⟩ := hrows r hr
    exact answers_of_ok (get_of_rowOf h entity hrow ha)
  · have hne : ∀ r ∈ (TableRow.rows s : List ρ), Row.id r ≠ id := fun r hr he => hid ⟨r, hr, he⟩
    exact answers_of_error (get_of_ne h entity decode? hne)

/-- **An insertion** is refused if a row has its identifier. -/
theorem answers_insert (h : s.Undisturbed) (entity : Entity) (r : ρ) :
    Answers (insert entity r) s (taken? ρ s entity (Row.id r)) := by
  unfold taken?
  split_ifs with hid
  · obtain ⟨other, hother, hid⟩ := hid
    exact answers_of_error (insert_of_mem h entity hother hid)
  · exact answers_of_ok (insert_of_ne h entity fun other hother he => hid ⟨other, hother, he⟩)

theorem answers_of_affected (h : s.Undisturbed) (report : Report) (e : Error)
    {run : Rules → List ρ → Except StorageFailure (Nat × List ρ)} {n : Nat} {rows : List ρ}
    (hrun : run .none (TableRow.rows s) = .ok (n, rows)) (hn : 0 < n) :
    Answers (statement report run >>= requireAffected e) s none := by
  have hstatement := statement_ok report run h hrun
  have hbind : (statement report run >>= requireAffected e) s =
      (.ok (), TableRow.withRows s rows) := by
    rw [bind_ok hstatement, requireAffected, if_neg (Nat.pos_iff_ne_zero.mp hn)]
    rfl
  exact answers_of_ok hbind

theorem answers_delete (h : s.Undisturbed) (entity : Entity) {id : String}
    (hid : ∃ r ∈ (TableRow.rows s : List ρ), Row.id r = id) :
    Answers (delete ρ entity id) s none := by
  obtain ⟨r, hr, hrid⟩ := hid
  refine answers_of_affected h _ _ (deleteRows_none (fun r : ρ => Row.id r = id) _) ?_
  exact List.countP_pos_iff.mpr ⟨r, hr, by simpa using hrid⟩

theorem answers_select [LawfulTableRow ρ] (h : s.Undisturbed) {report : Report}
    {query : List ρ → Except StorageFailure α} (hquery : ∃ a, query (TableRow.rows s) = .ok a) :
    Answers (select report query) s none := by
  obtain ⟨a, ha⟩ := hquery
  exact answers_of_ok (select_ok report query h ha)

omit [TableRow ρ] in
theorem mem_of_mem_page [Row ρ] {rows : List ρ} {selected : ρ → Bool} {offset limit : UInt32}
    {r : ρ} (hr : r ∈ page offset limit (sortedById (rows.filter selected))) :
    r ∈ rows ∧ selected r = true := by
  have hsorted := List.mem_of_mem_drop (List.mem_of_mem_take hr)
  exact List.mem_filter.mp (List.mem_mergeSort.mp hsorted)

/-- **A listing** is not refused. -/
theorem answers_listPage [LawfulTableRow ρ] (h : s.Undisturbed) {decode? : ρ → Option α}
    (hrows : Legible decode? (TableRow.rows s)) (selected : ρ → Bool) (offset limit : UInt32) :
    Answers (listPage decode? selected offset limit) s none :=
  answers_select h (hrows.sublist fun _ hr => (mem_of_mem_page hr).1).exists_mapM

theorem of_listPage {decode? : ρ → Option α} {selected : ρ → Bool} {offset limit : UInt32}
    {l : List α} (hl : (listPage decode? selected offset limit s).1 = .ok l) :
    ∀ a ∈ l, ∃ r ∈ (TableRow.rows s : List ρ), selected r = true ∧ decode? r = some a := by
  intro a ha
  unfold listPage at hl
  have hread := of_select _ hl
  obtain ⟨r, hr, hdecode⟩ := exists_of_mem_right (forall₂_of_mapM_decoded hread) ha
  obtain ⟨hmem, hselected⟩ := mem_of_mem_page hr
  exact ⟨r, hmem, hselected, hdecode⟩

/-- A table whose rows can all be read back is listed in pages of one list. -/
theorem listPage_of_legible [LawfulTableRow ρ] (h : s.Undisturbed) {decode? : ρ → Option α}
    (hrows : Legible decode? (TableRow.rows s)) (a : α) (selected : ρ → Bool)
    (offset limit : UInt32) : listPage decode? selected offset limit s =
      (.ok (page offset limit ((sortedById ((TableRow.rows s).filter selected)).map
        fun r => (decode? r).getD a)), s) := by
  refine select_ok _ _ h ?_
  rw [(hrows.sublist fun _ hr => (mem_of_mem_page hr).1).mapM_eq a, page, page, List.map_take,
    List.map_drop]

end Rows

/-! ### Queues and messages -/

section Messages

variable {s : Store}

theorem answers_updateQueue (h : s.Undisturbed) {q : Queue} (hid : ∃ r ∈ s.queues, r.id = q.id) :
    Answers (updateQueue q) s none := by
  obtain ⟨r, hr, hrid⟩ := hid
  refine answers_of_affected h _ _
    (updateRows_none (fun r : QueueRow => r.id = q.id) (fun _ => .ofQueue q) _) ?_
  exact List.countP_pos_iff.mpr ⟨r, hr, by simpa using hrid⟩

theorem answers_removal (h : s.Undisturbed) (selected : MessageRow → Bool) :
    Answers (statement .plain fun rules rows => deleteRows rules selected rows) s none :=
  answers_of_ok (statement_ok .plain _ h (deleteRows_none selected _))

theorem MessageRow.read?_createdAt {r : MessageRow} {m : Message} (h : r.decode? = some m) :
    Instant.read? r.createdAt = some m.createdAt := by
  simp only [decode?, Option.bind_eq_bind, Option.bind_eq_some_iff, Option.pure_def] at h
  obtain ⟨_, -, _, -, _, -, _, -, createdAt, hcreated, _, -, hm⟩ := h
  cases hm
  exact hcreated

/-- **The count of a backlog** is not refused. -/
theorem answers_queueStats (h : s.Undisturbed) (hrows : Legible MessageRow.decode? s.messages)
    (id : String) (now : Instant) : Answers (queueStats id now) s none := by
  unfold queueStats
  have hcounted : Answers (select (ρ := MessageRow) .plain fun rows =>
      .ok (visibleRows id now rows).length) s none := answers_select h ⟨_, rfl⟩
  refine hcounted.bind_none fun _ count s' hcount => ?_
  rw [select_undisturbed _ _ h] at hcount
  obtain rfl : s = s' := (Prod.mk.inj hcount).2
  split_ifs
  · exact ⟨QueueStats.zero, rfl⟩
  · refine (answers_select h ?_).bind_pure _
    split
    · exact ⟨none, rfl⟩
    · next r rest hsorted =>
      have hsort : r ∈ (visibleRows id now s.messages).mergeSort fun a b =>
          Text.le a.createdAt b.createdAt := by
        have hhead : r ∈ r :: rest := List.mem_cons_self
        rw [← hsorted] at hhead
        exact hhead
      obtain ⟨m, hm⟩ := hrows r (List.mem_of_mem_filter (List.mem_mergeSort.mp hsort))
      rw [MessageRow.read?_createdAt hm]
      exact ⟨some m.createdAt, rfl⟩

/-- **A lease** is not refused. -/
theorem Keyed.answers_lease (h : s.Keyed) (hrows : Legible MessageRow.decode? s.messages)
    (q : Queue) (label : Option String) (limit : UInt32) (now : Instant) :
    Answers (lease q label limit now) s none := by
  have hread : Answers (readCandidates q label limit now) s none := by
    unfold readCandidates
    split_ifs
    · exact ⟨[], rfl⟩
    · have hcandidates : ((((visibleRows q.id now s.messages).filter fun r =>
          r.hasLabel label).mergeSort leaseOrder).take limit.toNat) ⊆ s.messages := by
        intro r hr
        have hsorted := List.mem_mergeSort.mp (List.mem_of_mem_take hr)
        exact List.mem_of_mem_filter (List.mem_of_mem_filter hsorted)
      exact answers_select h.toUndisturbed (hrows.sublist hcandidates).exists_mapM
  obtain ⟨ms, hms⟩ := hread
  exact answers_of_ok (h.lease_eq hms)

theorem answers_rewrite (h : s.Undisturbed) (hrows : Legible MessageRow.decode? s.messages)
    {f : Message → Message} (hid : ∀ m, (f m).id = m.id) (id : String) :
    Answers (getMessage id >>= fun m => updateMessage (f m)) s
      (missing? MessageRow s .message id) := by
  refine (answers_get h hrows .message id).bind_none fun _ m s' hm => ?_
  obtain ⟨rfl, r, hr, -, hdecode⟩ := of_getMessage h hm
  have hrid : r.id = (f m).id := by rw [hid, (MessageRow.decode?_eq_some hdecode).1]
  exact answers_of_ok (updateMessage_of_mem h hr hrid)

end Messages

end MessageBroker.Store

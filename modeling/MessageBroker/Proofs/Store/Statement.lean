import MessageBroker.Proofs.Fallible
import MessageBroker.Store.Operation

/-! # Statements on an undisturbed store

Nothing disturbs a store on which no rules are in force, of which no table is missing, and which can
be reached. Its statements affect all rows that they select (`updateRows_none`, `deleteRows_none`),
and fail only for what they are about (`statement_ok`, `statement_error`). An entity is found by its
identifier if its row is there and can be read back (`get_of_mem`, `get_of_ne`). -/

namespace MessageBroker.Store

open Fallible

/-- Nothing disturbs the store. -/
structure Undisturbed (s : Store) : Prop where
  rules : s.rules = .none
  missing : s.missing = []
  closed : s.closed = false

theorem undisturbed_empty : empty.Undisturbed := ⟨rfl, rfl, rfl⟩

/-! ### Rows without rules -/

section Rows

variable {ρ : Type} [Row ρ] (selected : ρ → Bool)

theorem admits_none (event : Event) (r : ρ) : Rules.none.admits event r = .ok true := rfl

theorem insertRow_none {r : ρ} {rows : List ρ} (h : ∀ other ∈ rows, Row.id other ≠ Row.id r) :
    insertRow .none r rows = .ok (1, rows ++ [r]) := by
  have hfresh : (rows.any fun other => Row.id other = Row.id r) = false := by
    rw [List.any_eq_false]
    intro other hother
    simpa using h other hother
  rw [insertRow, admits_none]
  simp only [bind, Except.bind, if_true, hfresh, Bool.false_eq_true, if_false]
  rfl

theorem insertRow_taken {r other : ρ} {rows : List ρ} (hother : other ∈ rows)
    (h : Row.id other = Row.id r) : insertRow .none r rows =
      .error (.database true ("UNIQUE constraint failed: " ++ (Row.table ρ).name ++ ".id")) := by
  have htaken : (rows.any fun other => Row.id other = Row.id r) = true := by
    rw [List.any_eq_true]
    exact ⟨other, hother, by simpa using h⟩
  rw [insertRow, admits_none]
  simp only [bind, Except.bind, if_true, htaken]
  rfl

theorem updateRows_none (change : ρ → ρ) (rows : List ρ) :
    updateRows .none selected change rows =
      .ok (rows.countP selected, rows.map fun r => if selected r then change r else r) := by
  induction rows with
  | nil => rfl
  | cons r rest ih =>
    rw [updateRows, ih]
    by_cases h : selected r = true
    · rw [if_pos h, admits_none, List.countP_cons_of_pos h, List.map_cons, if_pos h]
      rfl
    · rw [if_neg h, List.countP_cons_of_neg h, List.map_cons, if_neg h]
      rfl

theorem deleteRows_none (rows : List ρ) :
    deleteRows .none selected rows =
      .ok (rows.countP selected, rows.filter fun r => !selected r) := by
  induction rows with
  | nil => rfl
  | cons r rest ih =>
    rw [deleteRows, ih]
    by_cases h : selected r = true
    · rw [if_pos h, admits_none, List.countP_cons_of_pos h, List.filter_cons_of_neg (by simp [h])]
      rfl
    · rw [if_neg h, List.countP_cons_of_neg h, List.filter_cons_of_pos (by simp [h])]
      rfl

end Rows

/-! ### Rows read back -/

section ReadBack

variable {ρ : Type} {rows : List ρ}

theorem find?_of_only [Row ρ] {r : ρ} (hr : r ∈ rows)
    (honly : ∀ other ∈ rows, Row.id other = Row.id r → other = r) :
    (rows.find? fun x => Row.id x = Row.id r) = some r := by
  rcases hfind : rows.find? fun x => Row.id x = Row.id r with _ | r'
  · have hne := List.find?_eq_none.mp hfind r hr
    simp at hne
  · have hid := List.find?_some (p := fun x => Row.id x = Row.id r) hfind
    rw [honly r' (List.mem_of_find?_eq_some hfind) (of_decide_eq_true hid)]

theorem find?_of_mem [Row ρ] (hids : (rows.map Row.id).Nodup) {r : ρ} (hr : r ∈ rows) :
    (rows.find? fun x => Row.id x = Row.id r) = some r :=
  find?_of_only hr fun _ hother hid => List.inj_on_of_nodup_map hids hother hr hid

theorem rowOf_of_only [Row ρ] {r : ρ} (hr : r ∈ rows)
    (honly : ∀ other ∈ rows, Row.id other = Row.id r → other = r) :
    rowOf (Row.id r) rows = .ok r := by
  rw [rowOf, find?_of_only hr honly]

theorem rowOf_of_mem [Row ρ] (hids : (rows.map Row.id).Nodup) {r : ρ} (hr : r ∈ rows) :
    rowOf (Row.id r) rows = .ok r :=
  rowOf_of_only hr fun _ hother hid => List.inj_on_of_nodup_map hids hother hr hid

theorem rowOf_of_ne [Row ρ] {id : String} (hid : ∀ r ∈ rows, Row.id r ≠ id) :
    rowOf id rows = .error .rowNotFound := by
  have hfind : (rows.find? fun r => Row.id r = id) = none := by
    rw [List.find?_eq_none]
    intro r hr
    simpa using hid r hr
  rw [rowOf, hfind]

theorem rowOf_append [Row ρ] {r : ρ} (hid : ∀ r' ∈ rows, Row.id r' ≠ Row.id r) :
    rowOf (Row.id r) (rows ++ [r]) = .ok r := by
  refine rowOf_of_only (by simp) fun other hother he => ?_
  rcases List.mem_append.mp hother with hother | hother
  · exact absurd he (hid other hother)
  · exact List.mem_singleton.mp hother

theorem of_rowOf [Row ρ] {id : String} {r : ρ} (h : rowOf id rows = .ok r) :
    r ∈ rows ∧ Row.id r = id := by
  unfold rowOf at h
  split at h
  · next hfind =>
    cases h
    have hid := List.find?_some (p := fun r => Row.id r = id) hfind
    exact ⟨List.mem_of_find?_eq_some hfind, of_decide_eq_true hid⟩
  · cases h

variable {α : Type}

theorem of_decoded {x : Option α} {a : α} (h : decoded x = .ok a) : x = some a := by
  cases x with
  | none => cases h
  | some v => rw [Except.ok.inj h]

theorem mapM_decoded {encode : α → ρ} {decode? : ρ → Option α} {l : List α}
    (h : ∀ a ∈ l, decode? (encode a) = some a) :
    ((l.map encode).mapM fun r => decoded (decode? r)) = .ok l := by
  induction l with
  | nil => rfl
  | cons a l ih =>
    obtain ⟨ha, hl⟩ := List.forall_mem_cons.mp h
    rw [List.map_cons, List.mapM_cons, ha, ih hl]
    rfl

theorem forall₂_of_mapM_decoded {decode? : ρ → Option α} {l : List α}
    (h : (rows.mapM fun r => decoded (decode? r)) = .ok l) :
    List.Forall₂ (fun r a => decode? r = some a) rows l := by
  induction rows generalizing l with
  | nil =>
    cases h
    exact List.Forall₂.nil
  | cons r rows ih =>
    rw [List.mapM_cons] at h
    obtain ⟨a, ha, h⟩ := exists_of_bind_ok h
    obtain ⟨l', hl', h⟩ := exists_of_bind_ok h
    cases h
    exact List.Forall₂.cons (of_decoded ha) (ih hl')

end ReadBack

theorem stealFrom_none (depth : Nat) (id : String) (rows : List MessageRow) :
    stealFrom .none depth [] id rows = .ok rows := by
  cases depth <;> rfl

theorem updateMessageRow_none (id : String) (selected : MessageRow → Bool)
    (change : MessageRow → MessageRow) (rows : List MessageRow) :
    updateMessageRow .none id selected change rows =
      .ok (rows.countP fun r => r.id = id && selected r,
        rows.map fun r => if r.id = id && selected r then change r else r) := by
  rw [updateMessageRow, updateRows_none]
  simp only [bind, Except.bind]
  split
  · next h =>
    rw [h]
    rfl
  · rw [show Rules.none.thefts = [] from rfl, stealFrom_none]
    rfl

/-! ### Accesses -/

/-- The rows of a kind are a part of the store, and nothing else disturbs it. -/
class LawfulTableRow (ρ : Type) [TableRow ρ] : Prop where
  withRows_rows : ∀ s : Store, TableRow.withRows s (TableRow.rows s : List ρ) = s
  rows_withRows : ∀ (s : Store) (rows : List ρ), TableRow.rows (TableRow.withRows s rows) = rows
  undisturbed_withRows : ∀ {s : Store} (rows : List ρ), s.Undisturbed →
    (TableRow.withRows s rows).Undisturbed

instance : LawfulTableRow QueueRow :=
  ⟨fun _ => rfl, fun _ _ => rfl, fun _ h => ⟨h.rules, h.missing, h.closed⟩⟩
instance : LawfulTableRow MessageRow :=
  ⟨fun _ => rfl, fun _ _ => rfl, fun _ h => ⟨h.rules, h.missing, h.closed⟩⟩
instance : LawfulTableRow TopicRow :=
  ⟨fun _ => rfl, fun _ _ => rfl, fun _ h => ⟨h.rules, h.missing, h.closed⟩⟩
instance : LawfulTableRow SubscriptionRow :=
  ⟨fun _ => rfl, fun _ _ => rfl, fun _ h => ⟨h.rules, h.missing, h.closed⟩⟩

section Accesses

variable {ρ : Type} [TableRow ρ] {α : Type} {s : Store} (report : Report)

theorem Undisturbed.failure? (h : s.Undisturbed) (t : Table) : s.failure? t = none := by
  rw [Store.failure?, h.closed, h.missing]
  rfl

theorem statement_ok (run : Rules → List ρ → Except StorageFailure (α × List ρ))
    (h : s.Undisturbed) {a : α} {rows : List ρ}
    (hrun : run .none (TableRow.rows s) = .ok (a, rows)) :
    statement report run s = (.ok a, TableRow.withRows s rows) := by
  simp only [statement, h.failure?, h.rules, hrun]

theorem statement_error (run : Rules → List ρ → Except StorageFailure (α × List ρ))
    (h : s.Undisturbed) {f : StorageFailure} (hrun : run .none (TableRow.rows s) = .error f) :
    statement report run s = (.error (report.error f), s) := by
  simp only [statement, h.failure?, h.rules, hrun]

theorem select_ok [LawfulTableRow ρ] (query : List ρ → Except StorageFailure α)
    (h : s.Undisturbed) {a : α} (hquery : query (TableRow.rows s) = .ok a) :
    select report query s = (.ok a, s) := by
  have hrun : ((query (TableRow.rows s)).map fun a => (a, (TableRow.rows s : List ρ))) =
      .ok (a, TableRow.rows s) := by
    rw [hquery]
    rfl
  rw [select, statement_ok report _ h hrun, LawfulTableRow.withRows_rows]

theorem select_error (query : List ρ → Except StorageFailure α) (h : s.Undisturbed)
    {f : StorageFailure} (hquery : query (TableRow.rows s) = .error f) :
    select report query s = (.error (report.error f), s) :=
  statement_error report _ h (by rw [hquery]; rfl)

theorem select_undisturbed [LawfulTableRow ρ] (query : List ρ → Except StorageFailure α)
    (h : s.Undisturbed) :
    select report query s = ((query (TableRow.rows s)).mapError report.error, s) := by
  rcases hquery : query (TableRow.rows s) with f | a
  · exact select_error report query h hquery
  · exact select_ok report query h hquery

theorem get_of_rowOf [LawfulTableRow ρ] (h : s.Undisturbed) (entity : Entity)
    {decode? : ρ → Option α} {id : String} {r : ρ} {a : α}
    (hrow : rowOf id (TableRow.rows s) = .ok r) (hdecode : decode? r = some a) :
    get entity decode? id s = (.ok a, s) := by
  refine select_ok _ _ h ?_
  rw [hrow]
  change decoded (decode? r) = _
  rw [hdecode]
  rfl

theorem get_of_mem [LawfulTableRow ρ] (h : s.Undisturbed) (entity : Entity)
    {decode? : ρ → Option α} {r : ρ} {a : α} (hids : ((TableRow.rows s : List ρ).map Row.id).Nodup)
    (hr : r ∈ TableRow.rows s) (hdecode : decode? r = some a) :
    get entity decode? (Row.id r) s = (.ok a, s) :=
  get_of_rowOf h entity (rowOf_of_mem hids hr) hdecode

theorem get_of_ne (h : s.Undisturbed) (entity : Entity) (decode? : ρ → Option α) {id : String}
    (hid : ∀ r ∈ (TableRow.rows s : List ρ), Row.id r ≠ id) :
    get entity decode? id s = (.error (.notFound entity id), s) := by
  have hquery : (rowOf id (TableRow.rows s : List ρ) >>= fun r => decoded (decode? r)) =
      .error StorageFailure.rowNotFound := by
    rw [rowOf_of_ne hid]
    rfl
  exact select_error (.ofRecord entity id)
    (fun rows : List ρ => rowOf id rows >>= fun r => decoded (decode? r)) h hquery

theorem insert_of_ne (h : s.Undisturbed) (entity : Entity) {r : ρ}
    (hid : ∀ other ∈ (TableRow.rows s : List ρ), Row.id other ≠ Row.id r) :
    insert entity r s = (.ok (), TableRow.withRows s (TableRow.rows s ++ [r])) := by
  have hinserted := statement_ok (.ofRecord entity (Row.id r))
    (fun rules rows => insertRow rules r rows) h (insertRow_none hid)
  exact bind_ok hinserted _

theorem insert_of_mem (h : s.Undisturbed) (entity : Entity) {r other : ρ}
    (hother : other ∈ TableRow.rows s) (hid : Row.id other = Row.id r) :
    insert entity r s = (.error (.alreadyExists entity (Row.id r)), s) := by
  refine bind_error ?_ _
  exact statement_error (.ofRecord entity (Row.id r)) (fun rules rows => insertRow rules r rows) h
    (insertRow_taken hother hid)

/-! What an access that succeeds says of the store. -/

theorem of_select {query : List ρ → Except StorageFailure α} {a : α}
    (h : (select report query s).1 = .ok a) : query (TableRow.rows s) = .ok a := by
  unfold select statement at h
  split at h
  · cases h
  · dsimp only at h
    rcases hquery : query (TableRow.rows s) with f | v
    · rw [hquery] at h
      cases h
    · rw [hquery] at h
      exact congrArg Except.ok (Except.ok.inj h)

theorem eq_ok_of_mapError {ε ε' : Type} {f : ε → ε'} {x : Except ε α} {a : α}
    (h : x.mapError f = .ok a) : x = .ok a := by
  rcases x with e | v
  · cases h
  · exact congrArg Except.ok (Except.ok.inj h)

theorem of_get [LawfulTableRow ρ] (h : s.Undisturbed) {entity : Entity} {decode? : ρ → Option α}
    {id : String} {a : α} {s' : Store} (ha : get entity decode? id s = (.ok a, s')) :
    s' = s ∧ ∃ r ∈ (TableRow.rows s : List ρ), Row.id r = id ∧ decode? r = some a := by
  unfold get at ha
  rw [select_undisturbed _ _ h] at ha
  obtain ⟨hanswer, hs⟩ := Prod.mk.inj ha
  obtain ⟨r, hr, hdecode⟩ := exists_of_bind_ok (eq_ok_of_mapError hanswer)
  obtain ⟨hmem, hid⟩ := of_rowOf hr
  exact ⟨hs.symm, r, hmem, hid, of_decoded hdecode⟩

theorem of_insert (h : s.Undisturbed) {entity : Entity} {r : ρ} {s' : Store}
    (hs' : insert entity r s = (.ok (), s')) :
    (∀ other ∈ (TableRow.rows s : List ρ), Row.id other ≠ Row.id r) ∧
      s' = TableRow.withRows s (TableRow.rows s ++ [r]) := by
  have hfresh : ∀ other ∈ (TableRow.rows s : List ρ), Row.id other ≠ Row.id r := by
    intro other hother hid
    rw [insert_of_mem h entity hother hid] at hs'
    cases hs'
  rw [insert_of_ne h entity hfresh] at hs'
  exact ⟨hfresh, (congrArg Prod.snd hs').symm⟩

theorem connect_ok (h : s.Undisturbed) : connect s = (.ok (), s) := by
  rw [connect, h.closed]
  rfl

theorem transaction_apply (h : s.Undisturbed) (a : Access α) :
    transaction a s = match a s with
      | (.error e, _) => (.error e, s)
      | (.ok v, s') => (.ok v, s') := by
  rcases hrun : a s with ⟨_ | _, s'⟩ <;> simp only [transaction, connect_ok h, hrun]

end Accesses

end MessageBroker.Store

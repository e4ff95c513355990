import MessageBroker.Proofs.Store.Atomicity
import MessageBroker.Proofs.Store.Codec

/-! # Operations on single rows

On an undisturbed store no two messages of which share an identifier, operations on messages are
functions of the rows, whatever these hold. Insertions succeed exactly if their identifiers are not
taken (`insert_fresh`, `insert_of_taken`, `createMessages_fresh`). An acknowledgement or a return
reads a row and writes it back with other instants (`exists_of_rewrite`). -/

namespace MessageBroker.Store

open Fallible

/-- An undisturbed store, no two messages of which share an identifier. -/
structure Keyed (s : Store) : Prop extends s.Undisturbed where
  ids : (s.messages.map MessageRow.id).Nodup

theorem keyed_empty : empty.Keyed := ⟨undisturbed_empty, List.nodup_nil⟩

variable {s s' : Store}

namespace Keyed

theorem replace (h : s.Keyed) {rows : List MessageRow} (hids : (rows.map MessageRow.id).Nodup) :
    Keyed { s with messages := rows } := ⟨⟨h.rules, h.missing, h.closed⟩, hids⟩

theorem eq_of_id (h : s.Keyed) {r r' : MessageRow} (hr : r ∈ s.messages) (hr' : r' ∈ s.messages)
    (hid : r'.id = r.id) : r' = r := List.inj_on_of_nodup_map h.ids hr' hr hid

theorem map (h : s.Keyed) {f : MessageRow → MessageRow} (hid : ∀ r, (f r).id = r.id) :
    Keyed { s with messages := s.messages.map f } := by
  have hids : (s.messages.map f).map MessageRow.id = s.messages.map MessageRow.id := by
    rw [List.map_map]
    exact List.map_congr_left fun r _ => hid r
  exact h.replace (hids ▸ h.ids)

theorem filter (h : s.Keyed) (p : MessageRow → Bool) :
    Keyed { s with messages := s.messages.filter p } :=
  h.replace (h.ids.sublist (List.filter_sublist.map _))

end Keyed

/-! ### Rows that must be affected -/

section Affected

variable {ρ : Type} [TableRow ρ]

theorem snd_of_requireAffected (h : s.Undisturbed) (report : Report) (e : Error)
    {run : Rules → List ρ → Except StorageFailure (Nat × List ρ)} {n : Nat} {rows : List ρ}
    (hrun : run .none (TableRow.rows s) = .ok (n, rows)) :
    ((statement report run >>= requireAffected e) s).2 = TableRow.withRows s rows := by
  rw [bind_ok (statement_ok report run h hrun)]
  exact reads_requireAffected e n _

theorem snd_of_delete (h : s.Undisturbed) (entity : Entity) (id : String) :
    (delete ρ entity id s).2 =
      TableRow.withRows s ((TableRow.rows s : List ρ).filter fun r => !decide (Row.id r = id)) :=
  snd_of_requireAffected h _ _ (deleteRows_none (fun r : ρ => Row.id r = id) _)

theorem snd_of_updateQueue (h : s.Undisturbed) (q : Queue) : (updateQueue q s).2 = { s with
    queues := s.queues.map fun r => if r.id = q.id then QueueRow.ofQueue q else r } := by
  have hrows : (updateQueue q s).2 = TableRow.withRows s ((TableRow.rows s).map fun r : QueueRow =>
      if decide (r.id = q.id) then QueueRow.ofQueue q else r) :=
    snd_of_requireAffected h _ _ (updateRows_none (fun r : QueueRow => r.id = q.id) _ _)
  simp only [decide_eq_true_eq] at hrows
  exact hrows

end Affected

/-! ### Insertions -/

/-- The store with more messages. -/
def addMessages (s : Store) (l : List Message) : Store :=
  { s with messages := s.messages ++ l.map MessageRow.ofMessage }

theorem addMessages_nil (s : Store) : s.addMessages [] = s := by
  rw [addMessages, List.map_nil, List.append_nil]

theorem addMessages_addMessages (s : Store) (l l' : List Message) :
    (s.addMessages l).addMessages l' = s.addMessages (l ++ l') := by
  simp only [addMessages, List.append_assoc, List.map_append]

theorem Undisturbed.addMessages (h : s.Undisturbed) (l : List Message) :
    (s.addMessages l).Undisturbed := ⟨h.rules, h.missing, h.closed⟩

theorem insert_fresh (h : s.Undisturbed) {m : Message} (hid : ∀ r ∈ s.messages, r.id ≠ m.id) :
    insert .message (MessageRow.ofMessage m) s = (.ok (), s.addMessages [m]) :=
  insert_of_ne h .message hid

theorem insert_of_taken (h : s.Undisturbed) {m : Message} {r : MessageRow} (hr : r ∈ s.messages)
    (hid : r.id = m.id) : insert .message (MessageRow.ofMessage m) s =
      (.error (.alreadyExists .message m.id), s) :=
  insert_of_mem h .message hr hid

theorem nodup_ids_append {ρ : Type} {id : ρ → String} {rows : List ρ} (h : (rows.map id).Nodup)
    {r : ρ} (hr : ∀ other ∈ rows, id other ≠ id r) : ((rows ++ [r]).map id).Nodup := by
  rw [List.map_append, List.nodup_append]
  refine ⟨h, List.nodup_singleton _, ?_⟩
  rintro _ hother _ hid rfl
  obtain ⟨other, hother, he⟩ := List.mem_map.mp hother
  exact hr other hother (he.trans (List.mem_singleton.mp hid))

theorem Keyed.addMessages (h : s.Keyed) {m : Message} (hid : ∀ r ∈ s.messages, r.id ≠ m.id) :
    (s.addMessages [m]).Keyed := h.replace (nodup_ids_append (r := .ofMessage m) h.ids hid)

theorem Keyed.of_insert (h : s.Keyed) {m : Message}
    (hs' : insert .message (MessageRow.ofMessage m) s = (.ok (), s')) :
    s' = s.addMessages [m] ∧ s'.Keyed := by
  obtain ⟨hfresh, rfl⟩ := Store.of_insert h.toUndisturbed hs'
  exact ⟨rfl, h.addMessages hfresh⟩

theorem Keyed.of_forM_insert (h : s.Keyed) {l : List Message}
    (hs' : (l.forM fun m => insert .message (MessageRow.ofMessage m)) s = (.ok (), s')) :
    s' = s.addMessages l ∧ s'.Keyed := by
  induction l generalizing s with
  | nil =>
    have hs : s = s' := congrArg Prod.snd hs'
    rw [addMessages_nil, ← hs]
    exact ⟨rfl, h⟩
  | cons m l ih =>
    rw [List.forM_eq_forM, List.forM_cons] at hs'
    obtain ⟨_, s₁, hinsert, hrest⟩ := exists_of_bind_apply hs'
    obtain ⟨rfl, hkeyed⟩ := h.of_insert hinsert
    obtain ⟨rfl, hkeyed'⟩ := ih hkeyed hrest
    exact ⟨addMessages_addMessages s [m] l, hkeyed'⟩

theorem Keyed.of_createMessage (h : s.Keyed) {m : Message}
    (hs' : createMessage m s = (.ok (), s')) : s' = s.addMessages [m] ∧ s'.Keyed := by
  unfold createMessage at hs'
  rw [bind_ok (connect_ok h.toUndisturbed)] at hs'
  exact h.of_insert hs'

theorem Keyed.of_createMessages (h : s.Keyed) {l : List Message}
    (hs' : createMessages l s = (.ok (), s')) : s' = s.addMessages l ∧ s'.Keyed := by
  cases l with
  | nil =>
    have hs : s = s' := congrArg Prod.snd hs'
    rw [addMessages_nil, ← hs]
    exact ⟨rfl, h⟩
  | cons m l =>
    rw [createMessages, if_neg (by simp), transaction_apply h.toUndisturbed] at hs'
    rcases hforM : ((m :: l).forM fun m => insert .message (MessageRow.ofMessage m)) s with
      ⟨e | _, s₁⟩
    · rw [hforM] at hs'
      cases hs'
    · rw [hforM] at hs'
      cases hs'
      exact h.of_forM_insert hforM

theorem forM_insert_fresh (h : s.Undisturbed) {l : List Message} (hl : (l.map Message.id).Nodup)
    (hid : ∀ m ∈ l, ∀ r ∈ s.messages, r.id ≠ m.id) :
    (l.forM fun m => insert .message (MessageRow.ofMessage m)) s = (.ok (), s.addMessages l) := by
  induction l generalizing s with
  | nil => rw [addMessages_nil]; rfl
  | cons m l ih =>
    obtain ⟨hm, hl⟩ := List.nodup_cons.mp hl
    obtain ⟨hidm, hid⟩ := List.forall_mem_cons.mp hid
    have hrest : ∀ m' ∈ l, ∀ r ∈ (s.addMessages [m]).messages, r.id ≠ m'.id := by
      intro m' hm' r hr
      rcases List.mem_append.mp hr with hr | hr
      · exact hid m' hm' r hr
      · obtain rfl := List.mem_singleton.mp hr
        exact fun he => hm (List.mem_map.mpr ⟨m', hm', he.symm⟩)
    rw [List.forM_eq_forM, List.forM_cons, bind_ok (insert_fresh h hidm)]
    exact (ih (h.addMessages [m]) hl hrest).trans (by rw [addMessages_addMessages]; rfl)

theorem createMessage_fresh (h : s.Undisturbed) {m : Message}
    (hid : ∀ r ∈ s.messages, r.id ≠ m.id) : createMessage m s = (.ok (), s.addMessages [m]) :=
  (bind_ok (connect_ok h) _).trans (insert_fresh h hid)

/-- **New messages are stored together** if none of their identifiers is taken. -/
theorem createMessages_fresh (h : s.Undisturbed) {l : List Message}
    (hl : (l.map Message.id).Nodup) (hid : ∀ m ∈ l, ∀ r ∈ s.messages, r.id ≠ m.id) :
    createMessages l s = (.ok (), s.addMessages l) := by
  have hforM := forM_insert_fresh h hl hid
  cases l with
  | nil => exact hforM
  | cons m l => rw [createMessages, if_neg (by simp), transaction_apply h, hforM]

/-! ### Messages read and written back -/

/-- The row of a message with the attempts and instants of another. -/
def MessageRow.rewritten (r : MessageRow) (m : Message) : MessageRow :=
  { r with
    deliveryAttempts := .ofWord m.deliveryAttempts
    expiredAt := m.expiredAt.stored
    scheduledAt := m.scheduledAt.stored
    updatedAt := m.updatedAt.stored }

theorem of_getMessage (h : s.Undisturbed) {id : String} {m : Message}
    (hm : getMessage id s = (.ok m, s')) :
    s' = s ∧ ∃ r ∈ s.messages, r.id = id ∧ r.decode? = some m := of_get h hm

theorem updateMessage_of_mem (h : s.Undisturbed) {m : Message} {r : MessageRow}
    (hr : r ∈ s.messages) (hid : r.id = m.id) : updateMessage m s = (.ok (), { s with
      messages := s.messages.map fun r => if r.id = m.id then r.rewritten m else r }) := by
  have hstatement := statement_ok (.ofRecord .message m.id)
    (fun rules rows => updateMessageRow rules m.id (fun _ => true) (·.rewritten m) rows) h
    (updateMessageRow_none _ _ _ _)
  have hpos : 0 < (TableRow.rows s : List MessageRow).countP fun r => r.id = m.id && true :=
    List.countP_pos_iff.mpr ⟨r, hr, by simpa using hid⟩
  refine (bind_ok hstatement _).trans ?_
  rw [requireAffected, if_neg (Nat.pos_iff_ne_zero.mp hpos)]
  simp only [Bool.and_true, decide_eq_true_eq]
  rfl

/-- What reads a message and writes it back changes its row, if it can be read. -/
theorem rewrite_eq (h : s.Undisturbed) {id : String} {f : Message → Message}
    (hid : ∀ m, (f m).id = m.id) {m : Message} (hm : getMessage id s = (.ok m, s')) :
    (getMessage id >>= fun m => updateMessage (f m)) s = (.ok (), { s with
      messages := s.messages.map fun r => if r.id = id then r.rewritten (f m) else r }) := by
  obtain ⟨rfl, r, hr, rfl, hdecode⟩ := of_getMessage h hm
  have hrid : r.id = (f m).id := by rw [hid, (MessageRow.decode?_eq_some hdecode).1]
  rw [bind_ok hm, updateMessage_of_mem h hr hrid, hrid]

/-- What an operation leaves that reads a message and writes it back changed. -/
theorem exists_of_rewrite (h : s.Undisturbed) {id : String} {f : Message → Message}
    (hid : ∀ m, (f m).id = m.id)
    (hs' : (getMessage id >>= fun m => updateMessage (f m)) s = (.ok (), s')) :
    ∃ r₀ ∈ s.messages, r₀.id = id ∧ ∃ m, r₀.decode? = some m ∧ s' = { s with
      messages := s.messages.map fun r => if r.id = r₀.id then r.rewritten (f m) else r } := by
  obtain ⟨m, s₁, hget, -⟩ := exists_of_bind_apply hs'
  rw [rewrite_eq h hid hget] at hs'
  obtain ⟨-, r, hr, rfl, hdecode⟩ := of_getMessage h hget
  exact ⟨r, hr, rfl, m, hdecode, (congrArg Prod.snd hs').symm⟩

end MessageBroker.Store

import MessageBroker.Proofs.Store.Independence

/-! # Batches of new messages

A batch is stored if the identifiers of its messages are distinct and none of them is stored yet
(`Insertable`). Otherwise there is a first message in it whose identifier is stored, or is that of a
message before it (`exists_clash`): the messages before it are written, and then taken back
(`createMessages_clash`). A batch that is stored does the same as insertions one by one, in any
order (`run_createMessage`, `batches_are_atomic`). -/

namespace MessageBroker.Store

open Fallible

/-- The identifiers of messages are distinct, and not stored. -/
structure Insertable (s : Store) (l : List Message) : Prop where
  distinct : (l.map Message.id).Nodup
  absent : ∀ m ∈ l, ¬s.Stores m.id

section Batches

variable {s : Store} {l : List Message}

theorem insertable_iff :
    s.Insertable l ↔ (l.map Message.id).Nodup ∧ ∀ m ∈ l, ¬s.Stores m.id :=
  ⟨fun h => ⟨h.distinct, h.absent⟩, fun h => ⟨h.1, h.2⟩⟩

theorem insertable_nil (s : Store) : s.Insertable [] := ⟨List.nodup_nil, nofun⟩

theorem insertable_cons {m : Message} :
    s.Insertable (m :: l) ↔ ¬s.Stores m.id ∧ (s.addMessages [m]).Insertable l := by
  have hrest : (∀ m' ∈ l, ¬(s.addMessages [m]).Stores m'.id) ↔
      (∀ m' ∈ l, ¬s.Stores m'.id) ∧ m.id ∉ l.map Message.id := by
    simp only [stores_addMessages, List.mem_singleton, exists_eq_left, not_or, forall_and,
      List.mem_map, not_exists, not_and]
    exact and_congr_right fun _ => forall₂_congr fun _ _ => not_congr eq_comm
  rw [insertable_iff, insertable_iff, List.map_cons, List.nodup_cons, List.forall_mem_cons, hrest]
  tauto

theorem Insertable.perm {l' : List Message} (h : s.Insertable l) (hperm : l'.Perm l) :
    s.Insertable l' :=
  ⟨(hperm.map _).nodup_iff.mpr h.distinct, fun m hm => h.absent m (hperm.subset hm)⟩

theorem Insertable.ne_of_row (h : s.Insertable l) {m : Message} (hm : m ∈ l) :
    ∀ r ∈ s.messages, r.id ≠ m.id := fun r hr hid => h.absent m hm ⟨r, hr, hid⟩

/-! ### Batches that are not stored -/

/-- A batch that cannot be stored has a first message that clashes with the store or with the
messages before it. -/
theorem exists_clash (h : ¬s.Insertable l) : ∃ before m after, l = before ++ m :: after ∧
    s.Insertable before ∧ (s.addMessages before).Stores m.id := by
  -- the messages that are passed over are added to the store
  induction l generalizing s with
  | nil => exact absurd (insertable_nil s) h
  | cons m l ih =>
    by_cases hm : s.Stores m.id
    · exact ⟨[], m, l, rfl, insertable_nil s, by rwa [addMessages_nil]⟩
    · have hrest : ¬(s.addMessages [m]).Insertable l := fun hl => h (insertable_cons.mpr ⟨hm, hl⟩)
      obtain ⟨before, m', after, rfl, hbefore, hclash⟩ := ih hrest
      rw [addMessages_addMessages] at hclash
      exact ⟨m :: before, m', after, rfl, insertable_cons.mpr ⟨hm, hbefore⟩, hclash⟩

theorem forM_insert_clash (h : s.Undisturbed) {before : List Message}
    (hbefore : s.Insertable before) {m : Message} (hclash : (s.addMessages before).Stores m.id)
    (after : List Message) :
    ((before ++ m :: after).forM fun m => insert .message (MessageRow.ofMessage m)) s =
      (.error (.alreadyExists .message m.id), s.addMessages before) := by
  have hfresh := forM_insert_fresh h hbefore.distinct fun _ hm => hbefore.ne_of_row hm
  obtain ⟨r, hr, hid⟩ := hclash
  rw [List.forM_eq_forM] at hfresh ⊢
  rw [List.forM_append, bind_ok hfresh, List.forM_cons,
    bind_error (insert_of_taken (h.addMessages before) hr hid)]

/-- **A batch with a clash is taken back**, and the first clash is reported. -/
theorem createMessages_clash (h : s.Undisturbed) {before : List Message}
    (hbefore : s.Insertable before) {m : Message} (hclash : (s.addMessages before).Stores m.id)
    (after : List Message) : createMessages (before ++ m :: after) s =
      (.error (.alreadyExists .message m.id), s) := by
  rw [createMessages, if_neg (by simp), transaction_apply h, forM_insert_clash h hbefore hclash]

/-! ### Batches that are stored -/

theorem createMessages_insertable (h : s.Undisturbed) (hl : s.Insertable l) :
    createMessages l s = (.ok (), s.addMessages l) :=
  createMessages_fresh h hl.distinct fun _ hm => hl.ne_of_row hm

/-- Insertions one by one store the same as a batch. -/
theorem run_createMessage (h : s.Undisturbed) (hl : s.Insertable l) :
    run (l.map .createMessage) s = (l.map fun m => .ok (.message m), s.addMessages l) := by
  induction l generalizing s with
  | nil =>
    rw [addMessages_nil]
    rfl
  | cons m l ih =>
    obtain ⟨hm, hrest⟩ := insertable_cons.mp hl
    have hperformed : perform (.createMessage m) s = (.ok (.message m), s.addMessages [m]) :=
      bind_ok (createMessage_fresh h (hl.ne_of_row List.mem_cons_self)) _
    rw [List.map_cons, run_cons_of_perform hperformed, ih (h.addMessages [m]) hrest,
      addMessages_addMessages]
    rfl

theorem sameRows_addMessages {l' : List Message} (hperm : l'.Perm l) :
    SameRows (s.addMessages l) (s.addMessages l') :=
  ⟨List.Perm.refl _, (hperm.map _).append_left _, rfl, rfl⟩

/-- **Batches are atomic.** A batch is stored if and only if the identifiers of its messages are
distinct and none of them is stored yet, and then insertions one by one, in any order, store the
same rows. Otherwise nothing is stored, and the error names the first message of the batch whose
identifier is stored or is that of a message before it. -/
theorem batches_are_atomic (h : s.Undisturbed) (l : List Message) :
    ((createMessages l s).1 = .ok () ↔ (l.map Message.id).Nodup ∧ ∀ m ∈ l, ¬s.Stores m.id) ∧
    ((createMessages l s).1 = .ok () → (createMessages l s).2 = s.addMessages l ∧
      ∀ l' : List Message, l'.Perm l →
        run (l'.map .createMessage) s = (l'.map fun m => .ok (.message m), s.addMessages l') ∧
        SameRows (s.addMessages l) (s.addMessages l')) ∧
    ((createMessages l s).1 ≠ .ok () → ∃ before m after, l = before ++ m :: after ∧
      (before.map Message.id).Nodup ∧ (∀ m' ∈ before, ¬s.Stores m'.id) ∧
      (s.Stores m.id ∨ ∃ m' ∈ before, m'.id = m.id) ∧
      createMessages l s = (.error (.alreadyExists .message m.id), s)) := by
  by_cases hl : s.Insertable l
  · have hcreated := createMessages_insertable h hl
    have hok : (createMessages l s).1 = .ok () := congrArg Prod.fst hcreated
    refine ⟨iff_of_true hok (insertable_iff.mp hl), fun _ => ⟨congrArg Prod.snd hcreated, ?_⟩,
      fun hfailed => absurd hok hfailed⟩
    exact fun l' hperm => ⟨run_createMessage h (hl.perm hperm), sameRows_addMessages hperm⟩
  · obtain ⟨before, m, after, rfl, hbefore, hclash⟩ := exists_clash hl
    have hrefused := createMessages_clash h hbefore hclash after
    have hfailed : (createMessages (before ++ m :: after) s).1 ≠ .ok () := by
      rw [hrefused]
      nofun
    refine ⟨iff_of_false hfailed (insertable_iff.not.mp hl), fun hok => absurd hok hfailed,
      fun _ => ⟨before, m, after, rfl, hbefore.distinct, hbefore.absent, ?_, hrefused⟩⟩
    exact stores_addMessages.mp hclash

/-- Of two messages the second is stored already: neither is stored, and the error names the second.
Without it the first is. -/
theorem storedMessage_clashes : (empty.addMessages [sampleMessage]).Undisturbed ∧
    createMessages [siblingMessage "b", sampleMessage] (empty.addMessages [sampleMessage]) =
      (.error (.alreadyExists .message "a"), empty.addMessages [sampleMessage]) ∧
    (createMessages [siblingMessage "b"] (empty.addMessages [sampleMessage])).1 = .ok () := by
  have hs : (empty.addMessages [sampleMessage]).Undisturbed := ⟨rfl, rfl, rfl⟩
  obtain ⟨hiff, -, hrefused⟩ := batches_are_atomic hs [siblingMessage "b", sampleMessage]
  refine ⟨hs, ?_, (batches_are_atomic hs [siblingMessage "b"]).1.mpr (by decide)⟩
  obtain ⟨before, m, after, hsplit, -, -, hclash, herror⟩ :=
    hrefused fun hok => absurd (hiff.mp hok) (by decide)
  -- the first message is new, and the batch has no third
  rcases before with _ | ⟨first, _ | ⟨second, before⟩⟩
  · cases hsplit
    exact absurd hclash (by decide)
  · cases hsplit
    exact herror
  · exact absurd (congrArg List.length hsplit) (by simp)

end Batches

end MessageBroker.Store

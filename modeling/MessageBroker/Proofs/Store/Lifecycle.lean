import MessageBroker.Proofs.Store.Trace

/-! # The lifecycle of a stored message

From its insertion on, the row of a message is the stored form of the message after the transitions
of all steps since (`evolve`), until the first step that removes the message as it is by then
(`RemovedBy`). The run lemma `Regular.evolves` says so of any steps without a further insertion;
`rows_follow_lifecycle` says it of whole runs. -/

namespace MessageBroker.Store

/-! ### Messages through steps -/

/-- A message after the transitions of steps in a row. -/
def evolve (l : List Step) (m : Message) : Message := l.foldl (fun m x => x.transition m) m

/-- One of the steps in a row removes the message as it has become by then. -/
def RemovedBy (l : List Step) (m : Message) : Prop :=
  ∃ before x after, l = before ++ x :: after ∧ x.Removes (evolve before m)

/-- No step inserts a message with an identifier. -/
def NeverInserts (l : List Step) (id : String) : Prop := ∀ x ∈ l, ∀ m ∈ x.inserted, m.id ≠ id

instance (l : List Step) (id : String) : Decidable (NeverInserts l id) :=
  inferInstanceAs (Decidable (∀ x ∈ l, ∀ m ∈ x.inserted, m.id ≠ id))

theorem sameRecord_evolve (l : List Step) (m : Message) : m.SameRecord (evolve l m) := by
  induction l generalizing m with
  | nil => exact m.sameRecord_refl
  | cons x l ih => exact (x.sameRecord_transition m).trans (ih (x.transition m))

theorem removedBy_cons {x : Step} {l : List Step} {m : Message} :
    RemovedBy (x :: l) m ↔ x.Removes m ∨ RemovedBy l (x.transition m) := by
  constructor
  · rintro ⟨before, y, after, hl, hy⟩
    cases before with
    | nil =>
      obtain ⟨rfl, rfl⟩ := List.cons.inj hl
      exact Or.inl hy
    | cons z before =>
      obtain ⟨rfl, rfl⟩ := List.cons.inj hl
      exact Or.inr ⟨before, y, after, rfl, hy⟩
  · rintro (hx | ⟨before, y, after, rfl, hy⟩)
    · exact ⟨[], x, l, rfl, hx⟩
    · exact ⟨x :: before, y, after, rfl, hy⟩

theorem neverInserts_cons {x : Step} {l : List Step} {id : String} :
    NeverInserts (x :: l) id ↔ (∀ m ∈ x.inserted, m.id ≠ id) ∧ NeverInserts l id :=
  List.forall_mem_cons

/-! ### Rows through steps -/

section Rows

variable {s : Store} {ms : List Message}

/-- The row of a kept message is its stored form, and the only one with its identifier. -/
theorem Keeps.filter_id (h : s.Keeps ms) {m : Message} (hm : m ∈ ms) :
    s.messages.filter (·.id = m.id) = [MessageRow.ofMessage m] := by
  have hone : ms.filter (fun x => x.id = m.id) = [m] := by
    obtain ⟨l, r, hms⟩ := List.append_of_mem hm
    have hids := h.ids
    rw [hms, List.map_append, List.map_cons, List.nodup_append, List.nodup_cons] at hids
    obtain ⟨-, ⟨hr, -⟩, hl⟩ := hids
    rw [hms, List.filter_append, List.filter_cons_of_pos (by simp)]
    rw [List.filter_eq_nil_iff.mpr, List.filter_eq_nil_iff.mpr, List.nil_append]
    · intro x hx he
      exact hr (List.mem_map.mpr ⟨x, hx, of_decide_eq_true he⟩)
    · intro x hx he
      exact hl _ (List.mem_map_of_mem hx) _ List.mem_cons_self (of_decide_eq_true he)
  have hrows : s.messages.filter (·.id = m.id) =
      (ms.filter fun x => x.id = m.id).map MessageRow.ofMessage := h.filter_rows fun _ _ => rfl
  rw [hrows, hone]
  rfl

theorem Keeps.ne_of_row (h : s.Keeps ms) {id : String} (hid : ∀ m ∈ ms, m.id ≠ id) :
    ∀ r ∈ s.messages, r.id ≠ id := by
  rw [h.rows]
  intro r hr
  obtain ⟨m, hm, rfl⟩ := List.mem_map.mp hr
  exact hid m hm

/-- Where a message with an identifier comes from, if the step inserts none. -/
theorem exists_of_mem_advance {x : Step} {id : String} (hx : ∀ m ∈ x.inserted, m.id ≠ id)
    {m' : Message} (hm' : m' ∈ x.advance ms) (hid : m'.id = id) :
    ∃ m ∈ ms, m.id = id ∧ ¬x.Removes m ∧ x.transition m = m' := by
  rcases Step.mem_advance.mp hm' with ⟨m, hm, hkeep, he⟩ | hinserted
  · exact ⟨m, hm, by rw [← hid, ← he, (x.sameRecord_transition m).id], hkeep, he⟩
  · exact absurd hid (hx m' hinserted)

theorem Regular.absent (h : s.Regular ms) {l : List Step} (hl : Linked s l)
    (hfour : ∀ x ∈ l, x.HasFourDigitYears) {id : String} (hno : NeverInserts l id)
    (hid : ∀ m ∈ ms, m.id ≠ id) : ∀ r ∈ (afterAll s l).messages, r.id ≠ id := by
  induction l generalizing s ms with
  | nil => exact h.toKeeps.ne_of_row hid
  | cons x l ih =>
    obtain ⟨rfl, hl⟩ := hl
    obtain ⟨hx, hno⟩ := neverInserts_cons.mp hno
    obtain ⟨hxfour, hfour⟩ := List.forall_mem_cons.mp hfour
    refine ih (h.step hxfour) hl hfour hno fun m' hm' he => ?_
    obtain ⟨m, hm, hmid, -⟩ := exists_of_mem_advance hx hm' he
    exact hid m hm hmid

/-- **The row of a message is the message after all transitions**, until it is removed. -/
theorem Regular.evolves (h : s.Regular ms) {l : List Step} (hl : Linked s l)
    (hfour : ∀ x ∈ l, x.HasFourDigitYears) {m : Message} (hm : m ∈ ms)
    (hno : NeverInserts l m.id) :
    (RemovedBy l m → ∀ r ∈ (afterAll s l).messages, r.id ≠ m.id) ∧
      (¬RemovedBy l m →
        (afterAll s l).messages.filter (·.id = m.id) = [MessageRow.ofMessage (evolve l m)]) := by
  induction l generalizing s ms m with
  | nil =>
    refine ⟨fun ⟨before, x, after, hl, _⟩ => ?_, fun _ => h.toKeeps.filter_id hm⟩
    simp at hl
  | cons x l ih =>
    obtain ⟨rfl, hl⟩ := hl
    obtain ⟨hx, hno⟩ := neverInserts_cons.mp hno
    obtain ⟨hxfour, hfour⟩ := List.forall_mem_cons.mp hfour
    have hstep := h.step hxfour
    rw [removedBy_cons]
    by_cases hremoves : x.Removes m
    · refine ⟨fun _ => ?_, fun hn => absurd (Or.inl hremoves) hn⟩
      refine hstep.absent hl hfour hno fun m' hm' he => ?_
      obtain ⟨m₀, hm₀, hid, hkeep, -⟩ := exists_of_mem_advance hx hm' he
      rw [h.toKeeps.eq_of_id hm hm₀ hid] at hkeep
      exact hkeep hremoves
    · have hid := (x.sameRecord_transition m).id
      have hmem : x.transition m ∈ x.advance ms :=
        Step.mem_advance.mpr (Or.inl ⟨m, hm, hremoves, rfl⟩)
      have hrest := ih hstep hl hfour hmem (hid.symm ▸ hno)
      rw [hid] at hrest
      rw [or_iff_right hremoves]
      exact hrest

end Rows

/-! ### Whole runs -/

/-- **The rows of a run follow the lifecycle of messages.** An identifier that was never inserted
has no row. One that was has none exactly if the message was removed since; otherwise its row is the
message after all transitions since, and keeps what its sender determined. What a lease answers is
stored right after it. -/
theorem rows_follow_lifecycle {ops : List Operation} (h : FourDigitRun ops) :
    (∀ id, NeverInserts (trace ops empty) id → ∀ r ∈ (run ops empty).2.messages, r.id ≠ id) ∧
    (∀ before x after m, trace ops empty = before ++ x :: after → m ∈ x.inserted →
      NeverInserts after m.id →
        ((∀ r ∈ (run ops empty).2.messages, r.id ≠ m.id) ↔ RemovedBy after m) ∧
        (¬RemovedBy after m → (run ops empty).2.messages.filter (·.id = m.id) =
          [MessageRow.ofMessage (evolve after m)]) ∧
        ∀ r ∈ (run ops empty).2.messages, r.id = m.id →
          r.queueId = m.queueId ∧ r.label = m.label ∧ r.body = m.body ∧
            r.attributes = storedTexts m.attributes ∧ r.createdAt = m.createdAt.stored) ∧
    (∀ x ∈ trace ops empty, ∀ m ∈ x.leased,
      x.after.messages.filter (·.id = m.id) = [MessageRow.ofMessage m]) := by
  rw [run_eq_trace]
  refine ⟨fun id hno => ?_, fun before x after m htrace hm hno => ?_, fun x hx m hm => ?_⟩
  · refine regular_empty.absent (linked_trace ops empty) h hno fun m hm => ?_
    exact absurd hm List.not_mem_nil
  · obtain ⟨⟨ms, hms⟩, hxfour, hlinked, hfour⟩ := h.step htrace
    have hmem : m ∈ x.advance ms := Step.mem_advance.mpr (Or.inr hm)
    obtain ⟨hremoved, hkept⟩ := (hms.step hxfour).evolves hlinked hfour hmem hno
    have hafter : afterAll empty (trace ops empty) = afterAll x.after after := by
      rw [htrace, afterAll_append]
      rfl
    dsimp only
    rw [hafter]
    refine ⟨⟨fun habsent => ?_, hremoved⟩, hkept, fun r hr hid => ?_⟩
    · by_contra hn
      have hrow := List.mem_singleton_self (MessageRow.ofMessage (evolve after m))
      rw [← hkept hn, List.mem_filter] at hrow
      exact habsent _ hrow.1 (of_decide_eq_true hrow.2)
    · by_cases hn : RemovedBy after m
      · exact absurd hid (hremoved hn r hr)
      · have hrow : r ∈ [MessageRow.ofMessage (evolve after m)] := by
          rw [← hkept hn]
          exact List.mem_filter.mpr ⟨hr, decide_eq_true hid⟩
        have hsame := sameRecord_evolve after m
        rw [List.mem_singleton.mp hrow]
        exact ⟨hsame.queueId, hsame.label, hsame.body, congrArg storedTexts hsame.attributes,
          congrArg Instant.stored hsame.createdAt⟩
  · obtain ⟨before, after, htrace⟩ := List.append_of_mem hx
    obtain ⟨⟨ms, hms⟩, hxfour, -, -⟩ := h.step htrace
    obtain ⟨-, -, -, -, hmem⟩ := hms.toKeeps.mem_advance_of_leased hms.years hxfour hm
    exact (hms.step hxfour).toKeeps.filter_id hmem

/-- A queue whose messages are hidden for 30 seconds by a lease, and kept for 60. -/
def sampleQueue : Queue := ⟨"q", 30, 60, 0, .epoch, .epoch⟩

/-- A message enqueued there. -/
def sampleMessage : Message :=
  (Message.ofContent ⟨none, "body", ∅⟩).enqueue "a" sampleQueue .epoch

/-- A message is leased, acknowledged and cleaned up. -/
def ackedRun : List Operation :=
  [.createMessage sampleMessage, .lease sampleQueue none 1 .epoch, .ack "a" .epoch,
    .cleanup "q" .epoch]

/-- The acknowledged message has no row after the cleanup. -/
theorem ackedRun_rows :
    FourDigitRun ackedRun ∧ ∀ r ∈ (run ackedRun empty).2.messages, r.id ≠ "a" := by
  have hfour : FourDigitRun ackedRun := by decide +kernel
  have hinserted : sampleMessage ∈ (Step.of (.createMessage sampleMessage) empty).inserted := by
    decide +kernel
  have hno : NeverInserts (trace ackedRun.tail (Step.of (.createMessage sampleMessage) empty).after)
      "a" := by decide +kernel
  refine ⟨hfour, ?_⟩
  refine ((rows_follow_lifecycle hfour).2.1 [] _ _ sampleMessage rfl hinserted hno).1.mpr ?_
  refine ⟨trace [.lease sampleQueue none 1 .epoch, .ack "a" .epoch]
    (Step.of (.createMessage sampleMessage) empty).after, _, [], rfl, ?_⟩
  decide +kernel

end MessageBroker.Store

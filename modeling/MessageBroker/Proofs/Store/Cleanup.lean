import MessageBroker.Proofs.Store.Rewriting

/-! # A cleanup is not observed

A store after a cleanup and the same store without it differ in expired messages of one queue
(`Forgets`). No operation from the cleanup on sees these, but for purges and cleanups, which remove
them, and a dump of all messages. So both stores answer the same, step by step (`Forgets.step`) and
over whole runs (`Forgets.run`), but for the number of messages that a purge or a cleanup removes;
and the next cleanup of the queue makes them equal. -/

namespace MessageBroker.Store

open Fallible

/-- The identifiers of the messages that an operation is about. -/
def Operation.names : Operation → List String
  | .getMessage id | .ack id _ | .nack id _ _ => [id]
  | op => op.submitted.map Message.id

/-- The operation removes messages. -/
def Operation.deletesMessages : Operation → Bool
  | .purge _ | .cleanup .. => true
  | _ => false

/-- An operation on queues and messages, none before an instant, that does not dump all messages and
names none of some identifiers. -/
structure Operation.IsBlindTo (op : Operation) (hidden : List String) (t : Instant) : Prop where
  onQueues : op.onQueues = true
  notDump : op ≠ .allMessages
  clock : ∀ now ∈ op.clock, now.HasFourDigitYear ∧ t ≤ now
  names : ∀ id ∈ op.names, id ∉ hidden

/-- The second store is the first one without the messages with some identifiers, all of which are
in one queue and expired at an instant. -/
structure Forgets (hidden : List String) (queueId : String) (t : Instant) (s s' : Store) :
    Prop where
  keyed : s.Keyed
  rest : s' = { s with messages := s.messages.filter (·.id ∉ hidden) }
  expired : ∀ r ∈ s.messages, r.id ∈ hidden → r.queueId = queueId ∧ r.isExpired t = true

theorem MessageRow.isExpired_mono {r : MessageRow} {t t' : Instant} (ht : t.HasFourDigitYear)
    (ht' : t'.HasFourDigitYear) (hle : t ≤ t') (hr : r.isExpired t = true) :
    r.isExpired t' = true := Text.le_trans hr ((Instant.le_stored_iff ht ht').mpr hle)

theorem MessageRow.isVisible_of_isExpired {r : MessageRow} {t : Instant}
    (hr : r.isExpired t = true) : r.isVisible t = false := by
  have hlt : ¬Text.lt t.stored r.expiredAt = true := fun hlt => Text.lt_iff.mp hlt hr
  rw [MessageRow.isVisible, Bool.eq_false_of_not_eq_true hlt, Bool.and_false]

section Steps

variable {hidden : List String} {queueId : String} {t : Instant} {s s' : Store} {x y : Step}

/-! ### Operations that remove messages -/

theorem answer_of_deletes {op : Operation} (h : s.Undisturbed) (hop : op.deletesMessages = true) :
    ∃ n, (perform op s).1 = .ok (.count n) := by
  cases op with
  | purge id =>
    refine ⟨s.messages.countP fun r => r.queueId = id, ?_⟩
    rw [perform, bind_pure_apply, purge, deletion_eq h]
    rfl
  | cleanup id now =>
    refine ⟨s.messages.countP fun r => r.queueId = id && r.isExpired now, ?_⟩
    rw [perform, bind_pure_apply, cleanup, deletion_eq h]
    rfl
  | _ => cases hop

/-! ### One operation on both stores -/

/-- An operation does not look at an expired message that it does not name, unless it removes it. -/
theorem Operation.IsBlindTo.not_sees {op : Operation} (h : op.IsBlindTo hidden t)
    (ht : t.HasFourDigitYear) (hop : op.deletesMessages = false) {r : MessageRow}
    (hid : r.id ∈ hidden) (hr : r.isExpired t = true) : op.sees r = false := by
  have hinvisible : ∀ now ∈ op.clock, r.isVisible now = false := fun now hnow =>
    MessageRow.isVisible_of_isExpired
      (MessageRow.isExpired_mono ht (h.clock now hnow).1 (h.clock now hnow).2 hr)
  have hunnamed : ∀ id ∈ op.names, r.id ≠ id := fun id hmem he => h.names id hmem (he ▸ hid)
  cases op with
  | queueStats id now => simp [Operation.sees, hinvisible now (by simp [Operation.clock])]
  | lease q label limit now => simp [Operation.sees, hinvisible now (by simp [Operation.clock])]
  | purge | cleanup => cases hop
  | getMessage id | ack id | nack id =>
    exact decide_eq_false (hunnamed id (by simp [Operation.names]))
  | allMessages => exact absurd rfl h.notDump
  | _ => rfl

theorem Operation.IsBlindTo.submitted {op : Operation} (h : op.IsBlindTo hidden t) :
    ∀ m ∈ op.submitted, m.id ∉ hidden := by
  intro m hm
  refine h.names m.id ?_
  cases op with
  | createMessage | createMessages => exact List.mem_map_of_mem hm
  | _ => exact absurd hm List.not_mem_nil

theorem Forgets.keyed' (h : Forgets hidden queueId t s s') : s'.Keyed := by
  rw [h.rest]
  exact h.keyed.filter _

theorem Forgets.seesSame (h : Forgets hidden queueId t s s') (ht : t.HasFourDigitYear)
    {op : Operation} (hblind : op.IsBlindTo hidden t) (hop : op.deletesMessages = false) :
    op.SeesSame s s' := by
  rw [h.rest]
  refine ⟨?_, rfl, fun m hm => ?_⟩
  · rw [List.filter_filter]
    refine List.filter_congr fun r hr => ?_
    by_cases hid : r.id ∈ hidden
    · rw [hblind.not_sees ht hop hid (h.expired r hr hid).2, Bool.false_and]
    · rw [decide_eq_true hid, Bool.and_true]
  · constructor
    · rintro ⟨r, hr, hid⟩
      exact ⟨r, List.mem_of_mem_filter hr, hid⟩
    · rintro ⟨r, hr, hid⟩
      refine ⟨r, List.mem_filter.mpr ⟨hr, decide_eq_true ?_⟩, hid⟩
      rw [hid]
      exact hblind.submitted m hm

/-- A step leaves an expired message that it does not name as it is, or removes it. -/
theorem Operation.IsBlindTo.rewrite (h : x.operation.IsBlindTo hidden t) (ht : t.HasFourDigitYear)
    {r r' : MessageRow} (hid : r.id ∈ hidden) (hr : r.isExpired t = true)
    (hr' : x.rewrite r = some r') : r' = r := by
  by_cases hop : x.operation.deletesMessages = true
  · unfold Step.rewrite at hr'
    split at hr'
    · exact (Option.some.inj hr').symm
    · split_ifs at hr'
      · cases hx : x.operation <;> simp_all [Operation.deletesMessages]
      · exact (Option.some.inj hr').symm
  · rw [Step.rewrite_of_not_sees (h.not_sees ht (Bool.eq_false_of_not_eq_true hop) hid hr)] at hr'
    exact (Option.some.inj hr').symm

theorem Operation.IsBlindTo.inserted (h : x.operation.IsBlindTo hidden t) :
    ∀ r ∈ x.inserted.map MessageRow.ofMessage, r.id ∉ hidden := by
  intro r hr
  obtain ⟨m, hm, rfl⟩ := List.mem_map.mp hr
  unfold Step.inserted at hm
  split at hm
  · exact h.submitted m hm
  · exact absurd hm List.not_mem_nil

theorem Forgets.answer_step (h : Forgets hidden queueId t x.before y.before)
    (ht : t.HasFourDigitYear) (hop : y.operation = x.operation)
    (hblind : x.operation.IsBlindTo hidden t) : withoutCount y.answer = withoutCount x.answer := by
  by_cases hdeletes : x.operation.deletesMessages = true
  · obtain ⟨n, hn⟩ := answer_of_deletes h.keyed.toUndisturbed hdeletes
    obtain ⟨n', hn'⟩ := answer_of_deletes h.keyed'.toUndisturbed hdeletes
    rw [x.answer_eq, y.answer_eq, hop, hn, hn']
    rfl
  · have hsame := h.seesSame ht hblind (Bool.eq_false_of_not_eq_true hdeletes)
    rw [h.keyed.answer_step h.keyed' hop hblind.onQueues hsame]

/-- **An operation does the same to both stores**, and answers the same but for a count. -/
theorem Forgets.step (h : Forgets hidden queueId t x.before y.before) (ht : t.HasFourDigitYear)
    (hop : y.operation = x.operation) (hblind : x.operation.IsBlindTo hidden t) :
    withoutCount y.answer = withoutCount x.answer ∧ Forgets hidden queueId t x.after y.after := by
  have hanswer := h.answer_step ht hop hblind
  refine ⟨hanswer, h.keyed.after hblind.onQueues, ?_, ?_⟩
  · have hfilter := filter_rewritten (x := x) (p := fun r => decide (r.id ∉ hidden))
      (fun r r' hid _ => by rw [hid]) x.before
    rw [List.filter_eq_self.mpr fun r hr => decide_eq_true (hblind.inserted r hr)] at hfilter
    rw [h.keyed'.after_eq (hop ▸ hblind.onQueues), h.keyed.after_eq hblind.onQueues,
      rewritten_congr hop hanswer, hfilter, h.rest]
    rfl
  · intro r' hr' hid
    rw [h.keyed.after_eq hblind.onQueues, Step.rewritten] at hr'
    rcases List.mem_append.mp hr' with hr' | hr'
    · obtain ⟨r, hr, hrewrite⟩ := List.mem_filterMap.mp hr'
      have hrid : r.id ∈ hidden := (Step.key_of_rewrite hrewrite).1 ▸ hid
      have hexpired := h.expired r hr hrid
      rw [hblind.rewrite ht hrid hexpired.2 hrewrite]
      exact hexpired
    · exact absurd hid (hblind.inserted r' hr')

/-- **Operations in a row do the same to both stores**, and answer the same but for counts. -/
theorem Forgets.run (h : Forgets hidden queueId t s s') (ht : t.HasFourDigitYear)
    {ops : List Operation} (hblind : ∀ op ∈ ops, op.IsBlindTo hidden t) :
    (run ops s').1.map withoutCount = (run ops s).1.map withoutCount ∧
      Forgets hidden queueId t (run ops s).2 (run ops s').2 := by
  induction ops generalizing s s' with
  | nil => exact ⟨rfl, h⟩
  | cons op ops ih =>
    obtain ⟨hop, hops⟩ := List.forall_mem_cons.mp hblind
    obtain ⟨hanswer, hstep⟩ :=
      Forgets.step (x := Step.of op s) (y := Step.of op s') h ht rfl hop
    obtain ⟨hanswers, hrest⟩ := ih hstep hops
    rw [run_cons, run_cons, List.map_cons, List.map_cons, hanswer, hanswers]
    exact ⟨rfl, hrest⟩

theorem Forgets.cleanup_eq (h : Forgets hidden queueId t s s') (ht : t.HasFourDigitYear)
    {t' : Instant} (ht' : t'.HasFourDigitYear) (hle : t ≤ t') :
    (cleanup queueId t' s').2 = (cleanup queueId t' s).2 := by
  unfold cleanup
  rw [deletion_eq h.keyed.toUndisturbed, deletion_eq h.keyed'.toUndisturbed, h.rest]
  have hrows : (s.messages.filter (·.id ∉ hidden)).filter
      (fun r => !(r.queueId = queueId && r.isExpired t')) =
        s.messages.filter fun r => !(r.queueId = queueId && r.isExpired t') := by
    rw [List.filter_filter]
    refine List.filter_congr fun r hr => ?_
    by_cases hid : r.id ∈ hidden
    · obtain ⟨hqueue, hexpired⟩ := h.expired r hr hid
      simp [hqueue, MessageRow.isExpired_mono ht ht' hle hexpired]
    · rw [decide_eq_true hid, Bool.and_true]
  rw [hrows]

end Steps

/-! ### A cleanup and what follows it -/

/-- The identifiers of the messages that a cleanup removes. -/
def expiredIds (queueId : String) (t : Instant) (s : Store) : List String :=
  (s.messages.filter fun r => r.queueId = queueId && r.isExpired t).map MessageRow.id

theorem Keyed.forgets_cleanup {s : Store} (h : s.Keyed) (queueId : String) (t : Instant) :
    Forgets (expiredIds queueId t s) queueId t s (cleanup queueId t s).2 := by
  have hmem : ∀ r ∈ s.messages, r.id ∈ expiredIds queueId t s ↔
      (r.queueId = queueId && r.isExpired t) = true := by
    intro r hr
    constructor
    · intro hid
      obtain ⟨r', hr', he⟩ := List.mem_map.mp hid
      obtain ⟨hmem, hexpired⟩ := List.mem_filter.mp hr'
      rw [← h.eq_of_id hr hmem he]
      exact hexpired
    · intro hexpired
      exact List.mem_map_of_mem (List.mem_filter.mpr ⟨hr, hexpired⟩)
  refine ⟨h, ?_, fun r hr hid => ?_⟩
  · rw [cleanup, deletion_eq h.toUndisturbed]
    have hrows : s.messages.filter (fun r => !(r.queueId = queueId && r.isExpired t)) =
        s.messages.filter (·.id ∉ expiredIds queueId t s) := by
      refine List.filter_congr fun r hr => ?_
      by_cases hid : r.id ∈ expiredIds queueId t s
      · rw [(hmem r hr).mp hid]
        simp [hid]
      · rw [Bool.eq_false_of_not_eq_true (mt (hmem r hr).mpr hid)]
        simp [hid]
    rw [hrows]
  · simpa using (hmem r hr).mp hid

/-- **A cleanup is not observed.** Operations after a cleanup, none of them before its instant,
answer what they would without it, as long as they are not about a message that it removed, up to
the number of messages that purges and cleanups remove. After a further cleanup of the queue the
stores are equal. -/
theorem cleanup_is_unobservable {s : Store} (h : s.Keyed) {queueId : String} {t₀ : Instant}
    (ht₀ : t₀.HasFourDigitYear) {ops : List Operation}
    (hops : ∀ op ∈ ops, op.onQueues = true ∧ op ≠ .allMessages)
    (hclock : ∀ op ∈ ops, ∀ now ∈ op.clock, now.HasFourDigitYear ∧ t₀ ≤ now)
    (hnames : ∀ op ∈ ops, ∀ id ∈ op.names, s.Stores id → (cleanup queueId t₀ s).2.Stores id) :
    (run ops (cleanup queueId t₀ s).2).1.map withoutCount = (run ops s).1.map withoutCount ∧
    ∀ t, t.HasFourDigitYear → t₀ ≤ t →
      (cleanup queueId t (run ops (cleanup queueId t₀ s).2).2).2 =
        (cleanup queueId t (run ops s).2).2 := by
  have hforgets := h.forgets_cleanup queueId t₀
  have hblind : ∀ op ∈ ops, op.IsBlindTo (expiredIds queueId t₀ s) t₀ := by
    intro op hop
    refine ⟨(hops op hop).1, (hops op hop).2, hclock op hop, fun id hid hmem => ?_⟩
    obtain ⟨r, hr, rfl⟩ := List.mem_map.mp hmem
    obtain ⟨r', hr', hid'⟩ := hnames op hop r.id hid ⟨r, List.mem_of_mem_filter hr, rfl⟩
    rw [hforgets.rest] at hr'
    have hkept := of_decide_eq_true (List.mem_filter.mp hr').2
    rw [hid'] at hkept
    exact hkept hmem
  obtain ⟨hanswers, hafter⟩ := hforgets.run ht₀ hblind
  exact ⟨hanswers, fun t ht hle => hafter.cleanup_eq ht₀ ht hle⟩

/-- A queue is used again when the retention of its only message has passed. -/
def reusedRun : List Operation :=
  [.queueStats "q" (Instant.epoch.addSeconds 60),
    .createMessage ((Message.ofContent ⟨none, "body", ∅⟩).enqueue "b" sampleQueue
      (Instant.epoch.addSeconds 60)),
    .lease sampleQueue none 1 (Instant.epoch.addSeconds 60),
    .ack "b" (Instant.epoch.addSeconds 61), .purge "q"]

/-- Whether or not the message was cleaned up, its successor is leased and acknowledged alike. -/
theorem reusedRun_answers : (empty.addMessages [sampleMessage]).Keyed ∧
    (run reusedRun (cleanup "q" (Instant.epoch.addSeconds 60)
      (empty.addMessages [sampleMessage])).2).1.map withoutCount =
        (run reusedRun (empty.addMessages [sampleMessage])).1.map withoutCount := by
  have hkeyed : (empty.addMessages [sampleMessage]).Keyed := ⟨⟨rfl, rfl, rfl⟩, by decide⟩
  have hyear : (Instant.epoch.addSeconds 60).HasFourDigitYear := by decide +kernel
  have hops : ∀ op ∈ reusedRun, op.onQueues = true ∧ op ≠ .allMessages := by
    intro op hop
    simp only [reusedRun, List.mem_cons, List.not_mem_nil, or_false] at hop
    rcases hop with rfl | rfl | rfl | rfl | rfl <;> exact ⟨rfl, nofun⟩
  have hclock : ∀ op ∈ reusedRun, ∀ now ∈ op.clock,
      now.HasFourDigitYear ∧ Instant.epoch.addSeconds 60 ≤ now := by decide +kernel
  have hnames : ∀ op ∈ reusedRun, ∀ id ∈ op.names,
      (empty.addMessages [sampleMessage]).Stores id →
        (cleanup "q" (Instant.epoch.addSeconds 60)
          (empty.addMessages [sampleMessage])).2.Stores id := by decide +kernel
  exact ⟨hkeyed, (cleanup_is_unobservable hkeyed hyear hops hclock hnames).1⟩

end MessageBroker.Store

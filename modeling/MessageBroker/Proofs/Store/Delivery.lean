import MessageBroker.Proofs.Store.Exclusivity
import MessageBroker.Proofs.Store.Expiry

/-! # Messages are delivered until they expire

Nothing but an acknowledgement, a purge of its queue, or a cleanup of its queue after its retention
takes a message from the store (`Regular.retained`). While it is stored, its expiry stays that of
its enqueueing, and it is due from the instant that the latest of its leases and returns left it
with (`scheduledAt_evolve`). A lease that has room for all messages that match takes every one that
is due (`mem_leasable`). Together: `messages_are_delivered`. -/

namespace MessageBroker.Store

/-! ### What becomes of a message that is not acknowledged -/

/-- A step acknowledges the message with an identifier. -/
def Step.Acks (x : Step) (id : String) : Prop :=
  ∃ now, x.operation = .ack id now ∧ x.answer = .ok .done

/-- The instant from which a step makes a message due, if the step leases or returns it. -/
def Step.due? (x : Step) (id : String) : Option Instant :=
  match x.operation with
  | .lease q _ _ now =>
    if x.leases id then some (now.addSeconds q.ackDeadlineSeconds.toNat) else none
  | .nack id' timeout now => if id' = id then some (now.addSeconds timeout.toNat) else none
  | _ => none

/-- The instant from which a message is due after steps in a row, by the latest of them that leased
or returned it. -/
def dueAfter (l : List Step) (id : String) (first : Instant) : Instant :=
  (l.filterMap (·.due? id)).getLastD first

theorem dueAfter_cons (x : Step) (l : List Step) (id : String) (first : Instant) :
    dueAfter (x :: l) id first = dueAfter l id ((x.due? id).getD first) := by
  unfold dueAfter
  rcases hx : x.due? id with _ | t
  · rw [List.filterMap_cons_none (f := fun y : Step => y.due? id) hx, Option.getD_none]
  · rw [List.filterMap_cons_some (f := fun y : Step => y.due? id) hx, List.getLastD_cons,
      Option.getD_some]

theorem scheduledAt_transition (x : Step) (m : Message) :
    (x.transition m).scheduledAt = (x.due? m.id).getD m.scheduledAt := by
  unfold Step.transition Step.due?
  cases hop : x.operation with
  | lease q label limit now =>
    by_cases hleased : m.id ∈ x.leased.map Message.id
    · simp only [if_pos hleased, if_pos (Step.leases_iff.mpr hleased)]
      rfl
    · simp only [if_neg hleased, if_neg (mt Step.leases_iff.mp hleased)]
      rfl
  | nack id timeout now =>
    by_cases hid : m.id = id
    · simp only [if_pos hid, if_pos hid.symm]
      rfl
    · simp only [if_neg hid, if_neg (Ne.symm hid)]
      rfl
  | ack id now =>
    dsimp only
    split_ifs <;> rfl
  | _ => rfl

/-- **A message is due when the latest of its leases and returns says.** -/
theorem scheduledAt_evolve (l : List Step) (m : Message) :
    (evolve l m).scheduledAt = dueAfter l m.id m.scheduledAt := by
  induction l generalizing m with
  | nil => rfl
  | cons x l ih =>
    have hrest := ih (x.transition m)
    rw [(x.sameRecord_transition m).id, scheduledAt_transition] at hrest
    rw [dueAfter_cons]
    exact hrest

section Steps

variable {s : Store} {ms : List Message} {x : Step} {m : Message}

theorem Regular.expiredAt_transition (h : x.before.Regular ms) (hm : m ∈ ms)
    (hacks : ¬x.Acks m.id) : (x.transition m).expiredAt = m.expiredAt := by
  unfold Step.transition
  split
  · split_ifs <;> rfl
  · next id now hop =>
    split_ifs with hid
    · have hanswer := (h.toKeeps.step_ack h.years hop).2.mpr ⟨m, hm, hid⟩
      exact absurd ⟨now, by rw [hop, hid], hanswer⟩ hacks
    · rfl
  · split_ifs <;> rfl
  · rfl

theorem not_removes (hpurged : x.operation ≠ .purge m.queueId)
    (hcleaned : ∀ now, x.operation = .cleanup m.queueId now → now < m.expiredAt) :
    ¬x.Removes m := by
  unfold Step.Removes
  intro hremoves
  split at hremoves
  · next id hop => exact hpurged (by rw [hop, hremoves])
  · next id now hop =>
    obtain ⟨hqueue, hexpired⟩ := hremoves
    exact absurd (hcleaned now (by rw [hop, hqueue])) (Int.not_lt.mpr hexpired)
  · exact hremoves

/-- **A message stays in the store** through steps that neither acknowledge it nor purge its queue,
nor clean its queue up after its expiry. -/
theorem Regular.retained (h : s.Regular ms) {l : List Step} (hl : Linked s l)
    (hfour : ∀ x ∈ l, x.HasFourDigitYears) (hm : m ∈ ms) (hacked : ∀ x ∈ l, ¬x.Acks m.id)
    (hpurged : ∀ x ∈ l, x.operation ≠ .purge m.queueId)
    (hcleaned : ∀ x ∈ l, ∀ now, x.operation = .cleanup m.queueId now → now < m.expiredAt) :
    ∃ ms', (afterAll s l).Regular ms' ∧ evolve l m ∈ ms' ∧
      (evolve l m).expiredAt = m.expiredAt := by
  induction l generalizing s ms m with
  | nil => exact ⟨ms, h, hm, rfl⟩
  | cons x l ih =>
    obtain ⟨rfl, hl⟩ := hl
    obtain ⟨hxfour, hfour⟩ := List.forall_mem_cons.mp hfour
    obtain ⟨hxacked, hacked⟩ := List.forall_mem_cons.mp hacked
    obtain ⟨hxpurged, hpurged⟩ := List.forall_mem_cons.mp hpurged
    obtain ⟨hxcleaned, hcleaned⟩ := List.forall_mem_cons.mp hcleaned
    have hsame := x.sameRecord_transition m
    have hexpired := h.expiredAt_transition hm hxacked
    have hmem : x.transition m ∈ x.advance ms :=
      Step.mem_advance.mpr (Or.inl ⟨m, hm, not_removes hxpurged hxcleaned, rfl⟩)
    rw [← hsame.id] at hacked
    rw [← hsame.queueId] at hpurged hcleaned
    rw [← hexpired] at hcleaned
    obtain ⟨ms', hms', hmem', hexpired'⟩ := ih (h.step hxfour) hl hfour hmem hacked hpurged hcleaned
    exact ⟨ms', hms', hmem', hexpired'.trans hexpired⟩

/-! ### What a lease takes -/

/-- A lease with room for all visible messages that match takes each of them. -/
theorem mem_leasable {queueId : String} {label : Option String} {limit : UInt32} {now : Instant}
    (hm : m ∈ ms) (hqueue : m.queueId = queueId) (hvisible : m.IsVisible now)
    (hlabel : (MessageRow.ofMessage m).hasLabel label = true)
    (hlimit : ((ms.filter fun m => m.queueId = queueId ∧ m.IsVisible now).filter fun m =>
      (MessageRow.ofMessage m).hasLabel label).length ≤ limit.toNat) :
    m ∈ leasable queueId label limit now ms := by
  have hall : m ∈ (ms.filter fun m => m.queueId = queueId ∧ m.IsVisible now).filter fun m =>
      (MessageRow.ofMessage m).hasLabel label := by
    refine List.mem_filter.mpr ⟨List.mem_filter.mpr ⟨hm, ?_⟩, hlabel⟩
    exact decide_eq_true ⟨hqueue, hvisible⟩
  unfold leasable
  rw [List.take_of_length_le]
  · exact List.mem_mergeSort.mpr hall
  · rw [List.length_mergeSort]
    exact hlimit

theorem Regular.leased_of_visible (h : x.before.Regular ms) (hx : x.HasFourDigitYears) {q : Queue}
    {label : Option String} {limit : UInt32} {now : Instant}
    (hop : x.operation = .lease q label limit now) (hm : m ∈ ms) (hqueue : m.queueId = q.id)
    (hvisible : m.IsVisible now) (hlabel : label = none ∨ label = m.label)
    (hlimit : ((visibleRows q.id now x.before.messages).filter (·.hasLabel label)).length ≤
      limit.toNat) : m.leaseRenew q now ∈ x.leased := by
  have hnow : now.HasFourDigitYear := hx.clock (by simp [hop, Operation.clock])
  have hmatch : (MessageRow.ofMessage m).hasLabel label = true := by
    rcases hlabel with rfl | rfl
    · rfl
    · cases hm : m.label with
      | none => rfl
      | some label => simp [MessageRow.hasLabel, MessageRow.ofMessage, hm]
  rw [h.visibleRows_eq h.years q.id hnow, List.filter_map, List.length_map] at hlimit
  rw [h.leased_eq h.years hnow hop]
  exact List.mem_map_of_mem (mem_leasable hm hqueue hvisible hmatch hlimit)

end Steps

/-! ### Whole runs -/

/-- **Messages are delivered until they expire.** A message that was inserted as enqueued, and was
not acknowledged since, nor its queue purged, is stored unless a cleanup of its queue came after its
retention: with the content of its sender, and due since the latest of its enqueueing, leases and
returns. Every lease on its queue that comes after it is due and within its retention answers it, if
the lease asks for no other label and has room for all that match. -/
theorem messages_are_delivered {ops : List Operation} (h : FourDigitRun ops)
    (hascends : ClockAscends ops) {before after : List Step} {x : Step}
    (htrace : trace ops empty = before ++ x :: after) {base : Message} {id : String} {q : Queue}
    {t : Instant} (hinserted : base.enqueue id q t ∈ x.inserted) {l r : List Step}
    (hsplit : after = l ++ r) (hacked : ∀ y ∈ l, ¬y.Acks id)
    (hpurged : ∀ y ∈ l, y.operation ≠ .purge q.id) :
    ((∀ y ∈ l, ∀ now, y.operation = .cleanup q.id now →
        now < t.addSeconds q.messageRetentionSeconds.toNat) →
      ∃ m : Message, (afterAll empty (before ++ x :: l)).messages.filter (·.id = id) =
          [MessageRow.ofMessage m] ∧
        m.queueId = q.id ∧ m.label = base.label ∧ m.body = base.body ∧
        m.attributes = base.attributes ∧ m.createdAt = t ∧
        m.expiredAt = t.addSeconds q.messageRetentionSeconds.toNat ∧
        m.scheduledAt = dueAfter l id (t.addSeconds q.deliveryDelaySeconds.toNat)) ∧
    ∀ y r' q' label limit now, r = y :: r' → y.operation = .lease q' label limit now →
      q'.id = q.id → dueAfter l id (t.addSeconds q.deliveryDelaySeconds.toNat) ≤ now →
      now < t.addSeconds q.messageRetentionSeconds.toNat →
      label = none ∨ label = base.label →
      ((visibleRows q'.id now y.before.messages).filter (·.hasLabel label)).length ≤
        limit.toNat →
      ∃ m ∈ y.leased, m.id = id ∧ m.queueId = q.id ∧ m.label = base.label ∧ m.body = base.body ∧
        m.attributes = base.attributes := by
  subst hsplit
  obtain ⟨⟨ms, hms⟩, hxfour, hlinked, hfour⟩ := h.step htrace
  obtain ⟨hl, hr⟩ := linked_append.mp hlinked
  obtain ⟨hlfour, hrfour⟩ := List.forall_mem_append.mp hfour
  have hmem : base.enqueue id q t ∈ x.advance ms := Step.mem_advance.mpr (Or.inr hinserted)
  have hsame := sameRecord_evolve l (base.enqueue id q t)
  have hdue := scheduledAt_evolve l (base.enqueue id q t)
  constructor
  · intro hcleaned
    obtain ⟨ms', hms', hmem', hexpired⟩ :=
      (hms.step hxfour).retained hl hlfour hmem hacked hpurged hcleaned
    have hrow := hms'.toKeeps.filter_id hmem'
    rw [hsame.id] at hrow
    refine ⟨evolve l (base.enqueue id q t), ?_, hsame.queueId, hsame.label, hsame.body,
      hsame.attributes, hsame.createdAt, hexpired, hdue⟩
    rw [afterAll_append]
    exact hrow
  · rintro y r' q' label limit now rfl hop hqueue hafter hbefore hlabel hlimit
    have hclock : now ∈ y.operation.clock := by simp [hop, Operation.clock]
    -- no cleanup before the lease can be later than it
    have hcleaned : ∀ z ∈ l, ∀ now', z.operation = .cleanup q.id now' →
        now' < t.addSeconds q.messageRetentionSeconds.toNat := by
      intro z hz now' hz'
      rw [← List.cons_append, ← List.append_assoc] at htrace
      have hle := hascends.le htrace (List.mem_append_right _ (List.mem_cons_of_mem _ hz))
        (t := now') (by simp [hz', Operation.clock]) hclock
      exact Int.lt_of_le_of_lt hle hbefore
    obtain ⟨ms', hms', hmem', hexpired⟩ :=
      (hms.step hxfour).retained hl hlfour hmem hacked hpurged hcleaned
    rw [← hr.1] at hms'
    have hvisible : (evolve l (base.enqueue id q t)).IsVisible now := by
      rw [Message.IsVisible, hdue, hexpired]
      exact ⟨hafter, hbefore⟩
    have hmatch : label = none ∨ label = (evolve l (base.enqueue id q t)).label := by
      rw [hsame.label]
      exact hlabel
    refine ⟨_, hms'.leased_of_visible (hrfour y List.mem_cons_self) hop hmem'
      (hsame.queueId.trans hqueue.symm) hvisible hmatch hlimit, ?_⟩
    exact ⟨hsame.id, hsame.queueId, hsame.label, hsame.body, hsame.attributes⟩

/-- A message is leased by a consumer that does not come back. Its queue is cleaned up within the
ack deadline, and asked again at its end. -/
def abandonedRun : List Operation :=
  [.createMessage sampleMessage, .lease sampleQueue none 1 .epoch,
    .cleanup "q" (Instant.epoch.addSeconds 29),
    .lease sampleQueue none 1 (Instant.epoch.addSeconds 30)]

/-- The message is leased again when the deadline has passed. -/
theorem abandonedRun_leased : FourDigitRun abandonedRun ∧ ClockAscends abandonedRun ∧
    ∃ m ∈ (trace abandonedRun empty)[3].leased, m.id = "a" ∧ m.body = "body" := by
  have hfour : FourDigitRun abandonedRun := by decide +kernel
  have hascends : ClockAscends abandonedRun := by decide +kernel
  have hinserted : sampleMessage ∈ (trace abandonedRun empty)[0].inserted := by decide +kernel
  have hacked : ∀ y ∈ [(trace abandonedRun empty)[1], (trace abandonedRun empty)[2]],
      ¬y.Acks "a" := by
    rintro y hy ⟨now, hop, -⟩
    simp only [List.mem_cons, List.not_mem_nil, or_false] at hy
    rcases hy with rfl | rfl <;> cases hop
  have hpurged : ∀ y ∈ [(trace abandonedRun empty)[1], (trace abandonedRun empty)[2]],
      y.operation ≠ .purge "q" := by
    intro y hy hop
    simp only [List.mem_cons, List.not_mem_nil, or_false] at hy
    rcases hy with rfl | rfl <;> cases hop
  have htrace : trace abandonedRun empty = [] ++ (trace abandonedRun empty)[0] ::
      ([(trace abandonedRun empty)[1], (trace abandonedRun empty)[2]] ++
        [(trace abandonedRun empty)[3]]) := rfl
  have hdue : dueAfter [(trace abandonedRun empty)[1], (trace abandonedRun empty)[2]] "a"
      (Instant.epoch.addSeconds 0) ≤ Instant.epoch.addSeconds 30 := by decide +kernel
  have hroom : ((visibleRows "q" (Instant.epoch.addSeconds 30)
      (trace abandonedRun empty)[3].before.messages).filter (·.hasLabel none)).length ≤ 1 := by
    decide +kernel
  obtain ⟨m, hm, hid, -, -, hbody, -⟩ := (messages_are_delivered hfour hascends htrace hinserted
    rfl hacked hpurged).2 _ [] sampleQueue none 1 _ rfl rfl rfl hdue (by decide) (Or.inl rfl) hroom
  exact ⟨hfour, hascends, m, hm, hid, hbody⟩

/-- A message is neither acknowledged nor purged, but cleaned up when its retention has passed. -/
def outdatedRun : List Operation :=
  [.createMessage sampleMessage, .cleanup "q" (Instant.epoch.addSeconds 60)]

/-- A cleanup after its retention takes a message from the store that was neither acknowledged nor
purged. -/
theorem outdatedRun_loses : FourDigitRun outdatedRun ∧ ClockAscends outdatedRun ∧
    sampleMessage ∈ (trace outdatedRun empty)[0].inserted ∧
    (∀ y ∈ (trace outdatedRun empty).tail, ¬y.Acks "a" ∧ y.operation ≠ .purge "q") ∧
    ∀ r ∈ (run outdatedRun empty).2.messages, r.id ≠ "a" := by
  refine ⟨by decide +kernel, by decide +kernel, by decide +kernel, ?_, by decide +kernel⟩
  intro y hy
  obtain rfl := List.mem_singleton.mp hy
  constructor
  · rintro ⟨now, hop, -⟩
    cases hop
  · intro hop
    cases hop

end MessageBroker.Store

import MessageBroker.Proofs.Store.Lifecycle

/-! # Expired messages stay expired

Only an acknowledgement changes the instant from which a message is expired, and it changes it to
the present. So a message that is expired at an instant stays so through all steps up to the instant
(`expired_steps`); and if the clock of a run never goes back, it is expired at every later
step. Such a message is not leased, not counted, and deleted by the next cleanup of its queue
(`expiry_is_final`). -/

namespace MessageBroker.Store

open Fallible

/-! ### The expiry of a message through steps -/

section Steps

variable {s : Store} {ms : List Message} {x : Step} {id : String} {t : Instant}

theorem expired_transition (hclock : ∀ now ∈ x.operation.clock, now ≤ t) {m : Message}
    (hm : m.IsExpired t) : (x.transition m).IsExpired t := by
  unfold Step.transition
  split
  · split_ifs <;> exact hm
  · next id now hop =>
    split_ifs
    · exact hclock now (by simp [hop, Operation.clock])
    · exact hm
  · split_ifs <;> exact hm
  · exact hm

theorem expired_step (hclock : ∀ now ∈ x.operation.clock, now ≤ t)
    (hexpired : ∀ m ∈ ms, m.id = id → m.IsExpired t) (hinserted : ∀ m ∈ x.inserted, m.id ≠ id) :
    ∀ m ∈ x.advance ms, m.id = id → m.IsExpired t := by
  intro m' hm' hid
  obtain ⟨m, hm, hmid, -, rfl⟩ := exists_of_mem_advance hinserted hm' hid
  exact expired_transition hclock (hexpired m hm hmid)

/-- **Steps up to an instant leave a message expired at it.** -/
theorem expired_steps {l : List Step} (hclock : ∀ x ∈ l, ∀ now ∈ x.operation.clock, now ≤ t)
    (hexpired : ∀ m ∈ ms, m.id = id → m.IsExpired t) (hno : NeverInserts l id) :
    ∀ m ∈ advanceAll l ms, m.id = id → m.IsExpired t := by
  induction l generalizing ms with
  | nil => exact hexpired
  | cons x l ih =>
    obtain ⟨hx, hno⟩ := neverInserts_cons.mp hno
    obtain ⟨hxclock, hclock⟩ := List.forall_mem_cons.mp hclock
    exact ih hclock (expired_step hxclock hexpired hx) hno

/-! ### What becomes of an expired message -/

theorem Regular.not_leased (h : x.before.Regular ms) (hx : x.HasFourDigitYears)
    (hexpired : ∀ now ∈ x.operation.clock, ∀ m ∈ ms, m.id = id → m.IsExpired now) :
    ∀ m ∈ x.leased, m.id ≠ id := by
  intro m hm hid
  obtain ⟨m₀, hm₀, hid₀, -⟩ := h.toKeeps.mem_advance_of_leased h.years hx hm
  obtain ⟨q, label, limit, now, hop, -, hvisible, -⟩ :=
    h.toKeeps.lease_of_mem h.years hx hm₀ (hid₀ ▸ List.mem_map_of_mem hm)
  have hle := hexpired now (by simp [hop, Operation.clock]) m₀ hm₀ (hid₀.trans hid)
  exact absurd hvisible.2 (Int.not_lt.mpr hle)

theorem Regular.deleted_by_cleanup (h : x.before.Regular ms) (hx : x.HasFourDigitYears)
    {queueId : String} {now : Instant} (hop : x.operation = .cleanup queueId now) {m : Message}
    (hm : m ∈ ms) (hqueue : m.queueId = queueId) (hexpired : m.IsExpired now) :
    ∀ r ∈ x.after.messages, r.id ≠ m.id := by
  refine (h.step hx).toKeeps.ne_of_row fun m' hm' hid => ?_
  have hnone : ∀ m' ∈ x.inserted, m'.id ≠ m.id := Step.ne_of_inserted (by rw [hop]; rfl) m.id
  obtain ⟨m₀, hm₀, hid₀, hkeep, -⟩ := exists_of_mem_advance hnone hm' hid
  rw [h.eq_of_id hm hm₀ hid₀, Step.Removes, hop] at hkeep
  exact hkeep ⟨hqueue, hexpired⟩

end Steps

/-! ### The backlog without a message -/

/-- The store without the message with an identifier. -/
def withoutMessage (s : Store) (id : String) : Store :=
  { s with messages := s.messages.filter (·.id ≠ id) }

theorem Undisturbed.withoutMessage {s : Store} (h : s.Undisturbed) (id : String) :
    (s.withoutMessage id).Undisturbed := ⟨h.rules, h.missing, h.closed⟩

theorem queueStats_congr {s s' : Store} (h : s.Undisturbed) (h' : s'.Undisturbed) {queueId : String}
    {now : Instant} (hvisible : visibleRows queueId now s'.messages =
      visibleRows queueId now s.messages) :
    (queueStats queueId now s').1 = (queueStats queueId now s).1 := by
  have hrows (s : Store) : (TableRow.rows s : List MessageRow) = s.messages := rfl
  simp only [queueStats, bind_apply, select_undisturbed _ _ h, select_undisturbed _ _ h', hrows,
    hvisible, Except.mapError]
  split
  · rfl
  · simp only [bind_apply, select_undisturbed _ _ h, select_undisturbed _ _ h', hrows, hvisible]
    generalize Except.mapError _ _ = oldest
    rcases oldest with e | age <;> rfl

theorem Regular.stats_withoutMessage {s : Store} {ms : List Message} (h : s.Regular ms)
    {id queueId : String} {now : Instant} (hnow : now.HasFourDigitYear)
    (hexpired : ∀ m ∈ ms, m.id = id → m.IsExpired now) :
    ((perform (.queueStats queueId now)).on (s.withoutMessage id)).1 =
      ((perform (.queueStats queueId now)).on s).1 := by
  have hvisible : visibleRows queueId now (s.withoutMessage id).messages =
      visibleRows queueId now s.messages := by
    rw [visibleRows, withoutMessage, List.filter_filter, visibleRows, h.rows]
    refine List.filter_congr fun r hr => ?_
    obtain ⟨m, hm, rfl⟩ := List.mem_map.mp hr
    rw [MessageRow.isVisible_ofMessage (h.years m hm) hnow]
    by_cases hid : m.id = id
    · have hnot : ¬m.IsVisible now := fun hv => absurd hv.2 (Int.not_lt.mpr (hexpired m hm hid))
      rw [decide_eq_false hnot, Bool.and_false, Bool.false_and]
    · rw [decide_eq_true (show (MessageRow.ofMessage m).id ≠ id from hid), Bool.and_true]
  have hstats := queueStats_congr h.undisturbed (h.undisturbed.withoutMessage id) hvisible
  simp only [perform, Access.on, bind_pure_apply, hstats]

/-! ### Whole runs -/

/-- The clock of a run never goes back. -/
def ClockAscends (ops : List Operation) : Prop := (ops.flatMap Operation.clock).Pairwise (· ≤ ·)

instance (ops : List Operation) : Decidable (ClockAscends ops) :=
  inferInstanceAs (Decidable (List.Pairwise _ _))

theorem operations_trace (ops : List Operation) (s : Store) :
    (trace ops s).map Step.operation = ops := by
  induction ops generalizing s with
  | nil => rfl
  | cons op ops ih => exact congrArg (op :: ·) (ih _)

theorem ClockAscends.le {ops : List Operation} (h : ClockAscends ops) {s : Store}
    {l r : List Step} {x : Step} (htrace : trace ops s = l ++ x :: r) {y : Step} (hy : y ∈ l)
    {t t' : Instant} (ht : t ∈ y.operation.clock) (ht' : t' ∈ x.operation.clock) : t ≤ t' := by
  have hops := operations_trace ops s
  rw [htrace, List.map_append, List.map_cons] at hops
  rw [ClockAscends, ← hops, List.flatMap_append, List.flatMap_cons, List.pairwise_append] at h
  refine h.2.2 t ?_ t' (List.mem_append_left _ ht')
  exact List.mem_flatMap.mpr ⟨y.operation, List.mem_map_of_mem hy, ht⟩

/-- The message with an identifier is expired at an instant after the first steps of a run: as it is
stored, or because it was acknowledged, or because it was enqueued on a queue whose retention has
passed since. -/
def ExpiredAfter (l : List Step) (id : String) (t : Instant) : Prop :=
  (∃ r ∈ (afterAll empty l).messages, r.id = id ∧ ∃ m, r.decode? = some m ∧ m.IsExpired t) ∨
  (∃ l₁ x l₂ now, l = l₁ ++ x :: l₂ ∧ x.operation = .ack id now ∧ NeverInserts l₂ id) ∨
  ∃ l₁ x l₂ base q now, l = l₁ ++ x :: l₂ ∧ Message.enqueue base id q now ∈ x.inserted ∧
    NeverInserts l₂ id ∧ now.addSeconds q.messageRetentionSeconds.toNat ≤ t

/-- What a step leaves expired at an instant is so after further steps up to the instant. -/
theorem FourDigitRun.expired_after {ops : List Operation} (h : FourDigitRun ops)
    {l₁ l₂ r : List Step} {x : Step} (htrace : trace ops empty = l₁ ++ x :: l₂ ++ r) {id : String}
    {t : Instant} (hclock : ∀ y ∈ l₂, ∀ now ∈ y.operation.clock, now ≤ t)
    (hno : NeverInserts l₂ id) (hstep : ∀ ms, x.after.Regular (x.advance ms) →
      ∀ m ∈ x.advance ms, m.id = id → m.IsExpired t) :
    ∃ ms, (afterAll empty (l₁ ++ x :: l₂)).Regular ms ∧ ∀ m ∈ ms, m.id = id → m.IsExpired t := by
  rw [List.append_assoc, List.cons_append] at htrace
  obtain ⟨⟨ms, hms⟩, hxfour, hlinked, hfour⟩ := h.step htrace
  have hafter := hms.step hxfour
  rw [afterAll_append]
  refine ⟨_, hafter.steps (linked_append.mp hlinked).1 fun y hy => ?_,
    expired_steps hclock (hstep ms hafter) hno⟩
  exact hfour y (List.mem_append_left _ hy)

theorem FourDigitRun.expired {ops : List Operation} (h : FourDigitRun ops) {l r : List Step}
    (htrace : trace ops empty = l ++ r) {id : String} {t : Instant}
    (hclock : ∀ x ∈ l, ∀ now ∈ x.operation.clock, now ≤ t) (hexpired : ExpiredAfter l id t) :
    ∃ ms, (afterAll empty l).Regular ms ∧ ∀ m ∈ ms, m.id = id → m.IsExpired t := by
  rcases hexpired with ⟨row, hrow, hid, m, hdecode, hm⟩ | ⟨l₁, x, l₂, now, rfl, hop, hno⟩ |
    ⟨l₁, x, l₂, base, q, now, rfl, hinserted, hno, hretention⟩
  · obtain ⟨⟨ms, hms⟩, -⟩ := h.rest htrace
    refine ⟨ms, hms, fun m' hm' hid' => ?_⟩
    rw [hms.rows] at hrow
    obtain ⟨m₁, hm₁, rfl⟩ := List.mem_map.mp hrow
    rw [MessageRow.decode?_ofMessage (hms.years m₁ hm₁)] at hdecode
    cases hdecode
    rw [hms.eq_of_id hm₁ hm' (hid'.trans hid.symm)]
    exact hm
  · obtain ⟨-, hclock⟩ := List.forall_mem_append.mp hclock
    obtain ⟨hxclock, hclock⟩ := List.forall_mem_cons.mp hclock
    refine h.expired_after htrace hclock hno fun ms _ m' hm' hid => ?_
    have hnone : ∀ m ∈ x.inserted, m.id ≠ id := Step.ne_of_inserted (by rw [hop]; rfl) id
    obtain ⟨m, -, hmid, -, rfl⟩ := exists_of_mem_advance hnone hm' hid
    have htransition : x.transition m = m.ack now := by
      rw [Step.transition, hop]
      exact if_pos hmid
    rw [htransition]
    exact hxclock now (by simp [hop, Operation.clock])
  · obtain ⟨-, hclock⟩ := List.forall_mem_append.mp hclock
    refine h.expired_after htrace (List.forall_mem_cons.mp hclock).2 hno fun ms hms m hm hid => ?_
    have hmem : base.enqueue id q now ∈ x.advance ms := Step.mem_advance.mpr (Or.inr hinserted)
    rw [hms.eq_of_id hmem hm hid]
    exact hretention

/-- **Expiry is final.** A message that is expired at an instant stays expired while its identifier
is not inserted again: as it is stored after any further steps, it is expired at every instant that
they reach, and the step that follows them does not lease it, does not count it, and deletes it if
it is a cleanup of its queue. -/
theorem expiry_is_final {ops : List Operation} (h : FourDigitRun ops) (hascends : ClockAscends ops)
    {before after : List Step} (htrace : trace ops empty = before ++ after) {t : Instant}
    (hbefore : ∀ x ∈ before, ∀ now ∈ x.operation.clock, now ≤ t)
    (hafter : ∀ x ∈ after, ∀ now ∈ x.operation.clock, t ≤ now) {id : String}
    (hexpired : ExpiredAfter before id t) {l r : List Step} (hsplit : after = l ++ r)
    (hno : NeverInserts l id) :
    (∀ t', t ≤ t' → (∀ x ∈ l, ∀ now ∈ x.operation.clock, now ≤ t') →
      ∀ row ∈ (afterAll empty (before ++ l)).messages, row.id = id →
        ∃ m, row.decode? = some m ∧ m.IsExpired t') ∧
    ∀ x r', r = x :: r' →
      (∀ m ∈ x.leased, m.id ≠ id) ∧
      (∀ queueId now, x.operation = .queueStats queueId now →
        x.answer = ((perform (.queueStats queueId now)).on (x.before.withoutMessage id)).1) ∧
      (∀ queueId now, x.operation = .cleanup queueId now →
        ∀ row ∈ x.before.messages, row.id = id → row.queueId = queueId →
          ∀ row' ∈ x.after.messages, row'.id ≠ id) := by
  subst hsplit
  obtain ⟨ms, hms, hmsexpired⟩ := h.expired htrace hbefore hexpired
  obtain ⟨-, hlinked, hfour⟩ := h.rest htrace
  obtain ⟨hl, hr⟩ := linked_append.mp hlinked
  obtain ⟨hlfour, hrfour⟩ := List.forall_mem_append.mp hfour
  have hregular := hms.steps hl hlfour
  -- the message is expired at every instant that the further steps reach
  have hlater : ∀ t', t ≤ t' → (∀ x ∈ l, ∀ now ∈ x.operation.clock, now ≤ t') →
      ∀ m ∈ advanceAll l ms, m.id = id → m.IsExpired t' := fun t' ht hclock =>
    expired_steps hclock (fun m hm hid => Int.le_trans (hmsexpired m hm hid) ht) hno
  refine ⟨fun t' ht hclock row hrow hid => ?_, ?_⟩
  · rw [afterAll_append, hregular.rows] at hrow
    obtain ⟨m, hm, rfl⟩ := List.mem_map.mp hrow
    exact ⟨m, MessageRow.decode?_ofMessage (hregular.years m hm), hlater t' ht hclock m hm hid⟩
  · rintro x r' rfl
    have hxfour := hrfour x List.mem_cons_self
    have hxexpired : ∀ now ∈ x.operation.clock,
        ∀ m ∈ advanceAll l ms, m.id = id → m.IsExpired now := by
      intro now hnow
      refine hlater now (hafter x (by simp) now hnow) fun y hy now' hnow' => ?_
      rw [← List.append_assoc] at htrace
      exact hascends.le htrace (List.mem_append_right _ hy) hnow' hnow
    rw [← hr.1] at hregular
    refine ⟨hregular.not_leased hxfour hxexpired, fun queueId now hop => ?_,
      fun queueId now hop row hrow hid hqueue => ?_⟩
    · have hmem : now ∈ x.operation.clock := by simp [hop, Operation.clock]
      rw [hregular.stats_withoutMessage (hxfour.clock hmem) (hxexpired now hmem), ← hop]
      rw [x.performed]
    · rw [hregular.rows] at hrow
      obtain ⟨m, hm, rfl⟩ := List.mem_map.mp hrow
      have hmexpired := hxexpired now (by simp [hop, Operation.clock]) m hm hid
      have hdeleted := hregular.deleted_by_cleanup hxfour hop hm hqueue hmexpired
      exact fun row' hrow' he => hdeleted row' hrow' (he.trans hid.symm)

/-- A message is acknowledged after one second, returned after two, and asked for after three. -/
def lateReturnRun : List Operation :=
  [.createMessage sampleMessage, .ack "a" (Instant.epoch.addSeconds 1),
    .nack "a" 0 (Instant.epoch.addSeconds 2),
    .lease sampleQueue none 1 (Instant.epoch.addSeconds 3)]

/-- A message that is returned after its acknowledgement is not leased any more. -/
theorem lateReturnRun_leased : FourDigitRun lateReturnRun ∧ ClockAscends lateReturnRun ∧
    ∀ m ∈ (trace lateReturnRun empty)[3].leased, m.id ≠ "a" := by
  have hfour : FourDigitRun lateReturnRun := by decide +kernel
  have hascends : ClockAscends lateReturnRun := by decide +kernel
  have hno : NeverInserts [(trace lateReturnRun empty)[2]] "a" := by decide +kernel
  have hexpired : ExpiredAfter [(trace lateReturnRun empty)[0], (trace lateReturnRun empty)[1]] "a"
      (Instant.epoch.addSeconds 1) :=
    Or.inr (Or.inl ⟨[(trace lateReturnRun empty)[0]], _, [], _, rfl, rfl,
      fun x hx => absurd hx List.not_mem_nil⟩)
  have hbefore : ∀ x ∈ [(trace lateReturnRun empty)[0], (trace lateReturnRun empty)[1]],
      ∀ now ∈ x.operation.clock, now ≤ Instant.epoch.addSeconds 1 := by decide +kernel
  have hafter : ∀ x ∈ [(trace lateReturnRun empty)[2], (trace lateReturnRun empty)[3]],
      ∀ now ∈ x.operation.clock, Instant.epoch.addSeconds 1 ≤ now := by decide +kernel
  refine ⟨hfour, hascends, ?_⟩
  exact ((expiry_is_final hfour hascends rfl hbefore hafter hexpired
    (l := [(trace lateReturnRun empty)[2]]) rfl hno).2 _ [] rfl).1

end MessageBroker.Store

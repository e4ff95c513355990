import MessageBroker.Proofs.Store.Lifecycle

/-! # Leases are exclusive

A lease moves the instant from which a message is visible to the end of its ack deadline. No step
but the return of the message moves it back: the next lease can take the message only from then on,
and moves it further (`Regular.hidden_step`). So until the deadline nobody else gets the message
(`leases_are_exclusive`). Every lease also counts an attempt, and nothing else does
(`Regular.counted_step`), so the number of attempts says how often a message was leased. -/

namespace MessageBroker.Store

/-- A step returns the message with an identifier to its queue. -/
def Step.Nacks (x : Step) (id : String) : Prop :=
  ∃ timeout now, x.operation = .nack id timeout now ∧ x.answer = .ok .done

/-- Whether a step leases the message with an identifier. -/
def Step.leases (x : Step) (id : String) : Bool := x.leased.any (·.id = id)

/-- Each stored message of a run has fewer attempts than a word can count. -/
def AttemptsBelowMax (ops : List Operation) : Prop :=
  ∀ x ∈ trace ops empty, ∀ r ∈ x.before.messages, r.deliveryAttempts ≠ .ofWord 4294967295

instance (ops : List Operation) : Decidable (AttemptsBelowMax ops) :=
  inferInstanceAs (Decidable (∀ x ∈ trace ops empty, ∀ r ∈ x.before.messages,
    r.deliveryAttempts ≠ .ofWord 4294967295))

theorem Step.leases_iff {x : Step} {id : String} :
    x.leases id = true ↔ id ∈ x.leased.map Message.id := by
  simp [leases]

/-! ### The visibility of a leased message -/

section Steps

variable {s : Store} {ms : List Message} {x : Step} {id : String}

/-- What is hidden until an instant stays so in a step that does not return it. -/
theorem Regular.hidden_step (h : x.before.Regular ms) (hx : x.HasFourDigitYears) {t : Instant}
    (hhidden : ∀ m ∈ ms, m.id = id → t ≤ m.scheduledAt) (hinserted : ∀ m ∈ x.inserted, m.id ≠ id)
    (hnack : ¬x.Nacks id) : ∀ m ∈ x.advance ms, m.id = id → t ≤ m.scheduledAt := by
  intro m' hm' hid
  obtain ⟨m, hm, hmid, -, rfl⟩ := exists_of_mem_advance hinserted hm' hid
  have ht := hhidden m hm hmid
  unfold Step.transition
  split
  · split_ifs with hleased
    · obtain ⟨q, label, limit, now, hop, -, hvisible, -⟩ :=
        h.toKeeps.lease_of_mem h.years hx hm hleased
      next q' label' limit' now' hop' =>
      obtain ⟨-, -, -, rfl⟩ := Operation.lease.inj (hop'.symm.trans hop)
      exact Int.le_trans (Int.le_trans ht hvisible.1) (Instant.le_addSeconds _ _)
    · exact ht
  · split_ifs <;> exact ht
  · next id' timeout now hop =>
    split_ifs with he
    · refine absurd ⟨timeout, now, ?_, ?_⟩ hnack
      · rw [hop, ← he, hmid]
      · exact (h.toKeeps.step_nack h.years hop).2.mpr ⟨m, hm, he⟩
    · exact ht
  · exact ht

theorem Regular.hidden_steps (h : s.Regular ms) {l : List Step} (hl : Linked s l)
    (hfour : ∀ x ∈ l, x.HasFourDigitYears) {t : Instant}
    (hhidden : ∀ m ∈ ms, m.id = id → t ≤ m.scheduledAt) (hno : NeverInserts l id)
    (hnack : ∀ x ∈ l, ¬x.Nacks id) :
    ∃ ms', (afterAll s l).Regular ms' ∧ ∀ m ∈ ms', m.id = id → t ≤ m.scheduledAt := by
  induction l generalizing s ms with
  | nil => exact ⟨ms, h, hhidden⟩
  | cons x l ih =>
    obtain ⟨rfl, hl⟩ := hl
    obtain ⟨hx, hno⟩ := neverInserts_cons.mp hno
    obtain ⟨hxfour, hfour⟩ := List.forall_mem_cons.mp hfour
    obtain ⟨hxnack, hnack⟩ := List.forall_mem_cons.mp hnack
    exact ih (h.step hxfour) hl hfour (h.hidden_step hxfour hhidden hx hxnack) hno hnack

theorem Regular.not_leased_before (h : s.Regular ms) {l r : List Step}
    (hl : Linked s (l ++ x :: r)) (hfour : ∀ y ∈ l ++ x :: r, y.HasFourDigitYears) {t : Instant}
    (hhidden : ∀ m ∈ ms, m.id = id → t ≤ m.scheduledAt) (hno : NeverInserts l id)
    (hnack : ∀ y ∈ l, ¬y.Nacks id) {q : Queue} {label : Option String} {limit : UInt32}
    {t' : Instant} (hop : x.operation = .lease q label limit t') {m : Message} (hm : m ∈ x.leased)
    (hid : m.id = id) : t ≤ t' := by
  obtain ⟨hl, hbefore, -⟩ := linked_append.mp hl
  obtain ⟨hfour, hxfour⟩ := List.forall_mem_append.mp hfour
  obtain ⟨ms', hms', hlater⟩ := h.hidden_steps hl hfour hhidden hno hnack
  rw [← hbefore] at hms'
  have hxfour := hxfour x List.mem_cons_self
  obtain ⟨m₁, hm₁, hid₁, -⟩ := hms'.toKeeps.mem_advance_of_leased hms'.years hxfour hm
  obtain ⟨q₁, label₁, limit₁, t₁, hop₁, -, hvisible, -⟩ :=
    hms'.toKeeps.lease_of_mem hms'.years hxfour hm₁ (hid₁ ▸ List.mem_map_of_mem hm)
  obtain ⟨-, -, -, rfl⟩ := Operation.lease.inj (hop₁.symm.trans hop)
  exact Int.le_trans (hlater m₁ hm₁ (hid₁.trans hid)) hvisible.1

/-- A step leaves what it leases hidden until the end of the ack deadline. -/
theorem Regular.hidden_of_leased (h : x.before.Regular ms) (hx : x.HasFourDigitYears) {q : Queue}
    {label : Option String} {limit : UInt32} {t : Instant}
    (hop : x.operation = .lease q label limit t) {m : Message} (hm : m ∈ x.leased) :
    m ∈ x.advance ms ∧ ∀ m' ∈ x.advance ms, m'.id = m.id →
      t.addSeconds q.ackDeadlineSeconds.toNat ≤ m'.scheduledAt := by
  obtain ⟨m₀, hm₀, hid, htransition, hmem⟩ := h.toKeeps.mem_advance_of_leased h.years hx hm
  refine ⟨hmem, fun m' hm' hid' => ?_⟩
  obtain ⟨q', label', limit', t', hop', -, -, hrenew⟩ :=
    h.toKeeps.lease_of_mem h.years hx hm₀ (hid ▸ List.mem_map_of_mem hm)
  obtain ⟨rfl, -, -, rfl⟩ := Operation.lease.inj (hop'.symm.trans hop)
  rw [(h.step hx).eq_of_id hmem hm' hid', ← htransition, hrenew]
  exact Int.le_refl _

/-! ### The attempts of a message -/

/-- The attempts of a message that a step leases can be counted once more, if those of every message
can. -/
theorem Regular.countable_of_leases (h : x.before.Regular ms) (hx : x.HasFourDigitYears)
    (hbelow : ∀ r ∈ x.before.messages, r.deliveryAttempts ≠ .ofWord 4294967295) {n : Nat}
    (hcount : ∀ m ∈ ms, m.id = id → m.deliveryAttempts.toNat = n) (hleases : x.leases id = true) :
    n + 1 < UInt32.size := by
  obtain ⟨m', hm', hid⟩ := List.mem_map.mp (Step.leases_iff.mp hleases)
  obtain ⟨m, hm, hmid, -⟩ := h.toKeeps.mem_advance_of_leased h.years hx hm'
  have hrow : MessageRow.ofMessage m ∈ x.before.messages := by
    rw [h.rows]
    exact List.mem_map_of_mem hm
  have hne : m.deliveryAttempts.toNat ≠ 4294967295 := fun he =>
    hbelow _ hrow (congrArg Cell.ofWord (UInt32.toNat_inj.mp he))
  have hlt : m.deliveryAttempts.toNat < UInt32.size := m.deliveryAttempts.toNat_lt_size
  rw [hcount m hm (hmid.trans hid)] at hne hlt
  simp only [UInt32.size] at hlt ⊢
  omega

theorem Regular.counted_step (h : x.before.Regular ms) (hx : x.HasFourDigitYears) {n : Nat}
    (hn : x.leases id = true → n + 1 < UInt32.size)
    (hcount : ∀ m ∈ ms, m.id = id → m.deliveryAttempts.toNat = n)
    (hinserted : ∀ m ∈ x.inserted, m.id ≠ id) : ∀ m ∈ x.advance ms, m.id = id →
      m.deliveryAttempts.toNat = n + if x.leases id then 1 else 0 := by
  intro m' hm' hid
  obtain ⟨m, hm, hmid, -, rfl⟩ := exists_of_mem_advance hinserted hm' hid
  have hattempts := hcount m hm hmid
  by_cases hleased : m.id ∈ x.leased.map Message.id
  · obtain ⟨q, label, limit, now, -, -, -, htransition⟩ :=
      h.toKeeps.lease_of_mem h.years hx hm hleased
    have hleases : x.leases id = true := Step.leases_iff.mpr (hmid ▸ hleased)
    rw [htransition, if_pos hleases, Message.leaseRenew, UInt32.toNat_add, hattempts]
    exact Nat.mod_eq_of_lt (hn hleases)
  · have hnot : ¬x.leases id = true := fun hl => hleased (hmid.symm ▸ Step.leases_iff.mp hl)
    rw [if_neg hnot, Nat.add_zero, ← hattempts]
    unfold Step.transition
    split
    · rw [if_neg hleased]
    · split_ifs <;> rfl
    · split_ifs <;> rfl
    · rfl

theorem Regular.counted_steps (h : s.Regular ms) {l : List Step} (hl : Linked s l)
    (hfour : ∀ x ∈ l, x.HasFourDigitYears)
    (hbelow : ∀ x ∈ l, ∀ r ∈ x.before.messages, r.deliveryAttempts ≠ .ofWord 4294967295) {n : Nat}
    (hcount : ∀ m ∈ ms, m.id = id → m.deliveryAttempts.toNat = n) (hno : NeverInserts l id) :
    ∃ ms', (afterAll s l).Regular ms' ∧
      ∀ m ∈ ms', m.id = id → m.deliveryAttempts.toNat = n + l.countP (·.leases id) := by
  induction l generalizing s ms n with
  | nil => exact ⟨ms, h, hcount⟩
  | cons x l ih =>
    obtain ⟨rfl, hl⟩ := hl
    obtain ⟨hx, hno⟩ := neverInserts_cons.mp hno
    obtain ⟨hxfour, hfour⟩ := List.forall_mem_cons.mp hfour
    obtain ⟨hxbelow, hbelow⟩ := List.forall_mem_cons.mp hbelow
    have hstep := h.counted_step hxfour (h.countable_of_leases hxfour hxbelow hcount) hcount hx
    obtain ⟨ms', hms', hcount'⟩ := ih (h.step hxfour) hl hfour hbelow hstep hno
    refine ⟨ms', hms', fun m hm hid => ?_⟩
    rw [hcount' m hm hid, List.countP_cons]
    omega

theorem Step.submitted_of_leased {m : Message} (hm : m ∈ x.leased) :
    x.operation.submitted = [] := by
  unfold leased at hm
  cases hop : x.operation <;> simp_all [Operation.submitted]

/-- A lease answers a message with one attempt more than there were leases of it before. -/
theorem Regular.attempts_of_leased (h : s.Regular ms) {l r : List Step}
    (hl : Linked s (l ++ x :: r)) (hfour : ∀ y ∈ l ++ x :: r, y.HasFourDigitYears)
    (hbelow : ∀ y ∈ l ++ x :: r, ∀ r ∈ y.before.messages,
      r.deliveryAttempts ≠ .ofWord 4294967295) {n : Nat}
    (hcount : ∀ m ∈ ms, m.id = id → m.deliveryAttempts.toNat = n) (hno : NeverInserts l id)
    {m : Message} (hm : m ∈ x.leased) (hid : m.id = id) :
    m.deliveryAttempts.toNat = n + l.countP (·.leases id) + 1 := by
  obtain ⟨hl, hbefore, -⟩ := linked_append.mp hl
  obtain ⟨hfour, hxfour⟩ := List.forall_mem_append.mp hfour
  obtain ⟨hbelow, hxbelow⟩ := List.forall_mem_append.mp hbelow
  obtain ⟨ms', hms', hcount'⟩ := h.counted_steps hl hfour hbelow hcount hno
  rw [← hbefore] at hms'
  have hxfour := hxfour x List.mem_cons_self
  obtain ⟨-, -, -, -, hmem⟩ := hms'.toKeeps.mem_advance_of_leased hms'.years hxfour hm
  have hnone : ∀ m ∈ x.inserted, m.id ≠ id := Step.ne_of_inserted (Step.submitted_of_leased hm) id
  have hleases : x.leases id = true := Step.leases_iff.mpr (hid ▸ List.mem_map_of_mem hm)
  have hroom := hms'.countable_of_leases hxfour (hxbelow x List.mem_cons_self) hcount'
  rw [hms'.counted_step hxfour hroom hcount' hnone m hmem hid, if_pos hleases]

/-! ### Identifiers used again -/

theorem exists_first_insert {l : List Step} (h : ¬NeverInserts l id) : ∃ before x after,
    l = before ++ x :: after ∧ NeverInserts before id ∧ ∃ m ∈ x.inserted, m.id = id := by
  induction l with
  | nil => exact absurd (fun x hx => absurd hx List.not_mem_nil) h
  | cons x l ih =>
    by_cases hx : ∀ m ∈ x.inserted, m.id ≠ id
    · have hl : ¬NeverInserts l id := fun hno => h (neverInserts_cons.mpr ⟨hx, hno⟩)
      obtain ⟨before, y, after, rfl, hbefore, hy⟩ := ih hl
      exact ⟨x :: before, y, after, rfl, neverInserts_cons.mpr ⟨hx, hbefore⟩, hy⟩
    · push Not at hx
      exact ⟨[], x, l, rfl, fun y hy => absurd hy List.not_mem_nil, hx⟩

theorem Step.not_removes_of_inserted {m' : Message} (hm' : m' ∈ x.inserted) (m : Message) :
    ¬x.Removes m := by
  unfold inserted at hm'
  cases hop : x.operation <;> simp_all [Removes, Operation.submitted]
  all_goals split at hm' <;> simp at hm'

theorem Regular.removed_of_inserted (h : s.Regular ms) {l r : List Step}
    (hl : Linked s (l ++ x :: r)) (hfour : ∀ y ∈ l ++ x :: r, y.HasFourDigitYears) {m : Message}
    (hm : m ∈ ms) (hno : NeverInserts l m.id) {m' : Message} (hm' : m' ∈ x.inserted)
    (hid : m'.id = m.id) : RemovedBy l m := by
  by_contra hn
  obtain ⟨hl, ⟨hbefore, -⟩⟩ := linked_append.mp hl
  obtain ⟨hlfour, hxfour⟩ := List.forall_mem_append.mp hfour
  have hxfour := hxfour x List.mem_cons_self
  have hregular := h.steps hl hlfour
  have hrow := List.mem_singleton_self (MessageRow.ofMessage (evolve l m))
  rw [← (h.evolves hl hlfour hm hno).2 hn, List.mem_filter, hregular.rows] at hrow
  obtain ⟨⟨m₁, hm₁, he⟩, -⟩ := And.imp_left List.mem_map.mp hrow
  have hid₁ : m₁.id = m.id := (congrArg MessageRow.id he).trans (sameRecord_evolve l m).id
  rw [← hbefore] at hregular
  have hnodup := (hregular.step hxfour).ids
  rw [Step.advance, List.map_append, List.nodup_append] at hnodup
  refine hnodup.2.2 m₁.id ?_ m'.id (List.mem_map_of_mem hm') (hid₁.trans hid.symm)
  refine List.mem_map.mpr ⟨x.transition m₁, List.mem_map_of_mem ?_, (x.sameRecord_transition m₁).id⟩
  exact List.mem_filter.mpr ⟨hm₁, decide_eq_true (Step.not_removes_of_inserted hm' m₁)⟩

end Steps

/-! ### Whole runs -/

/-- **Leases are exclusive.** A leased message is not leased again before its ack deadline, unless a
step between the leases returns it, or it is removed and its identifier inserted again. No lease
answers an identifier twice. A lease answers a message with the number of leases that answered it
since its insertion, itself included. -/
theorem leases_are_exclusive {ops : List Operation} (h : FourDigitRun ops)
    (hattempts : AttemptsBelowMax ops) :
    (∀ before x between y after q label limit t q' label' limit' t' m m',
      trace ops empty = before ++ x :: (between ++ y :: after) →
      x.operation = .lease q label limit t → m ∈ x.leased →
      y.operation = .lease q' label' limit' t' → m' ∈ y.leased → m'.id = m.id →
      t' < t.addSeconds q.ackDeadlineSeconds.toNat →
      (∃ z ∈ between, z.Nacks m.id) ∨
        ∃ l z r, between = l ++ z :: r ∧ RemovedBy l m ∧ ∃ m'' ∈ z.inserted, m''.id = m.id) ∧
    (∀ x ∈ trace ops empty, (x.leased.map Message.id).Nodup) ∧
    (∀ before x between y after base id q t m,
      trace ops empty = before ++ x :: (between ++ y :: after) →
      Message.enqueue base id q t ∈ x.inserted → NeverInserts between id →
      m ∈ y.leased → m.id = id →
      m.deliveryAttempts.toNat = between.countP (·.leases id) + 1) := by
  refine ⟨?_, fun x hx => ?_, ?_⟩
  · intro before x between y after q label limit t q' label' limit' t' m m' htrace hxop hm hyop hm'
      hid hearly
    obtain ⟨⟨ms, hms⟩, hxfour, hlinked, hfour⟩ := h.step htrace
    obtain ⟨hmem, hhidden⟩ := hms.hidden_of_leased hxfour hxop hm
    by_cases hno : NeverInserts between m.id
    · left
      by_contra hnack
      push Not at hnack
      have hle := (hms.step hxfour).not_leased_before hlinked hfour hhidden hno hnack hyop hm' hid
      exact absurd hearly (Int.not_lt.mpr hle)
    · right
      obtain ⟨l, z, r, rfl, hl, m'', hm'', hid''⟩ := exists_first_insert hno
      rw [List.append_assoc, List.cons_append] at hlinked hfour
      refine ⟨l, z, r, rfl, ?_, m'', hm'', hid''⟩
      exact (hms.step hxfour).removed_of_inserted hlinked hfour hmem hl hm'' hid''
  · obtain ⟨before, after, htrace⟩ := List.append_of_mem hx
    obtain ⟨⟨ms, hms⟩, hxfour, -, -⟩ := h.step htrace
    exact hms.toKeeps.nodup_leased hms.years hxfour
  · intro before x between y after base id q t m htrace hinserted hno hm hid
    obtain ⟨⟨ms, hms⟩, hxfour, hlinked, hfour⟩ := h.step htrace
    have hbelow : ∀ z ∈ between ++ y :: after, ∀ r ∈ z.before.messages,
        r.deliveryAttempts ≠ .ofWord 4294967295 := by
      intro z hz
      refine hattempts z ?_
      rw [htrace]
      exact List.mem_append_right _ (List.mem_cons_of_mem _ hz)
    have hmem : base.enqueue id q t ∈ x.advance ms := Step.mem_advance.mpr (Or.inr hinserted)
    -- a message is inserted without attempts
    have hzero : ∀ m ∈ x.advance ms, m.id = id → m.deliveryAttempts.toNat = 0 := by
      intro m' hm' hid'
      rw [(hms.step hxfour).eq_of_id hmem hm' hid']
      rfl
    have hcount := (hms.step hxfour).attempts_of_leased hlinked hfour hbelow hzero hno hm hid
    rw [hcount, Nat.zero_add]

/-- A message is leased, returned, and leased again. -/
def returnedRun : List Operation :=
  [.createMessage sampleMessage, .lease sampleQueue none 1 .epoch, .nack "a" 0 .epoch,
    .lease sampleQueue none 1 .epoch]

/-- The second lease answers the message with two attempts, although the deadline of the first one
has not passed. -/
theorem returnedRun_attempts : FourDigitRun returnedRun ∧ AttemptsBelowMax returnedRun ∧
    ∀ m ∈ (trace returnedRun empty)[3].leased, m.id = "a" → m.deliveryAttempts.toNat = 2 := by
  have hfour : FourDigitRun returnedRun := by decide +kernel
  have hattempts : AttemptsBelowMax returnedRun := by decide +kernel
  have hinserted : sampleMessage ∈ (trace returnedRun empty)[0].inserted := by decide +kernel
  have hno : NeverInserts [(trace returnedRun empty)[1], (trace returnedRun empty)[2]] "a" := by
    decide +kernel
  have hcount : [(trace returnedRun empty)[1], (trace returnedRun empty)[2]].countP
      (·.leases "a") = 1 := by decide +kernel
  refine ⟨hfour, hattempts, fun m hm hid => ?_⟩
  rw [(leases_are_exclusive hfour hattempts).2.2 [] _ _ _ [] _ "a" sampleQueue .epoch m rfl
    hinserted hno hm hid, hcount]

end MessageBroker.Store

import MessageBroker.Proofs.Store.Exclusivity
import MessageBroker.Proofs.Store.Expiry

/-! # Redeliveries are bounded

A message that is never returned is leased at instants that lie apart by the ack deadlines, from the
end of its delivery delay on, and only within its retention (`FourDigitRun.leased_within`). So `n`
leases with deadlines of at least `d` seconds have taken `n * d` seconds of the time between, but
for what is left of the last one (`Granted`). Hence a bound on the number of attempts, which is far
from what a word cannot count (`redeliveries_are_bounded`). -/

namespace MessageBroker.Store

/-- Every lease of the message with an identifier hides it for at least a number of seconds. -/
def Step.HidesFor (x : Step) (id : String) (d : Nat) : Prop :=
  x.leases id = true → ∀ q label limit now, x.operation = .lease q label limit now →
    d ≤ q.ackDeadlineSeconds.toNat

/-- A message as `n` leases leave it that each hide it for at least `d` seconds, none before `first`
and all before `last`. -/
structure Granted (first last : Instant) (d n : Nat) (m : Message) : Prop where
  attempts : m.deliveryAttempts.toNat = n
  due : first.addSeconds (n * d) ≤ m.scheduledAt
  within : n = 0 ∨ first.addSeconds ((n - 1) * d) < last

section Steps

variable {s : Store} {ms : List Message} {x : Step} {id : String} {first last : Instant}
  {d n : Nat}

/-- What is hidden until an instant is leased no earlier, and renewed by the lease. -/
theorem Regular.lease_of_hidden (h : x.before.Regular ms) (hx : x.HasFourDigitYears) {t : Instant}
    (hhidden : ∀ m ∈ ms, m.id = id → t ≤ m.scheduledAt) (hleases : x.leases id = true) :
    ∃ q label limit now, x.operation = .lease q label limit now ∧ t ≤ now ∧
      ∀ m ∈ ms, m.id = id → x.transition m = m.leaseRenew q now := by
  have hid := Step.leases_iff.mp hleases
  obtain ⟨m₁, hm₁, rfl⟩ := List.mem_map.mp hid
  obtain ⟨m₀, hm₀, hid₀, -⟩ := h.toKeeps.mem_advance_of_leased h.years hx hm₁
  obtain ⟨q, label, limit, now, hop, -, hvisible, hrenew⟩ :=
    h.toKeeps.lease_of_mem h.years hx hm₀ (hid₀ ▸ hid)
  refine ⟨q, label, limit, now, hop, Int.le_trans (hhidden m₀ hm₀ hid₀) hvisible.1, ?_⟩
  intro m hm hmid
  rw [h.eq_of_id hm₀ hm (hmid.trans hid₀.symm), hrenew]

/-- Leases that fit between two instants a word of seconds apart can be counted once more. -/
theorem countable_of_lt (hd : 1 ≤ d) (hspan : last ≤ first.addSeconds 4294967295)
    (hlt : first.addSeconds (n * d) < last) : n + 1 < UInt32.size := by
  have hle : n ≤ n * d := Nat.le_mul_of_pos_right n hd
  simp only [Instant.le_def, Instant.lt_def, Instant.addSeconds] at hspan hlt
  simp only [UInt32.size]
  omega

/-- As many leases as start before the end of a time, each `d` seconds after the one before. -/
theorem attempts_le_ceilDiv {t : Instant} {delay retention : Nat} (hd : 1 ≤ d)
    (hwithin : n = 0 ∨ (t.addSeconds delay).addSeconds ((n - 1) * d) < t.addSeconds retention) :
    n ≤ (retention - delay) ⌈/⌉ d := by
  rcases hwithin with rfl | hlt
  · exact Nat.zero_le _
  · by_contra hn
    have hceil : (retention - delay) ⌈/⌉ d ≤ n - 1 := by omega
    have hle : retention - delay ≤ d * (n - 1) := (ceilDiv_le_iff_le_mul hd).mp hceil
    rw [Nat.mul_comm] at hle
    simp only [Instant.lt_def, Instant.addSeconds] at hlt
    omega

/-- One further lease takes at least `d` seconds from the end of those before it. -/
theorem Regular.granted_step (h : x.before.Regular ms) (hx : x.HasFourDigitYears) (hd : 1 ≤ d)
    (hspan : last ≤ first.addSeconds 4294967295)
    (hgranted : ∀ m ∈ ms, m.id = id → Granted first last d n m)
    (hinserted : ∀ m ∈ x.inserted, m.id ≠ id) (hnack : ¬x.Nacks id) (hdeadline : x.HidesFor id d)
    (hlast : x.leases id = true → ∀ q label limit now, x.operation = .lease q label limit now →
      now < last) : ∀ m ∈ x.advance ms, m.id = id →
        Granted first last d (n + if x.leases id then 1 else 0) m := by
  intro m' hm' hid
  have hdue : ∀ m ∈ ms, m.id = id → first.addSeconds (n * d) ≤ m.scheduledAt :=
    fun m hm hid => (hgranted m hm hid).due
  have hattempts : ∀ m ∈ ms, m.id = id → m.deliveryAttempts.toNat = n :=
    fun m hm hid => (hgranted m hm hid).attempts
  by_cases hleases : x.leases id = true
  · obtain ⟨q, label, limit, now, hop, hle, hrenew⟩ := h.lease_of_hidden hx hdue hleases
    have hlt : first.addSeconds (n * d) < last :=
      Int.lt_of_le_of_lt hle (hlast hleases q label limit now hop)
    have hcounted := h.counted_step hx (fun _ => countable_of_lt hd hspan hlt) hattempts hinserted
    have hone := hcounted m' hm' hid
    rw [if_pos hleases] at hone ⊢
    refine ⟨hone, ?_, Or.inr hlt⟩
    obtain ⟨m, hm, hmid, -, rfl⟩ := exists_of_mem_advance hinserted hm' hid
    rw [hrenew m hm hmid, Message.leaseRenew]
    have hlong := hdeadline hleases q label limit now hop
    have hsucc : (n + 1) * d = n * d + d := Nat.succ_mul n d
    simp only [Instant.le_def, Instant.addSeconds] at hle ⊢
    omega
  · have hcounted := h.counted_step hx (fun hl => absurd hl hleases) hattempts hinserted
    have hsame := hcounted m' hm' hid
    have hlater := h.hidden_step hx hdue hinserted hnack m' hm' hid
    -- the message was stored before the step, with the same number of leases
    obtain ⟨m, hm, hmid, -⟩ := exists_of_mem_advance hinserted hm' hid
    rw [if_neg hleases, Nat.add_zero] at hsame ⊢
    exact ⟨hsame, hlater, (hgranted m hm hmid).within⟩

/-- **Leases of a message that is not returned lie apart by their deadlines.** -/
theorem Regular.granted_steps (h : s.Regular ms) {l : List Step} (hl : Linked s l)
    (hfour : ∀ y ∈ l, y.HasFourDigitYears) (hd : 1 ≤ d)
    (hspan : last ≤ first.addSeconds 4294967295)
    (hgranted : ∀ m ∈ ms, m.id = id → Granted first last d n m) (hno : NeverInserts l id)
    (hnack : ∀ y ∈ l, ¬y.Nacks id) (hdeadline : ∀ y ∈ l, y.HidesFor id d)
    (hlast : ∀ y ∈ l, y.leases id = true → ∀ q label limit now,
      y.operation = .lease q label limit now → now < last) :
    ∃ ms', (afterAll s l).Regular ms' ∧
      ∀ m ∈ ms', m.id = id → Granted first last d (n + l.countP (·.leases id)) m := by
  induction l generalizing s ms n with
  | nil => exact ⟨ms, h, hgranted⟩
  | cons x l ih =>
    obtain ⟨rfl, hl⟩ := hl
    obtain ⟨hx, hno⟩ := neverInserts_cons.mp hno
    obtain ⟨hxfour, hfour⟩ := List.forall_mem_cons.mp hfour
    obtain ⟨hxnack, hnack⟩ := List.forall_mem_cons.mp hnack
    obtain ⟨hxdeadline, hdeadline⟩ := List.forall_mem_cons.mp hdeadline
    obtain ⟨hxlast, hlast⟩ := List.forall_mem_cons.mp hlast
    have hstep := h.granted_step hxfour hd hspan hgranted hx hxnack hxdeadline hxlast
    obtain ⟨ms', hms', hgranted'⟩ := ih (h.step hxfour) hl hfour hstep hno hnack hdeadline hlast
    refine ⟨ms', hms', fun m hm hid => ?_⟩
    have hcount : n + (if x.leases id then 1 else 0) + l.countP (·.leases id) =
        n + (x :: l).countP (·.leases id) := by
      rw [List.countP_cons]
      omega
    exact hcount ▸ hgranted' m hm hid

end Steps

/-! ### Whole runs -/

/-- A message is leased only within the retention that it was enqueued with. -/
theorem FourDigitRun.leased_within {ops : List Operation} (h : FourDigitRun ops)
    (hascends : ClockAscends ops) {before l r : List Step} {x y : Step}
    (htrace : trace ops empty = before ++ x :: l ++ y :: r) {base : Message} {id : String}
    {q : Queue} {t : Instant} (hinserted : base.enqueue id q t ∈ x.inserted)
    (hno : NeverInserts l id) (hleases : y.leases id = true) {q' : Queue} {label : Option String}
    {limit : UInt32} {now : Instant} (hop : y.operation = .lease q' label limit now) :
    now < t.addSeconds q.messageRetentionSeconds.toNat := by
  by_contra hn
  have hlate : t.addSeconds q.messageRetentionSeconds.toNat ≤ now := Int.not_lt.mp hn
  have hclock : now ∈ y.operation.clock := by simp [hop, Operation.clock]
  have hexpiredAfter : ExpiredAfter (before ++ x :: l) id now :=
    Or.inr (Or.inr ⟨before, x, l, base, q, t, rfl, hinserted, hno, hlate⟩)
  obtain ⟨ms, hms, hexpired⟩ := h.expired htrace
    (fun z hz now' hnow' => hascends.le htrace hz hnow' hclock) hexpiredAfter
  obtain ⟨-, hlinked, hfour⟩ := h.rest htrace
  rw [← hlinked.1] at hms
  obtain ⟨m, hm, hid⟩ := List.mem_map.mp (Step.leases_iff.mp hleases)
  refine hms.not_leased (hfour y List.mem_cons_self) (fun now' hnow' => ?_) m hm hid
  have hsame : now' = now := by simpa [hop, Operation.clock] using hnow'
  rw [hsame]
  exact hexpired

/-- From the end of the delivery delay to that of the retention is less than a word of seconds. -/
theorem retention_le (t : Instant) (q : Queue) : t.addSeconds q.messageRetentionSeconds.toNat ≤
    (t.addSeconds q.deliveryDelaySeconds.toNat).addSeconds 4294967295 := by
  have hbound : q.messageRetentionSeconds.toNat < UInt32.size := UInt32.toNat_lt_size _
  simp only [Instant.le_def, Instant.addSeconds, UInt32.size] at hbound ⊢
  omega

/-- The leases of a message since it was enqueued fit between its delivery delay and its
retention. -/
theorem FourDigitRun.granted {ops : List Operation} (h : FourDigitRun ops)
    (hascends : ClockAscends ops) {before l r : List Step} {x : Step}
    (htrace : trace ops empty = before ++ x :: l ++ r) {base : Message} {id : String} {q : Queue}
    {t : Instant} (hinserted : base.enqueue id q t ∈ x.inserted) (hno : NeverInserts l id)
    (hnack : ∀ y ∈ l, ¬y.Nacks id) {d : Nat} (hd : 1 ≤ d) (hdeadline : ∀ y ∈ l, y.HidesFor id d) :
    ∃ ms, (afterAll empty (before ++ x :: l)).Regular ms ∧ ∀ m ∈ ms, m.id = id →
      Granted (t.addSeconds q.deliveryDelaySeconds.toNat)
        (t.addSeconds q.messageRetentionSeconds.toNat) d (l.countP (·.leases id)) m := by
  have hlast : ∀ y ∈ l, y.leases id = true → ∀ q' label limit now,
      y.operation = .lease q' label limit now →
        now < t.addSeconds q.messageRetentionSeconds.toNat := by
    intro y hy hleases q' label limit now hop
    obtain ⟨l₁, l₂, rfl⟩ := List.append_of_mem hy
    rw [← List.cons_append, ← List.append_assoc, List.append_assoc, List.cons_append] at htrace
    exact h.leased_within hascends htrace hinserted (fun z hz => hno z (by simp [hz])) hleases hop
  rw [List.append_assoc, List.cons_append] at htrace
  obtain ⟨⟨ms, hms⟩, hxfour, hlinked, hfour⟩ := h.step htrace
  have hstart : ∀ m ∈ x.advance ms, m.id = id →
      Granted (t.addSeconds q.deliveryDelaySeconds.toNat)
        (t.addSeconds q.messageRetentionSeconds.toNat) d 0 m := by
    intro m hm hid
    have hmem : base.enqueue id q t ∈ x.advance ms := Step.mem_advance.mpr (Or.inr hinserted)
    rw [(hms.step hxfour).eq_of_id hmem hm hid]
    refine ⟨rfl, ?_, Or.inl rfl⟩
    simp [Instant.le_def, Instant.addSeconds, Message.enqueue]
  have hsteps := (hms.step hxfour).granted_steps (linked_append.mp hlinked).1
    (List.forall_mem_append.mp hfour).1 hd (retention_le t q) hstart hno hnack hdeadline hlast
  rw [Nat.zero_add] at hsteps
  rw [afterAll_append]
  exact hsteps

/-- **Redeliveries are bounded.** A message that is not returned, and that every lease hides for at
least `d` seconds, has been leased at most as often as fits between its delivery delay and its
retention, whatever else happened: once for each `d` seconds and for the rest. So the count of its
attempts does not overflow at a further lease. -/
theorem redeliveries_are_bounded {ops : List Operation} (h : FourDigitRun ops)
    (hascends : ClockAscends ops) {before l r : List Step} {x : Step}
    (htrace : trace ops empty = before ++ x :: l ++ r) {base : Message} {id : String} {q : Queue}
    {t : Instant} (hinserted : base.enqueue id q t ∈ x.inserted) (hno : NeverInserts l id)
    (hnack : ∀ y ∈ l, ¬y.Nacks id) {d : Nat} (hd : 1 ≤ d) (hdeadline : ∀ y ∈ l, y.HidesFor id d) :
    ∀ row ∈ (afterAll empty (before ++ x :: l)).messages, row.id = id →
      ∃ n : UInt32, row.deliveryAttempts = .ofWord n ∧ n.toNat = l.countP (·.leases id) ∧
        (q.deliveryDelaySeconds < q.messageRetentionSeconds → n.toNat ≤
          (q.messageRetentionSeconds.toNat - q.deliveryDelaySeconds.toNat) ⌈/⌉ d) ∧
        (q.messageRetentionSeconds ≤ q.deliveryDelaySeconds → n = 0) ∧
        ∀ y r', r = y :: r' → y.leases id = true → n.toNat + 1 < UInt32.size := by
  intro row hrow hid
  obtain ⟨ms, hms, hgranted⟩ := h.granted hascends htrace hinserted hno hnack hd hdeadline
  rw [hms.rows] at hrow
  obtain ⟨m, hm, rfl⟩ := List.mem_map.mp hrow
  obtain ⟨hattempts, -, hwithin⟩ := hgranted m hm hid
  refine ⟨m.deliveryAttempts, rfl, hattempts, fun _ => ?_, fun hle => ?_, ?_⟩
  · rw [hattempts]
    exact attempts_le_ceilDiv hd hwithin
  · refine UInt32.toNat_inj.mp (hattempts.trans (hwithin.resolve_right fun hlt => ?_))
    have hle' : q.messageRetentionSeconds.toNat ≤ q.deliveryDelaySeconds.toNat := hle
    simp only [Instant.lt_def, Instant.addSeconds] at hlt
    omega
  · rintro y r' rfl hleases
    obtain ⟨-, ⟨hbefore, -⟩, hfour⟩ := h.rest htrace
    rw [← hbefore] at hms
    obtain ⟨q', label, limit, now, hop, hle, -⟩ := hms.lease_of_hidden (hfour y List.mem_cons_self)
      (fun m hm hid => (hgranted m hm hid).due) hleases
    have hnow := h.leased_within hascends htrace hinserted hno hleases hop
    rw [hattempts]
    exact countable_of_lt hd (retention_le t q) (Int.lt_of_le_of_lt hle hnow)

/-- A message is leased whenever its ack deadline has passed, until its retention has. -/
def repeatedRun : List Operation :=
  [.createMessage sampleMessage, .lease sampleQueue none 1 .epoch,
    .lease sampleQueue none 1 (Instant.epoch.addSeconds 30),
    .lease sampleQueue none 1 (Instant.epoch.addSeconds 60)]

/-- A message that is kept for 60 seconds, and hidden for 30 by each lease, has been leased at most
twice. -/
theorem repeatedRun_attempts : FourDigitRun repeatedRun ∧ ClockAscends repeatedRun ∧
    ∃ row ∈ (run repeatedRun empty).2.messages, row.id = "a" ∧
      ∃ n : UInt32, row.deliveryAttempts = .ofWord n ∧ n.toNat ≤ 2 := by
  have hfour : FourDigitRun repeatedRun := by decide +kernel
  have hascends : ClockAscends repeatedRun := by decide +kernel
  have hinserted : sampleMessage ∈ (trace repeatedRun empty)[0].inserted := by decide +kernel
  have hno : NeverInserts (trace repeatedRun empty).tail "a" := by decide +kernel
  have hnack : ∀ y ∈ (trace repeatedRun empty).tail, ¬y.Nacks "a" := by
    rintro y hy ⟨timeout, now, hop, -⟩
    rcases hy with _ | ⟨_, _ | ⟨_, _ | ⟨_, _ | _⟩⟩⟩ <;> cases hop
  have hdeadline : ∀ y ∈ (trace repeatedRun empty).tail, y.HidesFor "a" 30 := by
    rintro y hy - q label limit now hop
    rcases hy with _ | ⟨_, _ | ⟨_, _ | ⟨_, _ | _⟩⟩⟩ <;> cases hop <;> decide
  have htrace : trace repeatedRun empty =
      [] ++ (trace repeatedRun empty)[0] :: (trace repeatedRun empty).tail ++ [] := rfl
  have hstored : ∃ row ∈ (run repeatedRun empty).2.messages, row.id = "a" := by decide +kernel
  obtain ⟨row, hrow, hid⟩ := hstored
  rw [run_eq_trace] at hrow ⊢
  obtain ⟨n, hn, -, hbound, -⟩ := redeliveries_are_bounded hfour hascends htrace hinserted
    hno hnack (by decide) hdeadline row hrow hid
  exact ⟨hfour, hascends, row, hrow, hid, n, hn, hbound (by decide)⟩

end MessageBroker.Store

import MessageBroker.Proofs.Store.Lease

/-! # Draining a queue

A consumer that leases at one instant, again and again, takes the backlog of that instant from the
front: each lease takes as much as its limit says of what the leases before it left. So the backlog
becomes shorter with every lease that answers a message, and the consumer gets each message once,
and then nothing (`Regular.drains`, `draining_takes_all_once`). -/

namespace MessageBroker.Store

open Fallible

/-- The first leases of a consumer, all at one instant, with the limits of a sequence. -/
def leasesAt (q : Queue) (label : Option String) (now : Instant) (limits : ℕ → UInt32) (n : ℕ) :
    List Operation := (List.range n).map fun i => .lease q label (limits i) now

theorem leasesAt_succ (q : Queue) (label : Option String) (now : Instant) (limits : ℕ → UInt32)
    (n : ℕ) : leasesAt q label now limits (n + 1) =
      .lease q label (limits 0) now :: leasesAt q label now (fun i => limits (i + 1)) n := by
  rw [leasesAt, List.range_succ_eq_map, List.map_cons, List.map_map]
  rfl

section Consumers

variable {s : Store} {ms : List Message} {q : Queue} {label : Option String} {now : Instant}

theorem Regular.run_lease (h : s.Regular ms) (hnow : now.HasFourDigitYear) (limit : UInt32)
    (ops : List Operation) {taken : List Message}
    (htaken : taken = (backlog q.id label now ms).take limit.toNat) {s' : Store}
    (hs' : s' = s.withMessages (renewMessages q now (taken.map Message.id) ms)) :
    run (.lease q label limit now :: ops) s =
      (.ok (.messages (taken.map (·.leaseRenew q now))) :: (run ops s').1, (run ops s').2) := by
  have hperformed : perform (.lease q label limit now) s =
      (.ok (.messages (taken.map (·.leaseRenew q now))), s') := by
    rw [perform, bind_pure_apply, h.lease_eq_take q label limit hnow htaken, hs']
    rfl
  exact run_cons_of_perform hperformed ops

/-- **Leases at one instant take the backlog from the front**, until nothing is left of it. -/
theorem Regular.drains (h : s.Regular ms) (hdeadline : 1 ≤ q.ackDeadlineSeconds)
    (hnow : now.HasFourDigitYear) {l : List Message} (hl : backlog q.id label now ms = l)
    (hlater : l ≠ [] → (now.addSeconds q.ackDeadlineSeconds.toNat).HasFourDigitYear)
    {limits : ℕ → UInt32} (hlimits : ∀ i, 1 ≤ limits i) :
    ∃ batches : List (List Message),
      (run (leasesAt q label now limits (batches.length + 1)) s).1 =
        (batches ++ [[]]).map (fun batch => .ok (.messages batch)) ∧
      (∀ batch ∈ batches, batch ≠ []) ∧ batches.flatten = l.map (·.leaseRenew q now) ∧
      ∀ i (hi : i < batches.length), batches[i].length =
        min (limits i).toNat (l.length - (batches.take i).flatten.length) := by
  -- the backlog that is left becomes shorter with every lease that answers a message
  induction hn : l.length using Nat.strong_induction_on generalizing s ms l limits with
  | _ n ih =>
    subst hn
    by_cases hempty : l = []
    · subst hempty
      have hnone : [] = (backlog q.id label now ms).take (limits 0).toNat := by
        rw [hl, List.take_nil]
      refine ⟨[], ?_, nofun, rfl, nofun⟩
      rw [leasesAt_succ, h.run_lease hnow (limits 0) _ hnone rfl]
      rfl
    · set first := l.take (limits 0).toNat with hfirst
      have hpos : 1 ≤ (limits 0).toNat := hlimits 0
      have hlength : first.length = min (limits 0).toNat l.length := List.length_take
      have hnonempty : 0 < l.length := List.length_pos_iff.mpr hempty
      -- what the rest of the leases starts with
      have hrest := h.renew (q := q) hnow (l := first) fun _ => hlater hempty
      have hleft := backlog_renewMessages q.id label now h.ids hdeadline (limits 0).toNat
      rw [hl, ← hfirst] at hleft
      have hshorter : (l.drop (limits 0).toNat).length < l.length := by
        rw [List.length_drop]
        omega
      obtain ⟨batches, hrun, hbatches, hflatten, hlengths⟩ := ih _ hshorter hrest hleft
        (fun _ => hlater hempty) (fun i => hlimits (i + 1)) rfl
      refine ⟨first.map (·.leaseRenew q now) :: batches, ?_, ?_, ?_, ?_⟩
      · rw [List.length_cons, leasesAt_succ,
          h.run_lease hnow (limits 0) _ (by rw [hl]) rfl, hrun]
        rfl
      · refine List.forall_mem_cons.mpr ⟨fun hnil => ?_, hbatches⟩
        have hzero : first.length = 0 := by rw [List.map_eq_nil_iff.mp hnil]; rfl
        omega
      · rw [List.flatten_cons, hflatten, ← List.map_append, List.take_append_drop]
      · intro i hi
        cases i with
        | zero => rw [List.getElem_cons_zero, List.length_map, hlength]; rfl
        | succ i =>
          have hi' : i < batches.length := Nat.succ_lt_succ_iff.mp hi
          have hbatch := hlengths i hi'
          rw [List.length_drop] at hbatch
          rw [List.getElem_cons_succ, hbatch, List.take_succ_cons, List.flatten_cons,
            List.length_append, List.length_map, hlength]
          omega

/-- **Draining takes every message once.** A consumer that leases at one instant, with any limits
but zero, until it gets nothing, comes to an end, if its ack deadline ends within the years 0 to
9999. What it got are the messages that leases may take at this instant, in their order, each once.
Each lease answered as many of those that were left as its limit allows. -/
theorem draining_takes_all_once (h : s.Regular ms) (hdeadline : 1 ≤ q.ackDeadlineSeconds)
    (label : Option String) (hnow : now.HasFourDigitYear)
    (hlater : (∃ m ∈ ms, m.IsLeasable q.id label now) →
      (now.addSeconds q.ackDeadlineSeconds.toNat).HasFourDigitYear)
    {limits : ℕ → UInt32} (hlimits : ∀ i, 1 ≤ limits i) :
    ∃ (l : List Message) (batches : List (List Message)),
      l.Perm (ms.filter fun m => m.IsLeasable q.id label now) ∧ l.Pairwise Message.DueBefore ∧
      (∀ batch ∈ batches, batch ≠ []) ∧
      (run (leasesAt q label now limits (batches.length + 1)) s).1 =
        (batches ++ [[]]).map (fun batch => .ok (.messages batch)) ∧
      batches.flatten.map Message.id = l.map Message.id ∧ (l.map Message.id).Nodup ∧
      ∀ i (hi : i < batches.length), batches[i].length =
        min (limits i).toNat (l.length - (batches.take i).flatten.length) := by
  have hleasable : backlog q.id label now ms ≠ [] → ∃ m ∈ ms, m.IsLeasable q.id label now := by
    intro hne
    obtain ⟨m, hm⟩ := List.exists_mem_of_ne_nil _ hne
    exact ⟨m, mem_backlog.mp hm⟩
  obtain ⟨batches, hrun, hbatches, hflatten, hlengths⟩ :=
    h.drains hdeadline hnow rfl (fun hne => hlater (hleasable hne)) hlimits
  refine ⟨backlog q.id label now ms, batches, perm_backlog q.id label now ms,
    pairwise_dueBefore h.ids, hbatches, hrun, ?_, nodup_backlog h.ids, hlengths⟩
  rw [hflatten, List.map_map]
  rfl

/-- The text of an instant in the year 10000 starts with a sign, and storage takes it for an earlier
one: an ack deadline that ends then hides nothing. -/
example : Text.lt (Instant.ofParts 253402300800 0).stored (Instant.ofParts 253402300799 0).stored =
    true := by decide

/-- Two messages that became visible at once are leased one by one, in the order of their
identifiers. -/
theorem tiedMessages_drained : (empty.addMessages tiedMessages).Regular tiedMessages ∧
    1 ≤ sampleQueue.ackDeadlineSeconds ∧
    (Instant.epoch.addSeconds sampleQueue.ackDeadlineSeconds.toNat).HasFourDigitYear ∧
    ∃ batches : List (List Message),
      (run (leasesAt sampleQueue none .epoch (fun _ => 1) (batches.length + 1))
        (empty.addMessages tiedMessages)).1 =
          (batches ++ [[]]).map (fun batch => .ok (.messages batch)) ∧
      batches.flatten.map Message.id = ["a", "b"] ∧ ∀ batch ∈ batches, batch.length = 1 := by
  have hdeadline : 1 ≤ sampleQueue.ackDeadlineSeconds := by decide
  have hlater : (Instant.epoch.addSeconds sampleQueue.ackDeadlineSeconds.toNat).HasFourDigitYear :=
    by decide
  have hnow : Instant.epoch.HasFourDigitYear := by decide
  obtain ⟨l, batches, hperm, hordered, hbatches, hrun, hids, -, hlengths⟩ :=
    draining_takes_all_once regular_tiedMessages hdeadline none hnow (fun _ => hlater)
      fun _ => UInt32.le_refl 1
  refine ⟨regular_tiedMessages, hdeadline, hlater, batches, hrun, ?_, fun batch hbatch => ?_⟩
  · rw [hids, eq_reverse_of_dueBefore hperm hordered]
    rfl
  · obtain ⟨i, hi, rfl⟩ := List.getElem_of_mem hbatch
    have hpos := List.length_pos_iff.mpr (hbatches _ hbatch)
    have hle : batches[i].length ≤ (1 : UInt32).toNat := (hlengths i hi).trans_le (min_le_left _ _)
    exact Nat.le_antisymm hle hpos

end Consumers

end MessageBroker.Store

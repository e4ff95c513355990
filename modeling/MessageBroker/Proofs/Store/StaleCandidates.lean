import MessageBroker.Proofs.Store.Delivery
import MessageBroker.Proofs.Store.Interleaving
import MessageBroker.Proofs.Store.Rewriting

/-! # Candidates that changed since they were read

Between its halves a lease waits, and other operations change what it has read. Its claims compare
the attempts of a row with those that were read, and the row with the instant of the lease, which is
the oldest of all. Another lease has counted an attempt and a deletion has left no row, so neither
kind of candidate is granted any more, whatever happened afterwards. An acknowledgement sets the
expiry to its own instant. If that is the instant of the lease, the candidate is not visible to the
lease; if it is later, it still is (`lateAck_is_overlooked`). The invariants are `AttemptsFrom`, the
absence of a row, and `ExpiresAt`; each one is kept by every further step. -/

namespace MessageBroker.Store

open Fallible

/-- The row with an identifier, if there is one, expires at an instant. -/
def ExpiresAt (s : Store) (id : String) (t : Instant) : Prop :=
  ∀ r ∈ s.messages, r.id = id → r.expiredAt = t.stored

/-! ### Candidates that are not granted -/

section Claims

variable {s : Store} {q : Queue} {now : Instant} {ms : List Message} {m : Message}

theorem not_granted (h : ∀ r ∈ s.messages, r.id = m.id → r.isClaimable now m = false) :
    isGranted now s.messages m = false := by
  refine List.any_eq_false.mpr fun r hr hclaimable => ?_
  rw [h r hr (MessageRow.isClaimable_iff.mp hclaimable).1] at hclaimable
  cases hclaimable

/-- A candidate whose attempts were counted since it was read is not granted. -/
theorem AttemptsFrom.not_granted (h : s.AttemptsFrom m.id (m.deliveryAttempts.toNat + 1)) :
    isGranted now s.messages m = false := by
  refine Store.not_granted fun r hr hid => Bool.eq_false_of_not_eq_true fun hclaimable => ?_
  obtain ⟨-, hattempts, -⟩ := MessageRow.isClaimable_iff.mp hclaimable
  exact Nat.not_succ_le_self _ (h r hr hid _ hattempts)

theorem not_granted_of_absent (h : ¬s.Stores m.id) : isGranted now s.messages m = false :=
  not_granted fun r hr hid => absurd ⟨r, hr, hid⟩ h

theorem ExpiresAt.not_granted (h : s.ExpiresAt m.id now) : isGranted now s.messages m = false := by
  refine Store.not_granted fun r hr hid => Bool.eq_false_of_not_eq_true fun hclaimable => ?_
  obtain ⟨-, -, hvisible⟩ := MessageRow.isClaimable_iff.mp hclaimable
  rw [MessageRow.isVisible, h r hr hid, Bool.and_eq_true] at hvisible
  exact Text.lt_irrefl _ hvisible.2

/-- The claims of candidates do not answer the one with an identifier, and leave its row. -/
def Skips (s : Store) (q : Queue) (now : Instant) (ms : List Message) (id : String) : Prop :=
  ∃ leased s', claimAll q now ms s = (.ok leased, s') ∧ (∀ m ∈ leased, m.id ≠ id) ∧
    s'.messages.filter (·.id = id) = s.messages.filter (·.id = id)

/-- **A candidate that is not granted is skipped.** -/
theorem Keyed.skips (h : s.Keyed) (q : Queue) (hids : (ms.map Message.id).Nodup) (hm : m ∈ ms)
    (hnot : isGranted now s.messages m = false) : s.Skips q now ms m.id := by
  refine ⟨_, _, h.claimAll_eq q now hids, ?_, ?_⟩
  · intro _ hleased hid
    obtain ⟨c, hc, rfl⟩ := List.mem_map.mp hleased
    obtain ⟨hmem, hgranted⟩ := List.mem_filter.mp hc
    rw [List.inj_on_of_nodup_map hids hmem hm hid, hnot] at hgranted
    cases hgranted
  · have hstays : ∀ r ∈ s.messages, r.id = m.id →
        ms.foldl (fun r m => r.claimed q now m) r = r := by
      refine fun r hr hid => foldl_claimed_stays fun c hc => ?_
      refine Bool.eq_false_of_not_eq_true fun hclaimable => ?_
      have hcid := (MessageRow.isClaimable_iff.mp hclaimable).1.symm.trans hid
      rw [List.inj_on_of_nodup_map hids hc hm hcid] at hclaimable
      exact List.any_eq_false.mp hnot r hr hclaimable
    rw [claimedRows_eq_map]
    refine filter_map_of_imp (fun r => ?_) fun r hr hid => hstays r hr (of_decide_eq_true hid)
    rw [(key_foldl_claimed ms r).1]

end Claims

/-! ### What single steps keep -/

section Steps

variable {x : Step} {id : String} {t : Instant}

theorem Keyed.absent_step (h : x.before.Keyed) (hinserted : ∀ m ∈ x.inserted, m.id ≠ id)
    (habsent : ¬x.before.Stores id) : ¬x.after.Stores id := by
  rintro ⟨r', hr', rfl⟩
  obtain ⟨r, hr, hrewrite⟩ := h.exists_of_mem_after hr' hinserted
  exact habsent ⟨r, hr, (Step.key_of_rewrite hrewrite).1.symm⟩

theorem Keyed.expiresAt_step (h : x.before.Keyed) (ht : t.IsRepresentable)
    (hinserted : ∀ m ∈ x.inserted, m.id ≠ id) (hack : ∀ now, x.operation = .ack id now → now = t)
    (hexpires : x.before.ExpiresAt id t) : x.after.ExpiresAt id t := by
  rintro r' hr' rfl
  obtain ⟨r, hr, hrewrite⟩ := h.exists_of_mem_after hr' hinserted
  have hid := (Step.key_of_rewrite hrewrite).1
  rcases expiredAt_of_rewrite ht hrewrite (hexpires r hr hid.symm) with he | ⟨now, hop, he⟩
  · exact he
  · rw [he, hack now (by rw [hop, hid])]

theorem Keyed.expiresAt_of_ack (h : x.before.Keyed) (hop : x.operation = .ack id t)
    (hanswer : x.answer = .ok .done) : x.after.ExpiresAt id t := by
  obtain ⟨_, hs⟩ := x.exists_ok hanswer (a := ack id t) (by rw [hop]; rfl)
  obtain ⟨r₀, -, rfl, m, -, hafter⟩ :=
    exists_of_rewrite h.toUndisturbed (f := (·.ack t)) (fun _ => rfl) hs
  rw [hafter]
  intro r' hr' hid
  obtain ⟨r, -, rfl⟩ := List.mem_map.mp hr'
  split_ifs at hid ⊢ with he
  · rfl
  · exact absurd hid he

/-- What a step leases was read from visible rows, which the step leaves claimed. -/
theorem Keyed.exists_of_leased (h : x.before.Keyed) {m : Message} (hm : m ∈ x.leased) :
    ∃ q label limit now l, x.operation = .lease q label limit now ∧
      (readCandidates q label limit now x.before).1 = .ok l ∧
      (∃ c ∈ l, c.leaseRenew q now = m) ∧
      x.after = { x.before with messages := claimedRows q now l x.before.messages } := by
  unfold Step.leased at hm
  split at hm
  · next q label limit now ms hop hanswer =>
    obtain ⟨_, hs⟩ := x.exists_ok hanswer (a := lease q label limit now) (by rw [hop]; rfl)
    obtain ⟨hfirst, hafter⟩ := x.result_eq (a := lease q label limit now) (by rw [hop]; rfl)
    rw [lease_eq_bind] at hs
    obtain ⟨l, _, hread, -⟩ := exists_of_bind_apply hs
    have hl : (readCandidates q label limit now x.before).1 = .ok l := congrArg Prod.fst hread
    rw [h.lease_eq hl] at hfirst hafter
    rw [hanswer] at hfirst
    cases hfirst
    exact ⟨q, label, limit, now, l, hop, hl, List.mem_map.mp hm, hafter⟩
  · exact absurd hm List.not_mem_nil

theorem Keyed.attemptsFrom_of_leases (h : x.before.Keyed) (hbelow : x.before.BelowMax) {n : Nat}
    (hn : x.before.AttemptsFrom id n) (hleases : x.leases id = true) :
    x.after.AttemptsFrom id (n + 1) := by
  obtain ⟨_, hleased, hid⟩ := List.mem_map.mp (Step.leases_iff.mp hleases)
  obtain ⟨q, label, limit, now, l, -, hl, ⟨c, hc, rfl⟩, hafter⟩ := h.exists_of_leased hleased
  obtain ⟨hids, hrows⟩ := h.readCandidates_rows hl
  obtain ⟨r, hr, hdecode, -, -, hvisible⟩ := hrows c hc
  obtain ⟨hcid, -, -, -, hattempts⟩ := MessageRow.decode?_eq_some hdecode
  have hclaimable := MessageRow.isClaimable_iff.mpr ⟨hcid.symm, hattempts, hvisible⟩
  have hgranted : isGranted now x.before.messages c = true :=
    List.any_eq_true.mpr ⟨r, hr, hclaimable⟩
  have hle := hn r hr (hcid.symm.trans hid) _ hattempts
  have hne : c.deliveryAttempts ≠ 4294967295 := fun he => hbelow r hr (he ▸ hattempts)
  rw [hafter]
  intro r' hr' hid' k hk
  rw [h.attempts_claimedRows hids hc hgranted hr' (hid'.trans hid.symm)] at hk
  rw [← Cell.ofWord_inj hk, succ_toNat hne]
  exact Nat.succ_le_succ hle

end Steps

/-! ### What steps in a row keep -/

section Runs

variable {s : Store} {l : List Step} {P Q : Store → Prop}

theorem Keyed.afterAll_of_forall (h : s.Keyed) (hl : Linked s l) (hP : P s)
    (hstep : ∀ x ∈ l, x.before.Keyed → P x.before → P x.after) :
    (afterAll s l).Keyed ∧ P (afterAll s l) := by
  induction l generalizing s with
  | nil => exact ⟨h, hP⟩
  | cons x l ih =>
    obtain ⟨rfl, hl⟩ := hl
    obtain ⟨hxstep, hstep⟩ := List.forall_mem_cons.mp hstep
    exact ih h.keyed_after hl (hxstep h hP) hstep

/-- What one of the steps brings about, from what those before it keep, and those after it keep, is
so after all of them. -/
theorem Keyed.afterAll_of_mem (h : s.Keyed) (hl : Linked s l) (hP : P s)
    (hPstep : ∀ x ∈ l, x.before.Keyed → P x.before → P x.after) {x : Step} (hx : x ∈ l)
    (hchange : x.before.Keyed → P x.before → Q x.after)
    (hQstep : ∀ x ∈ l, x.before.Keyed → Q x.before → Q x.after) : Q (afterAll s l) := by
  obtain ⟨l, r, rfl⟩ := List.append_of_mem hx
  obtain ⟨hl, hbefore, hr⟩ := linked_append.mp hl
  obtain ⟨hlstep, -⟩ := List.forall_mem_append.mp hPstep
  obtain ⟨-, hrstep⟩ := List.forall_mem_append.mp hQstep
  obtain ⟨hkeyed, hPx⟩ := h.afterAll_of_forall hl hP hlstep
  rw [← hbefore] at hkeyed hPx
  rw [afterAll_append]
  exact (hkeyed.keyed_after.afterAll_of_forall hr (hchange hkeyed hPx)
    fun y hy => hrstep y (List.mem_cons_of_mem _ hy)).2

end Runs

/-! ### Leases whose candidates changed -/

/-- **Candidates that changed are skipped.** A lease has read candidates, and other operations were
performed since, none of them earlier than the lease. If one of them leased a candidate, or deleted
it, or acknowledged it and no acknowledgement was later than the lease, then the claims of the lease
do not answer the candidate, and leave its row as it is. -/
theorem changed_candidates_are_skipped {s : Store} (h : s.Keyed) {q : Queue}
    {label : Option String} {limit : UInt32} {now : Instant} (hnow : now.IsRepresentable)
    {ms : List Message} (hread : (readCandidates q label limit now s).1 = .ok ms)
    {ops : List Operation} (hlater : ∀ op ∈ ops, ∀ t ∈ op.clock, now ≤ t)
    (hbelow : ∀ x ∈ trace ops s, x.before.BelowMax) {m : Message} (hm : m ∈ ms)
    (hno : NeverInserts (trace ops s) m.id)
    (hchanged : (∃ x ∈ trace ops s, x.leases m.id = true) ∨
      (∃ x ∈ trace ops s, ¬x.after.Stores m.id) ∨
      (∃ x ∈ trace ops s, x.Acks m.id) ∧
        ∀ x ∈ trace ops s, ∀ t, x.operation = .ack m.id t → t ≤ now) :
    (run ops s).2.Skips q now ms m.id := by
  have hl := linked_trace ops s
  obtain ⟨hids, hrows⟩ := h.readCandidates_rows hread
  obtain ⟨r, hr, hdecode, -⟩ := hrows m hm
  obtain ⟨hid, -, -, -, hattempts⟩ := MessageRow.decode?_eq_some hdecode
  have hkeyed := (h.afterAll_of_forall (P := fun _ => True) hl trivial fun _ _ _ _ => trivial).1
  have hcounted (n : Nat) : ∀ x ∈ trace ops s, x.before.Keyed →
      x.before.AttemptsFrom m.id n → x.after.AttemptsFrom m.id n :=
    fun x hx hx' hn => (hx'.step (hbelow x hx)).attemptsFrom hn (hno x hx)
  rw [run_eq_trace]
  refine hkeyed.skips q hids hm ?_
  rcases hchanged with ⟨x, hx, hleases⟩ | ⟨x, hx, hdeleted⟩ | ⟨⟨x, hx, t, hop, hanswer⟩, hacks⟩
  · have hstored : s.HasAttempts m.id m.deliveryAttempts := ⟨r, hr, hid.symm, hattempts⟩
    have hn := hstored.attemptsFrom h
    exact AttemptsFrom.not_granted (h.afterAll_of_mem
      (P := fun s => s.AttemptsFrom m.id m.deliveryAttempts.toNat)
      (Q := fun s => s.AttemptsFrom m.id (m.deliveryAttempts.toNat + 1)) hl hn (hcounted _) hx
      (fun hx' hn => hx'.attemptsFrom_of_leases (hbelow x hx) hn hleases) (hcounted _))
  · exact not_granted_of_absent (h.afterAll_of_mem (P := fun _ => True)
      (Q := fun s => ¬s.Stores m.id) hl trivial (fun _ _ _ _ => trivial) hx
      (fun _ _ => hdeleted) fun y hy hy' => hy'.absent_step (hno y hy))
  · -- acknowledgements are not earlier than the lease, so they are at its instant
    have hsame : ∀ y ∈ trace ops s, ∀ t, y.operation = .ack m.id t → t = now := by
      intro y hy t hop
      have hmem : y.operation ∈ ops := by
        rw [← operations_trace ops s]
        exact List.mem_map_of_mem hy
      have hle := hlater _ hmem t (by simp [hop, Operation.clock])
      exact congrArg Instant.mk (Int.le_antisymm (hacks y hy t hop) hle)
    rw [hsame x hx t hop] at hop
    exact ExpiresAt.not_granted (h.afterAll_of_mem (P := fun _ => True)
      (Q := fun s => s.ExpiresAt m.id now) hl trivial (fun _ _ _ _ => trivial) hx
      (fun hx' _ => hx'.expiresAt_of_ack hop hanswer)
      fun y hy hy' => hy'.expiresAt_step hnow (hno y hy) (hsame y hy))

/-- A store of one message. -/
def sampleStore : Store := empty.addMessages [sampleMessage]

/-- A lease has read the message. Another one gets it before the claim, which skips it. -/
theorem leasedCandidate_is_skipped :
    (readCandidates sampleQueue none 1 .epoch sampleStore).1 = .ok [sampleMessage] ∧
      (run [.lease sampleQueue none 1 .epoch] sampleStore).2.Skips sampleQueue .epoch
        [sampleMessage] "a" := by
  have hkeyed : sampleStore.Keyed := ⟨⟨rfl, rfl, rfl⟩, by decide⟩
  have hread : (readCandidates sampleQueue none 1 .epoch sampleStore).1 = .ok [sampleMessage] := by
    decide +kernel
  refine ⟨hread, changed_candidates_are_skipped hkeyed (by decide) hread (by decide)
    (by decide +kernel) (List.mem_singleton_self _) (by decide +kernel) (Or.inl ?_)⟩
  decide +kernel

/-- The message is acknowledged one second after a lease has read it. -/
def lateAck : List Operation := [.ack "a" (Instant.epoch.addSeconds 1)]

/-- The acknowledgement succeeds, no operation is earlier than the lease and none inserts the
message, but the claim answers the message. -/
theorem lateAck_is_overlooked :
    (readCandidates sampleQueue none 1 .epoch sampleStore).1 = .ok [sampleMessage] ∧
      (∀ op ∈ lateAck, ∀ t ∈ op.clock, Instant.epoch ≤ t) ∧
      NeverInserts (trace lateAck sampleStore) "a" ∧
      (∃ x ∈ trace lateAck sampleStore, x.Acks "a") ∧
      (claimAll sampleQueue .epoch [sampleMessage] (run lateAck sampleStore).2).1 =
        .ok [sampleMessage.leaseRenew sampleQueue .epoch] := by
  refine ⟨by decide +kernel, by decide, by decide +kernel, ?_, by decide +kernel⟩
  exact ⟨_, List.mem_singleton_self _, _, rfl, by decide +kernel⟩

end MessageBroker.Store

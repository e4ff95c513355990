import MessageBroker.Proofs.Store.Attempts
import MessageBroker.Proofs.Store.Lifecycle

/-! # Leases under way at once

Between its halves a lease owns nothing: others may read and claim the same candidates, and any
operation may change them. A schedule is a list of moves on a shared store, each one half of a lease
or a whole operation. As attempts are never taken back, a row that still has the attempts which were
read was not claimed since, so of several leases that read a message at once only the first to claim
it is granted it (`overlapping_leases_are_disjoint`). -/

namespace MessageBroker.Store

open Fallible

/-! ### Schedules -/

/-- What a lease has read and is going to claim. -/
structure Reading where
  queue : Queue
  now : Instant
  candidates : List Message

/-- A store on which leases are under way, each under a number. -/
structure Shared where
  store : Store
  readings : Nat → Option Reading

/-- A move on a shared store. -/
inductive Move
  | read (lease : Nat) (q : Queue) (label : Option String) (limit : UInt32) (now : Instant)
  | claim (lease : Nat)
  | whole (op : Operation)

namespace Move

/-- What a move answers, and the shared store after it. A lease whose reading fails has nothing to
claim. -/
def perform : Move → Shared → Except Error Result × Shared
  | read n q label limit now, t =>
    let (answer, store) := (readCandidates q label limit now).on t.store
    (answer.map .messages,
      ⟨store, Function.update t.readings n (answer.toOption.map (Reading.mk q now))⟩)
  | claim n, t =>
    match t.readings n with
    | none => (.ok (.messages []), t)
    | some r =>
      let (answer, store) := (claimAll r.queue r.now r.candidates).on t.store
      (answer.map .messages, ⟨store, Function.update t.readings n none⟩)
  | whole op, t =>
    let (answer, store) := (Store.perform op).on t.store
    (answer, { t with store })

theorem perform_read (n : Nat) (q : Queue) (label : Option String) (limit : UInt32) (now : Instant)
    (t : Shared) : (read n q label limit now).perform t =
      ((readCandidates q label limit now t.store).1.map .messages,
        ⟨(readCandidates q label limit now t.store).2, Function.update t.readings n
          ((readCandidates q label limit now t.store).1.toOption.map (Reading.mk q now))⟩) := rfl

theorem perform_claim_none {t : Shared} {n : Nat} (h : t.readings n = none) :
    (claim n).perform t = (.ok (.messages []), t) := by simp only [perform, h]

theorem perform_claim_some {t : Shared} {n : Nat} {r : Reading} (h : t.readings n = some r) :
    (claim n).perform t = ((claimAll r.queue r.now r.candidates t.store).1.map .messages,
      ⟨(claimAll r.queue r.now r.candidates t.store).2, Function.update t.readings n none⟩) := by
  simp only [perform, h]
  rfl

/-- The lease that a move is one half of. -/
def lease? : Move → Option Nat
  | read n .. | claim n => some n
  | whole _ => none

/-- The messages that a move inserts. -/
def inserted : Move → Shared → List Message
  | whole op, t => (Step.of op t.store).inserted
  | _, _ => []

end Move

/-- The shared store before the move at a position of a schedule. No lease is under way at first. -/
def sharedAt (s : Store) (moves : List Move) (k : Nat) : Shared :=
  (moves.take k).foldl (fun t a => (a.perform t).2) ⟨s, fun _ => none⟩

/-- The messages inserted at a position of a schedule. -/
def insertedAt (s : Store) (moves : List Move) (k : Nat) : List Message :=
  match moves[k]? with
  | some a => a.inserted (sharedAt s moves k)
  | none => []

/-- A schedule on a keyed store that inserts no identifier which was stored before, and on which the
attempts of every row can be counted once more. -/
structure Admissible (s : Store) (moves : List Move) : Prop where
  keyed : s.Keyed
  fresh : ∀ k < moves.length, ∀ i ≤ k, ∀ m ∈ insertedAt s moves k,
    ∀ r ∈ (sharedAt s moves i).store.messages, r.id ≠ m.id
  below : ∀ k < moves.length, (sharedAt s moves k).store.BelowMax

/-- A lease of a schedule reads at one position, claims at a later one, and answers messages. -/
structure LeasesBetween (s : Store) (moves : List Move) (n start stop : Nat) (ms : List Message) :
    Prop where
  reads : ∃ q label limit now, moves[start]? = some (.read n q label limit now)
  claims : moves[stop]? = some (.claim n)
  before : start < stop
  alone : ∀ k < stop, start < k → moves[k]?.bind Move.lease? ≠ some n
  answers : ((Move.claim n).perform (sharedAt s moves stop)).1 = .ok (.messages ms)

/-! ### Single moves -/

/-- The store is keyed, and the candidates of each lease have identifiers of their own. -/
structure Shared.Sound (t : Shared) : Prop where
  keyed : t.store.Keyed
  ids : ∀ n r, t.readings n = some r → (r.candidates.map Message.id).Nodup

theorem Shared.Sound.replace {t : Shared} (h : t.Sound) {s : Store} (hs : s.Keyed) {n : Nat}
    {reading : Option Reading}
    (hreading : ∀ r, reading = some r → (r.candidates.map Message.id).Nodup) :
    Shared.Sound ⟨s, Function.update t.readings n reading⟩ := by
  refine ⟨hs, fun k r hr => ?_⟩
  by_cases hk : k = n
  · subst hk
    exact hreading r ((Function.update_self k reading t.readings).symm.trans hr)
  · exact h.ids k r ((Function.update_of_ne hk reading t.readings).symm.trans hr)

theorem Shared.Sound.perform_read {t : Shared} (h : t.Sound) (n : Nat) (q : Queue)
    (label : Option String) (limit : UInt32) (now : Instant) :
    ((Move.read n q label limit now).perform t).2.Sound ∧
      ((Move.read n q label limit now).perform t).2.store = t.store := by
  have hstore : (readCandidates q label limit now t.store).2 = t.store :=
    reads_readCandidates q label limit now t.store
  rw [Move.perform_read, hstore]
  refine ⟨h.replace h.keyed fun r hr => ?_, rfl⟩
  obtain ⟨ms, hms, rfl⟩ := Option.map_eq_some_iff.mp hr
  rcases hread : (readCandidates q label limit now t.store).1 with e | l <;> rw [hread] at hms
  · cases hms
  · cases hms
    exact (h.keyed.readCandidates_rows hread).1

theorem Shared.Sound.perform_claim {t : Shared} (h : t.Sound) (hbelow : t.store.BelowMax)
    (n : Nat) : ((Move.claim n).perform t).2.Sound ∧
      t.store.Follows ((Move.claim n).perform t).2.store [] := by
  rcases hr : t.readings n with _ | r
  · rw [Move.perform_claim_none hr]
    exact ⟨h, h.keyed.follows_self⟩
  · have hids := h.ids n r hr
    have hfollows := h.keyed.follows_claimedRows hbelow r.queue r.now hids
    rw [Move.perform_claim_some hr, h.keyed.claimAll_eq r.queue r.now hids]
    exact ⟨h.replace hfollows.keyed (fun r hr => by cases hr), hfollows⟩

/-- **A move leaves rows with the attempts they had**, or more. -/
theorem Shared.Sound.perform {t : Shared} (h : t.Sound) (hbelow : t.store.BelowMax) (a : Move) :
    (a.perform t).2.Sound ∧ t.store.Follows (a.perform t).2.store (a.inserted t) := by
  cases a with
  | read n q label limit now =>
    obtain ⟨hsound, hstore⟩ := h.perform_read n q label limit now
    rw [hstore]
    exact ⟨hsound, h.keyed.follows_self⟩
  | claim n => exact h.perform_claim hbelow n
  | whole op =>
    have hstep := h.keyed.step (x := Step.of op t.store) hbelow
    exact ⟨⟨hstep.keyed, h.ids⟩, hstep⟩

theorem readings_perform {a : Move} {n : Nat} (ha : a.lease? ≠ some n) (t : Shared) :
    (a.perform t).2.readings n = t.readings n := by
  cases a with
  | read k q label limit now =>
    exact Function.update_of_ne (fun he => ha (congrArg some he.symm)) _ _
  | claim k =>
    rcases hr : t.readings k with _ | r
    · rw [Move.perform_claim_none hr]
    · rw [Move.perform_claim_some hr]
      exact Function.update_of_ne (fun he => ha (congrArg some he.symm)) _ _
  | whole op => rfl

/-! ### Runs of a schedule -/

section Runs

variable {s : Store} {moves : List Move} {id : String}

theorem sharedAt_succ {k : Nat} {a : Move} (ha : moves[k]? = some a) :
    sharedAt s moves (k + 1) = (a.perform (sharedAt s moves k)).2 := by
  rw [sharedAt, List.take_add_one, List.foldl_append, ha]
  rfl

namespace Admissible

theorem sound (h : Admissible s moves) {k : Nat} (hk : k ≤ moves.length) :
    (sharedAt s moves k).Sound := by
  induction k with
  | zero => exact ⟨h.keyed, fun n r hr => by cases hr⟩
  | succ k ih =>
    rw [sharedAt_succ (List.getElem?_eq_getElem hk)]
    exact ((ih (Nat.le_of_succ_le hk)).perform (h.below k hk) _).1

/-- From the time on when it is stored, the attempts of an identifier do not decrease. -/
theorem attemptsFrom (h : Admissible s moves) {j i k n : Nat} (hji : j ≤ i) (hik : i ≤ k)
    (hk : k ≤ moves.length) (hid : ∃ r ∈ (sharedAt s moves j).store.messages, r.id = id)
    (hn : (sharedAt s moves i).store.AttemptsFrom id n) :
    (sharedAt s moves k).store.AttemptsFrom id n := by
  induction k, hik using Nat.le_induction with
  | base => exact hn
  | succ k hik ih =>
    have hmove := List.getElem?_eq_getElem hk
    have hfollows := ((h.sound (Nat.le_of_succ_le hk)).perform (h.below k hk) moves[k]).2
    rw [sharedAt_succ hmove]
    refine hfollows.attemptsFrom (ih (Nat.le_of_succ_le hk)) fun m hm he => ?_
    obtain ⟨r, hr, hrid⟩ := hid
    have hinserted : m ∈ insertedAt s moves k := by rw [insertedAt, hmove]; exact hm
    exact h.fresh k hk j (hji.trans hik) m hinserted r hr (hrid.trans he.symm)

end Admissible

theorem readings_between {n i k : Nat} (hik : i ≤ k) (hk : k ≤ moves.length)
    (halone : ∀ j < k, i ≤ j → moves[j]?.bind Move.lease? ≠ some n) :
    (sharedAt s moves k).readings n = (sharedAt s moves i).readings n := by
  induction k, hik using Nat.le_induction with
  | base => rfl
  | succ k hik ih =>
    have hmove := List.getElem?_eq_getElem hk
    have hother := halone k (Nat.lt_succ_self k) hik
    rw [hmove, Option.bind_some] at hother
    rw [sharedAt_succ hmove, readings_perform hother]
    exact ih (Nat.le_of_succ_le hk) fun j hjk hij => halone j (Nat.lt_succ_of_lt hjk) hij

/-! ### Granted messages -/

/-- The identifier is stored with a number of attempts. -/
def HasAttempts (s : Store) (id : String) (n : UInt32) : Prop :=
  ∃ r ∈ s.messages, r.id = id ∧ r.deliveryAttempts = .ofWord n

theorem HasAttempts.attemptsFrom {n : UInt32} (h : s.HasAttempts id n) (hs : s.Keyed) :
    s.AttemptsFrom id n.toNat := by
  obtain ⟨r, hr, hid, hn⟩ := h
  intro r' hr' hid' k hk
  rw [hs.eq_of_id hr hr' (hid'.trans hid.symm), hn] at hk
  rw [Cell.ofWord_inj hk]

theorem Admissible.attempts_le (h : Admissible s moves) {i k : Nat} (hik : i ≤ k)
    (hk : k ≤ moves.length) {n n' : UInt32} (hn : (sharedAt s moves i).store.HasAttempts id n)
    (hn' : (sharedAt s moves k).store.HasAttempts id n') : n.toNat ≤ n'.toNat := by
  have hfrom := hn.attemptsFrom (h.sound (hik.trans hk)).keyed
  obtain ⟨r, hr, hid, -⟩ := hn
  obtain ⟨r', hr', hid', hattempts⟩ := hn'
  exact h.attemptsFrom le_rfl hik hk ⟨r, hr, hid⟩ hfrom r' hr' hid' n' hattempts

theorem LeasesBetween.stop_lt {n start stop : Nat} {ms : List Message}
    (hl : LeasesBetween s moves n start stop ms) : stop < moves.length :=
  (List.getElem?_eq_some_iff.mp hl.claims).1

theorem LeasesBetween.reading {n start stop : Nat} {ms : List Message}
    (hl : LeasesBetween s moves n start stop ms) : ∃ q label limit now,
      (sharedAt s moves stop).readings n =
        (readCandidates q label limit now (sharedAt s moves start).store).1.toOption.map
          (Reading.mk q now) := by
  obtain ⟨q, label, limit, now, hread⟩ := hl.reads
  refine ⟨q, label, limit, now, ?_⟩
  rw [readings_between hl.before hl.stop_lt.le hl.alone, sharedAt_succ hread, Move.perform_read]
  exact Function.update_self _ _ _

/-- A message that a lease answers was stored when it was read and when it was claimed, with one
attempt less, and has at least its attempts afterwards. -/
theorem Admissible.granted (h : Admissible s moves) {n start stop : Nat} {ms : List Message}
    (hl : LeasesBetween s moves n start stop ms) {m : Message} (hm : m ∈ ms) :
    ∃ k, m.deliveryAttempts = k + 1 ∧ (sharedAt s moves start).store.HasAttempts m.id k ∧
      (sharedAt s moves stop).store.HasAttempts m.id k ∧
      (sharedAt s moves (stop + 1)).store.AttemptsFrom m.id (k.toNat + 1) := by
  have hstart := h.sound (hl.before.le.trans hl.stop_lt.le)
  have hstop := h.sound hl.stop_lt.le
  have hanswers := hl.answers
  obtain ⟨q, label, limit, now, hreading⟩ := hl.reading
  rcases hread : (readCandidates q label limit now (sharedAt s moves start).store).1 with e | l <;>
    rw [hread] at hreading
  · rw [Move.perform_claim_none hreading] at hanswers
    cases hanswers
    exact absurd hm List.not_mem_nil
  · obtain ⟨hids, hrows⟩ := hstart.keyed.readCandidates_rows hread
    have hclaims := hstop.keyed.claimAll_eq q now hids
    rw [Move.perform_claim_some hreading, hclaims] at hanswers
    cases hanswers
    obtain ⟨c, hc, rfl⟩ := List.mem_map.mp hm
    obtain ⟨hmem, hgranted⟩ := List.mem_filter.mp hc
    have hclaimed : (sharedAt s moves stop).store.HasAttempts c.id c.deliveryAttempts := by
      obtain ⟨r, hr, hclaimable⟩ := List.any_eq_true.mp hgranted
      obtain ⟨hid, hattempts, -⟩ := MessageRow.isClaimable_iff.mp hclaimable
      exact ⟨r, hr, hid, hattempts⟩
    refine ⟨c.deliveryAttempts, rfl, ?_, hclaimed, ?_⟩
    · obtain ⟨r, hr, hdecode, -⟩ := hrows c hmem
      obtain ⟨hid, -, -, -, hattempts⟩ := MessageRow.decode?_eq_some hdecode
      exact ⟨r, hr, hid.symm, hattempts⟩
    · rw [sharedAt_succ hl.claims, Move.perform_claim_some hreading, hclaims]
      intro r' hr' hid k hk
      rw [hstop.keyed.attempts_claimedRows hids hmem hgranted hr' hid] at hk
      obtain ⟨r, hr, -, hattempts⟩ := hclaimed
      have hne : c.deliveryAttempts ≠ 4294967295 := fun he =>
        h.below stop hl.stop_lt r hr (he ▸ hattempts)
      rw [← Cell.ofWord_inj hk, succ_toNat hne]

/-- Of two leases that answer the same message, the one to claim later has read it later than the
other claimed it, and answers more attempts. -/
theorem Admissible.granted_twice (h : Admissible s moves) {n start stop n' start' stop' : Nat}
    {ms ms' : List Message} (hl : LeasesBetween s moves n start stop ms)
    (hl' : LeasesBetween s moves n' start' stop' ms') (hlater : stop < stop') {m m' : Message}
    (hm : m ∈ ms) (hm' : m' ∈ ms') (hid : m'.id = m.id) :
    m'.deliveryAttempts ≠ m.deliveryAttempts ∧ stop < start' := by
  obtain ⟨k, hk, -, hstop, hfrom⟩ := h.granted hl hm
  obtain ⟨k', hk', hstart', hstop', -⟩ := h.granted hl' hm'
  rw [hid] at hstart' hstop'
  have hlt : k.toNat < k'.toNat := by
    obtain ⟨r, hr, hrid, -⟩ := hstop
    obtain ⟨r', hr', hrid', hattempts'⟩ := hstop'
    exact h.attemptsFrom (Nat.le_succ stop) hlater hl'.stop_lt.le ⟨r, hr, hrid⟩ hfrom r' hr' hrid'
      k' hattempts'
  constructor
  · intro he
    rw [hk, hk'] at he
    rw [add_right_cancel he] at hlt
    exact lt_irrefl _ hlt
  · by_contra hoverlap
    have hle := h.attempts_le (Nat.le_of_not_lt hoverlap) hl.stop_lt.le hstart' hstop
    omega

/-- **Overlapping leases are disjoint.** In every admissible schedule, two leases each of which
reads before the other claims answer no message in common, and two leases that answer the same
message answer it with different attempts. -/
theorem overlapping_leases_are_disjoint (h : Admissible s moves)
    {n start stop n' start' stop' : Nat} {ms ms' : List Message}
    (hl : LeasesBetween s moves n start stop ms) (hl' : LeasesBetween s moves n' start' stop' ms')
    (hne : stop ≠ stop') :
    (start < stop' → start' < stop → ∀ m ∈ ms, ∀ m' ∈ ms', m'.id ≠ m.id) ∧
    ∀ m ∈ ms, ∀ m' ∈ ms', m'.id = m.id → m'.deliveryAttempts ≠ m.deliveryAttempts := by
  rcases Nat.lt_or_gt_of_ne hne with hlater | hlater
  · refine ⟨fun _ hoverlap m hm m' hm' hid => ?_, fun m hm m' hm' hid => ?_⟩
    · have hlt := (h.granted_twice hl hl' hlater hm hm' hid).2
      omega
    · exact (h.granted_twice hl hl' hlater hm hm' hid).1
  · refine ⟨fun hoverlap _ m hm m' hm' hid => ?_, fun m hm m' hm' hid => ?_⟩
    · have hlt := (h.granted_twice hl' hl hlater hm' hm hid.symm).2
      omega
    · exact (h.granted_twice hl' hl hlater hm' hm hid.symm).1.symm

end Runs

/-- Two leases read a message at once, and the second to read is the first to claim. A third lease
comes when the ack deadline of the second has passed. -/
def contendedMoves : List Move :=
  [.whole (.createMessage sampleMessage), .read 0 sampleQueue none 1 .epoch,
    .read 1 sampleQueue none 1 .epoch, .claim 1, .claim 0,
    .read 2 sampleQueue none 1 (Instant.epoch.addSeconds 30), .claim 2]

/-- The second lease gets the message and the first none. The third gets it with other attempts. -/
theorem contendedMoves_attempts : Admissible empty contendedMoves ∧
    LeasesBetween empty contendedMoves 0 1 4 [] ∧
    ∃ m m', LeasesBetween empty contendedMoves 1 2 3 [m] ∧
      LeasesBetween empty contendedMoves 2 5 6 [m'] ∧ m'.id = m.id ∧
      m'.deliveryAttempts ≠ m.deliveryAttempts := by
  have hadmissible : Admissible empty contendedMoves :=
    ⟨keyed_empty, by decide +kernel, by decide +kernel⟩
  have hfirst : LeasesBetween empty contendedMoves 0 1 4 [] :=
    ⟨⟨sampleQueue, none, 1, .epoch, rfl⟩, rfl, by decide, by decide, by decide +kernel⟩
  have hsecond : LeasesBetween empty contendedMoves 1 2 3
      [sampleMessage.leaseRenew sampleQueue .epoch] :=
    ⟨⟨sampleQueue, none, 1, .epoch, rfl⟩, rfl, by decide, by decide, by decide +kernel⟩
  have hthird : LeasesBetween empty contendedMoves 2 5 6
      [(sampleMessage.leaseRenew sampleQueue .epoch).leaseRenew sampleQueue
        (Instant.epoch.addSeconds 30)] :=
    ⟨⟨sampleQueue, none, 1, _, rfl⟩, rfl, by decide, by decide, by decide +kernel⟩
  refine ⟨hadmissible, hfirst, _, _, hsecond, hthird, rfl, ?_⟩
  exact (overlapping_leases_are_disjoint hadmissible hsecond hthird (by decide)).2
    _ (List.mem_singleton_self _) _ (List.mem_singleton_self _) rfl

end MessageBroker.Store

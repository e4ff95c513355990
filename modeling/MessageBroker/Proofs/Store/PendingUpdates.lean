import MessageBroker.Proofs.Store.StaleCandidates

/-! # Updates under way

An acknowledgement or a return is two statements: it reads a message, and writes it back changed.
Between them it owns nothing, and the write compares nothing, so it takes back what others have
changed since: a return restores the expiry that an acknowledgement has moved, and both restore the
attempts before a lease (`overtaken_updates_are_lost`). Nothing else is lost. What a call writes, it
has read from a row or brings along; so a bound on the row and on all that is about to be written
there is kept by every turn of a schedule (`Bounded.perform`). From this follow both halves of
`updates_are_kept`. -/

namespace MessageBroker.Store

open Fallible

/-! ### Schedules -/

/-- What a call makes of the message that it reads. -/
inductive Change
  | ack (now : Instant)
  | nack (visibilityTimeoutSeconds : UInt32) (now : Instant)
  deriving DecidableEq

namespace Change

def apply : Change → Message → Message
  | ack now, m => m.ack now
  | nack timeout now, m => m.nack now timeout

def now : Change → Instant
  | ack now | nack _ now => now

/-- The whole call. -/
def operation : Change → String → Operation
  | ack now, id => .ack id now
  | nack timeout now, id => .nack id timeout now

theorem apply_id (c : Change) (m : Message) : (c.apply m).id = m.id := by
  cases c <;> rfl

theorem apply_deliveryAttempts (c : Change) (m : Message) :
    (c.apply m).deliveryAttempts = m.deliveryAttempts := by
  cases c <;> rfl

end Change

/-- What a call has read, and what it makes of it. -/
structure Fetched where
  change : Change
  copy : Message
  deriving DecidableEq

/-- The message as a call is going to write it. -/
def Fetched.written (f : Fetched) : Message := f.change.apply f.copy

/-- A store on which calls are under way, each under a number. -/
structure Underway where
  store : Store
  fetched : Nat → Option Fetched

/-- One half of an acknowledgement or a return, or a whole operation. -/
inductive Turn
  | fetch (call : Nat) (id : String) (change : Change)
  | write (call : Nat)
  | whole (op : Operation)

namespace Turn

/-- What a turn answers, and what is under way after it. A call that has read nothing is over. -/
def perform : Turn → Underway → Except Error Result × Underway
  | fetch n id change, u =>
    let (answer, store) := (getMessage id).on u.store
    (answer.map .message,
      ⟨store, Function.update u.fetched n (answer.toOption.map (Fetched.mk change))⟩)
  | write n, u =>
    match u.fetched n with
    | none => (.ok .done, u)
    | some f =>
      let (answer, store) := (updateMessage f.written).on u.store
      (answer.map fun _ => .done, ⟨store, Function.update u.fetched n none⟩)
  | whole op, u =>
    let (answer, store) := (Store.perform op).on u.store
    (answer, { u with store })

/-- The instants at which calls start in a turn. -/
def clock : Turn → List Instant
  | fetch _ _ change => [change.now]
  | write _ => []
  | whole op => op.clock

/-- The messages that a turn inserts. -/
def inserted : Turn → Underway → List Message
  | whole op, u => (Step.of op u.store).inserted
  | _, _ => []

end Turn

namespace Underway

/-- A store on which no call is under way. -/
def start (s : Store) : Underway := ⟨s, fun _ => none⟩

/-- What is under way after turns in a row. -/
def after (u : Underway) (turns : List Turn) : Underway :=
  turns.foldl (fun u a => (a.perform u).2) u

/-- A condition holds at every turn of a row. -/
def Throughout (p : Underway → Turn → Prop) : Underway → List Turn → Prop
  | _, [] => True
  | u, a :: turns => p u a ∧ Throughout p (a.perform u).2 turns

instance (p : Underway → Turn → Prop) [∀ u a, Decidable (p u a)] (u : Underway)
    (turns : List Turn) : Decidable (u.Throughout p turns) := by
  induction turns generalizing u with
  | nil => exact inferInstanceAs (Decidable True)
  | cons a turns ih => exact @instDecidableAnd _ _ _ (ih _)

/-- No turn inserts a message with an identifier. -/
def NeverInserts (u : Underway) (id : String) (turns : List Turn) : Prop :=
  u.Throughout (fun u a => ∀ m ∈ a.inserted u, m.id ≠ id) turns

/-- A call is under way that has read the message with an identifier. -/
def Holds (u : Underway) (id : String) (f : Fetched) : Prop :=
  (∃ n, u.fetched n = some f) ∧ f.copy.id = id

end Underway

/-! ### The halves of a call -/

section Halves

variable {u : Underway}

theorem perform_fetch (n : Nat) (id : String) (c : Change) (u : Underway) :
    (Turn.fetch n id c).perform u = ((getMessage id u.store).1.map .message,
      ⟨(getMessage id u.store).2, Function.update u.fetched n
        ((getMessage id u.store).1.toOption.map (Fetched.mk c))⟩) := rfl

theorem perform_write_none {n : Nat} (h : u.fetched n = none) :
    (Turn.write n).perform u = (.ok .done, u) := by simp only [Turn.perform, h]

theorem perform_write_some {n : Nat} {f : Fetched} (h : u.fetched n = some f) :
    (Turn.write n).perform u = ((updateMessage f.written u.store).1.map fun _ => .done,
      ⟨(updateMessage f.written u.store).2, Function.update u.fetched n none⟩) := by
  simp only [Turn.perform, h]
  rfl

/-- **The halves of a call make the call**, if no turn of others comes between them. -/
theorem write_fetch_eq (u : Underway) (n : Nat) (id : String) (c : Change) :
    (perform (c.operation id)).on u.store =
      (((Turn.fetch n id c).perform u).1.bind fun _ =>
          ((Turn.write n).perform ((Turn.fetch n id c).perform u).2).1,
        ((Turn.write n).perform ((Turn.fetch n id c).perform u).2).2.store) := by
  have hop : perform (c.operation id) =
      (getMessage id >>= fun m => updateMessage (c.apply m)) >>= fun _ => pure .done := by
    cases c <;> rfl
  have hread : (getMessage id u.store).2 = u.store := reads_get _ _ _ u.store
  rw [hop, Access.on, bind_pure_apply, bind_apply, perform_fetch]
  rcases hget : getMessage id u.store with ⟨e | m, s⟩ <;> rw [hget] at hread
  · rw [perform_write_none (Function.update_self n none u.fetched)]
    rfl
  · rw [perform_write_some (Function.update_self n (some ⟨c, m⟩) u.fetched)]
    rfl

theorem snd_of_updateMessage {s : Store} (h : s.Undisturbed) (m : Message) :
    (updateMessage m s).2 = { s with
      messages := s.messages.map fun r => if r.id = m.id then r.rewritten m else r } := by
  have hrows : (updateMessage m s).2 = TableRow.withRows s ((TableRow.rows s).map
      fun r : MessageRow => if r.id = m.id && true then r.rewritten m else r) :=
    snd_of_requireAffected h _ _ (updateMessageRow_none _ _ _ _)
  simp only [Bool.and_true, decide_eq_true_eq] at hrows
  exact hrows

end Halves

/-! ### Bounds through a schedule -/

/-- A store is keyed, the row with an identifier meets a condition, and what calls have read of it
meets another. -/
structure Bounded (id : String) (R : MessageRow → Prop) (C : Fetched → Prop) (u : Underway) :
    Prop where
  keyed : u.store.Keyed
  rows : ∀ r ∈ u.store.messages, r.id = id → R r
  calls : ∀ f, u.Holds id f → C f

section Turns

variable {u : Underway} {id : String} {R : MessageRow → Prop} {C : Fetched → Prop}

theorem holds_of_update {s : Store} {n : Nat} {fetched : Option Fetched} {f : Fetched}
    (h : Underway.Holds ⟨s, Function.update u.fetched n fetched⟩ id f) :
    u.Holds id f ∨ fetched = some f ∧ f.copy.id = id := by
  obtain ⟨⟨k, hk⟩, hid⟩ := h
  by_cases he : k = n
  · subst he
    exact Or.inr ⟨(Function.update_self k fetched u.fetched).symm.trans hk, hid⟩
  · exact Or.inl ⟨⟨k, (Function.update_of_ne he fetched u.fetched).symm.trans hk⟩, hid⟩

/-- A write leaves rows as they were, but for the one that it writes. -/
theorem Bounded.of_write (h : u.store.Keyed) {n : Nat} {f : Fetched} (hf : u.fetched n = some f)
    (hrows : ∀ r ∈ u.store.messages, r.id = id →
      if f.copy.id = id then R (r.rewritten f.written) else R r)
    (hcalls : ∀ f, u.Holds id f → C f) : Bounded id R C ((Turn.write n).perform u).2 := by
  have hwritten : f.written.id = f.copy.id := f.change.apply_id f.copy
  rw [perform_write_some hf, snd_of_updateMessage h.toUndisturbed, hwritten]
  refine ⟨h.map fun r => ?_, fun r' hr' hid => ?_, fun f' hf' => ?_⟩
  · split_ifs <;> rfl
  · obtain ⟨r, hr, rfl⟩ := List.mem_map.mp hr'
    split_ifs at hid ⊢ with he
    · have hrow := hrows r hr hid
      rwa [if_pos (he.symm.trans hid)] at hrow
    · have hrow := hrows r hr hid
      rwa [if_neg fun hn => he (hid.trans hn.symm)] at hrow
  · rcases holds_of_update hf' with hf' | ⟨hnone, -⟩
    · exact hcalls f' hf'
    · cases hnone

/-- **A turn keeps bounds** that go from a row to what is read from it, from there to what is
written, and through every operation. -/
theorem Bounded.perform (h : Bounded id R C u) (a : Turn)
    (hfetch : ∀ n change, a = .fetch n id change → ∀ r m, R r → r.decode? = some m → C ⟨change, m⟩)
    (hwrite : ∀ (r : MessageRow) f, C f → R (r.rewritten f.written))
    (hwhole : ∀ op, a = .whole op → ∀ r ∈ (Step.of op u.store).after.messages, r.id = id → R r) :
    Bounded id R C (a.perform u).2 := by
  cases a with
  | fetch n id' change =>
    have hread : (getMessage id' u.store).2 = u.store := reads_get _ _ _ u.store
    rw [perform_fetch, hread]
    refine ⟨h.keyed, h.rows, fun f hf => ?_⟩
    rcases holds_of_update hf with hf | ⟨hread, hid⟩
    · exact h.calls f hf
    · rcases hget : getMessage id' u.store with ⟨e | m, s⟩ <;> rw [hget] at hread
      · cases hread
      · cases hread
        obtain ⟨-, r, hr, hrid, hdecode⟩ := of_getMessage h.keyed.toUndisturbed hget
        have hsame : id' = id := by rw [← hid, ← hrid, (MessageRow.decode?_eq_some hdecode).1]
        subst hsame
        exact hfetch n change rfl r m (h.rows r hr hrid) hdecode
  | write n =>
    rcases hf : u.fetched n with _ | f
    · rw [perform_write_none hf]
      exact h
    · refine Bounded.of_write h.keyed hf (fun r hr hid => ?_) h.calls
      split_ifs with he
      · exact hwrite r f (h.calls f ⟨⟨n, hf⟩, he⟩)
      · exact h.rows r hr hid
  | whole op => exact ⟨h.keyed.keyed_after (x := Step.of op u.store), hwhole op rfl, h.calls⟩

end Turns

/-! ### Runs of a schedule -/

section Runs

variable {u : Underway} {turns : List Turn}

theorem after_cons (u : Underway) (a : Turn) (turns : List Turn) :
    u.after (a :: turns) = (a.perform u).2.after turns := rfl

theorem after_append (u : Underway) (l r : List Turn) : u.after (l ++ r) = (u.after l).after r :=
  List.foldl_append

theorem throughout_append {p : Underway → Turn → Prop} {l r : List Turn} :
    u.Throughout p (l ++ r) ↔ u.Throughout p l ∧ (u.after l).Throughout p r := by
  induction l generalizing u with
  | nil => simp [Underway.Throughout, Underway.after]
  | cons a l ih => simp only [List.cons_append, Underway.Throughout, ih, and_assoc, after_cons]

theorem Underway.Throughout.and {p p' : Underway → Turn → Prop} (h : u.Throughout p turns)
    (h' : u.Throughout p' turns) : u.Throughout (fun u a => p u a ∧ p' u a) turns := by
  induction turns generalizing u with
  | nil => trivial
  | cons a turns ih => exact ⟨⟨h.1, h'.1⟩, ih h.2 h'.2⟩

theorem after_of_throughout {p : Underway → Turn → Prop} {P : Underway → Prop} (hP : P u)
    (hp : u.Throughout p turns) (hstep : ∀ u, ∀ a ∈ turns, p u a → P u → P (a.perform u).2) :
    P (u.after turns) := by
  induction turns generalizing u with
  | nil => exact hP
  | cons a turns ih =>
    exact ih (hstep u a List.mem_cons_self hp.1 hP) hp.2
      fun u b hb => hstep u b (List.mem_cons_of_mem _ hb)

theorem throughout_true (u : Underway) (turns : List Turn) :
    u.Throughout (fun _ _ => True) turns := by
  induction turns generalizing u with
  | nil => trivial
  | cons a turns ih => exact ⟨trivial, ih _⟩

theorem keyed_after_turns (h : u.store.Keyed) (turns : List Turn) : (u.after turns).store.Keyed :=
  (after_of_throughout (P := Bounded "" (fun _ => True) fun _ => True)
    ⟨h, fun _ _ _ => trivial, fun _ _ => trivial⟩ (throughout_true u turns) fun _ a _ _ h =>
      h.perform a (fun _ _ _ _ _ _ _ => trivial) (fun _ _ _ => trivial)
        fun _ _ _ _ _ => trivial).keyed

/-- Calls under way have started in one of the turns. -/
theorem now_of_fetched {s : Store} {n : Nat} {f : Fetched}
    (hf : ((Underway.start s).after turns).fetched n = some f) :
    ∃ a ∈ turns, f.change.now ∈ a.clock := by
  refine after_of_throughout (u := Underway.start s) (P := fun u =>
    ∀ n f, u.fetched n = some f → ∃ a ∈ turns, f.change.now ∈ a.clock)
    (fun n f hf => ?_) (throughout_true _ turns) (fun u a ha _ h n f hf => ?_) n f hf
  · cases hf
  · cases a with
    | fetch k id change =>
      rcases holds_of_update ⟨⟨n, hf⟩, rfl⟩ with ⟨⟨n, hf⟩, -⟩ | ⟨hread, -⟩
      · exact h n f hf
      · obtain ⟨m, -, rfl⟩ := Option.map_eq_some_iff.mp hread
        exact ⟨_, ha, List.mem_singleton_self _⟩
    | write k =>
      rcases hk : u.fetched k with _ | g
      · rw [perform_write_none hk] at hf
        exact h n f hf
      · rw [perform_write_some hk] at hf
        rcases holds_of_update ⟨⟨n, hf⟩, rfl⟩ with ⟨⟨n, hf⟩, -⟩ | ⟨hnone, -⟩
        · exact h n f hf
        · cases hnone
    | whole op => exact h n f hf

/-! ### Expiries -/

/-- The row expires no later than an instant. -/
def MessageRow.ExpiresBy (r : MessageRow) (t : Instant) : Prop :=
  ∃ e : Instant, e.HasFourDigitYear ∧ e ≤ t ∧ r.expiredAt = e.stored

/-- The message that a call is going to write expires no later than an instant. -/
def Fetched.ExpiresBy (f : Fetched) (t : Instant) : Prop :=
  f.written.expiredAt.HasFourDigitYear ∧ f.written.expiredAt ≤ t

theorem Fetched.ExpiresBy.rewritten {f : Fetched} {t : Instant} (h : f.ExpiresBy t)
    (r : MessageRow) : (r.rewritten f.written).ExpiresBy t := ⟨_, h.1, h.2, rfl⟩

theorem MessageRow.ExpiresBy.fetched {r : MessageRow} {t : Instant} (h : r.ExpiresBy t)
    {m : Message} (hm : r.decode? = some m) {c : Change} (hyear : c.now.HasFourDigitYear)
    (hnow : c.now ≤ t) : Fetched.ExpiresBy ⟨c, m⟩ t := by
  obtain ⟨e, he, hle, hexpired⟩ := h
  have hread := MessageRow.read?_expiredAt hm
  rw [hexpired, Instant.read?_stored he.isRepresentable] at hread
  cases c with
  | ack now => exact ⟨hyear, hnow⟩
  | nack timeout now =>
    have hsame : e = m.expiredAt := Option.some.inj hread
    exact ⟨hsame ▸ he, hsame ▸ hle⟩

theorem expiresBy_step {x : Step} {id : String} {t : Instant} (h : x.before.Keyed)
    (hinserted : ∀ m ∈ x.inserted, m.id ≠ id)
    (hclock : ∀ now ∈ x.operation.clock, now.HasFourDigitYear ∧ now ≤ t)
    (hexpires : ∀ r ∈ x.before.messages, r.id = id → r.ExpiresBy t) :
    ∀ r ∈ x.after.messages, r.id = id → r.ExpiresBy t := by
  rintro r' hr' rfl
  obtain ⟨r, hr, hrewrite⟩ := h.exists_of_mem_after hr' hinserted
  obtain ⟨e, he, hle, hexpired⟩ := hexpires r hr (Step.key_of_rewrite hrewrite).1.symm
  rcases expiredAt_of_rewrite he.isRepresentable hrewrite hexpired with hsame | ⟨now, hop, hsame⟩
  · exact ⟨e, he, hle, hsame⟩
  · obtain ⟨hyear, hnow⟩ := hclock now (by simp [hop, Operation.clock])
    exact ⟨now, hyear, hnow, hsame⟩

theorem not_leased_of_expiresBy {x : Step} {id : String} (h : x.before.Keyed)
    (hclock : ∀ now ∈ x.operation.clock, now.HasFourDigitYear ∧
      ∀ r ∈ x.before.messages, r.id = id → r.ExpiresBy now) : ∀ m ∈ x.leased, m.id ≠ id := by
  intro m hm hid
  obtain ⟨q, label, limit, now, l, hop, hl, ⟨c, hc, rfl⟩, -⟩ := h.exists_of_leased hm
  obtain ⟨r, hr, hdecode, -, -, hvisible⟩ := (h.readCandidates_rows hl).2 c hc
  obtain ⟨hyear, hexpires⟩ := hclock now (by simp [hop, Operation.clock])
  obtain ⟨e, he, hle, hexpired⟩ :=
    hexpires r hr ((MessageRow.decode?_eq_some hdecode).1.symm.trans hid)
  rw [MessageRow.isVisible, hexpired, Bool.and_eq_true] at hvisible
  exact absurd ((Instant.lt_stored_iff hyear he).mp hvisible.2) (Int.not_lt.mpr hle)

theorem Bounded.expiresBy {id : String} {t : Instant}
    (h : Bounded id (·.ExpiresBy t) (·.ExpiresBy t) u) (hno : u.NeverInserts id turns)
    (hclock : ∀ a ∈ turns, ∀ now ∈ a.clock, now.HasFourDigitYear ∧ now ≤ t) :
    Bounded id (·.ExpiresBy t) (·.ExpiresBy t) (u.after turns) := by
  refine after_of_throughout h hno fun u a ha hinserted h => h.perform a ?_ ?_ ?_
  · rintro n change rfl r m hr hdecode
    obtain ⟨hyear, hnow⟩ := hclock _ ha _ (List.mem_singleton_self _)
    exact hr.fetched hdecode hyear hnow
  · exact fun r f hf => hf.rewritten r
  · rintro op rfl
    exact expiresBy_step (x := Step.of op u.store) h.keyed hinserted (hclock _ ha) h.rows

/-! ### Attempts -/

/-- Turns keep a bound on the attempts of the row and of all that has been read of it. -/
theorem Bounded.attempts {id : String} {n : Nat}
    (h : Bounded id (fun r => ∀ k, r.deliveryAttempts = .ofWord k → n ≤ k.toNat)
      (fun f => n ≤ f.copy.deliveryAttempts.toNat) u)
    (hno : u.Throughout (fun u a => u.store.BelowMax ∧ ∀ m ∈ a.inserted u, m.id ≠ id) turns) :
    (u.after turns).store.AttemptsFrom id n := by
  refine (after_of_throughout h hno fun u a _ ha h => h.perform a ?_ ?_ ?_).rows
  · rintro k change rfl r m hr hdecode
    exact hr _ (MessageRow.decode?_eq_some hdecode).2.2.2.2
  · intro r f hf k hk
    have hword : f.written.deliveryAttempts = k := Cell.ofWord_inj hk
    rwa [← hword, Fetched.written, Change.apply_deliveryAttempts]
  · rintro op rfl
    exact (h.keyed.step (x := Step.of op u.store) ha.1).attemptsFrom h.rows ha.2

end Runs

/-! ### What is kept -/

theorem clock_le {turns l r : List Turn} {a b : Turn}
    (hascends : (turns.flatMap Turn.clock).Pairwise (· ≤ ·)) (hsplit : turns = l ++ b :: r)
    (ha : a ∈ l) {t t' : Instant} (ht : t ∈ a.clock) (ht' : t' ∈ b.clock) : t ≤ t' := by
  rw [hsplit, List.flatMap_append, List.flatMap_cons, List.pairwise_append] at hascends
  refine hascends.2.2 t ?_ t' (List.mem_append_left _ ht')
  exact List.mem_flatMap.mpr ⟨a, ha, ht⟩

/-- **Updates that are not overtaken are kept.** Calls start in the order of their instants, on a
store on which none is under way. When an acknowledgement is written and no return under way has
read the message, the message expires by every instant that is reached from then on, and no lease
answers it any more. When no call under way has read fewer attempts of a message than are stored,
the stored attempts never become fewer. -/
theorem updates_are_kept {s : Store} (h : s.Keyed) {turns before after : List Turn}
    (hyears : ∀ a ∈ turns, ∀ t ∈ a.clock, t.HasFourDigitYear)
    (hascends : (turns.flatMap Turn.clock).Pairwise (· ≤ ·)) (hsplit : turns = before ++ after)
    {u : Underway} (hu : (Underway.start s).after before = u) {id : String}
    (hno : u.NeverInserts id after) :
    (∀ n m t rest, after = .write n :: rest → u.fetched n = some ⟨.ack t, m⟩ → m.id = id →
      (∀ f, u.Holds id f → ∃ t', f.change = .ack t') →
      ∀ l r, rest = l ++ r →
        (∀ T, (∀ a ∈ before ++ .write n :: l, ∀ t' ∈ a.clock, t' ≤ T) →
          ∀ row ∈ (u.after (.write n :: l)).store.messages, row.id = id →
            ∃ e ≤ T, row.expiredAt = e.stored) ∧
        ∀ op r', r = .whole op :: r' →
          ∀ m' ∈ (Step.of op (u.after (.write n :: l)).store).leased, m'.id ≠ id) ∧
    (u.Throughout (fun u _ => u.store.BelowMax) after → ∀ n, u.store.HasAttempts id n →
      (∀ f, u.Holds id f → n.toNat ≤ f.copy.deliveryAttempts.toNat) →
      ∀ l r, after = l ++ r → ∀ n', (u.after l).store.HasAttempts id n' → n.toNat ≤ n'.toNat) := by
  have hkeyed : u.store.Keyed := hu ▸ keyed_after_turns (u := Underway.start s) h before
  constructor
  · rintro n m t rest rfl hf hid hacks l r rfl
    have hsplit' : turns = (before ++ .write n :: l) ++ r := by simp [hsplit]
    have hnol : ((Turn.write n).perform u).2.NeverInserts id l := (throughout_append.mp hno.2).1
    -- the bound by an instant that no turn has passed yet
    have hbounded : ∀ T, (∀ a ∈ before ++ .write n :: l, ∀ t' ∈ a.clock, t' ≤ T) →
        Bounded id (·.ExpiresBy T) (·.ExpiresBy T) (u.after (.write n :: l)) := by
      intro T hT
      have hclock : ∀ a ∈ before ++ .write n :: l, ∀ t' ∈ a.clock,
          t'.HasFourDigitYear ∧ t' ≤ T := by
        intro a ha t' ht'
        rw [hsplit'] at hyears
        exact ⟨hyears a (List.mem_append_left _ ha) t' ht', hT a ha t' ht'⟩
      have hcalls : ∀ f, u.Holds id f → f.ExpiresBy T := by
        rintro ⟨change, copy⟩ hholds
        obtain ⟨t', rfl⟩ := hacks _ hholds
        obtain ⟨⟨k, hk⟩, -⟩ := hholds
        obtain ⟨a, ha, hnow⟩ := now_of_fetched (hu ▸ hk)
        exact hclock a (List.mem_append_left _ ha) t' hnow
      have hwritten : Bounded id (·.ExpiresBy T) (·.ExpiresBy T) ((Turn.write n).perform u).2 := by
        refine Bounded.of_write hkeyed hf (fun row _ _ => ?_) hcalls
        rw [if_pos hid]
        exact (hcalls _ ⟨⟨n, hf⟩, hid⟩).rewritten row
      rw [after_cons]
      exact hwritten.expiresBy hnol fun a ha => hclock a (by simp [ha])
    refine ⟨fun T hT row hrow hrid => ?_, ?_⟩
    · obtain ⟨e, -, hle, hexpired⟩ := (hbounded T hT).rows row hrow hrid
      exact ⟨e, hle, hexpired⟩
    · rintro op r' rfl
      refine not_leased_of_expiresBy (x := Step.of op _)
        (keyed_after_turns hkeyed (.write n :: l)) fun now hnow => ⟨?_, ?_⟩
      · exact hyears (.whole op) (by simp [hsplit]) now hnow
      · exact (hbounded now fun a ha t' ht' => clock_le hascends hsplit' ha ht' hnow).rows
  · rintro hbelow n hn hcalls l r rfl n' ⟨row, hrow, hrid, hattempts⟩
    have hbounded : Bounded id (fun r => ∀ k, r.deliveryAttempts = .ofWord k → n.toNat ≤ k.toNat)
        (fun f => n.toNat ≤ f.copy.deliveryAttempts.toNat) u :=
      ⟨hkeyed, hn.attemptsFrom hkeyed, hcalls⟩
    have hboth := (throughout_append.mp hbelow).1.and (throughout_append.mp hno).1
    exact hbounded.attempts hboth row hrow hrid n' hattempts

/-- A message is acknowledged, then returned, both in halves, and asked for. -/
def returnedLate : List Turn :=
  [.whole (.createMessage sampleMessage), .fetch 0 "a" (.ack (Instant.epoch.addSeconds 1)),
    .write 0, .fetch 1 "a" (.nack 0 (Instant.epoch.addSeconds 2)), .write 1,
    .whole (.lease sampleQueue none 1 (Instant.epoch.addSeconds 3))]

/-- A return that reads the message after its acknowledgement leaves it expired. -/
theorem returnedLate_is_not_leased : (returnedLate.flatMap Turn.clock).Pairwise (· ≤ ·) ∧
    ∀ m ∈ (Step.of (.lease sampleQueue none 1 (Instant.epoch.addSeconds 3))
      ((Underway.start empty).after (returnedLate.take 5)).store).leased, m.id ≠ "a" := by
  have hyears : ∀ a ∈ returnedLate, ∀ t ∈ a.clock, t.HasFourDigitYear := by decide +kernel
  have hascends : (returnedLate.flatMap Turn.clock).Pairwise (· ≤ ·) := by decide +kernel
  have hno : ((Underway.start empty).after (returnedLate.take 2)).NeverInserts "a"
      (returnedLate.drop 2) := by
    unfold Underway.NeverInserts
    decide +kernel
  have hfetched : ((Underway.start empty).after (returnedLate.take 2)).fetched 0 =
      some ⟨.ack (Instant.epoch.addSeconds 1), sampleMessage⟩ := by decide +kernel
  have hacks : ∀ f, ((Underway.start empty).after (returnedLate.take 2)).Holds "a" f →
      ∃ t, f.change = .ack t := by
    intro f hf
    have hlast : (Underway.start empty).after (returnedLate.take 2) =
        ((Turn.fetch 0 "a" (.ack (Instant.epoch.addSeconds 1))).perform
          ((Underway.start empty).after (returnedLate.take 1))).2 := rfl
    rw [hlast, perform_fetch] at hf
    rcases holds_of_update hf with ⟨⟨n, hn⟩, -⟩ | ⟨hread, -⟩
    · cases hn
    · obtain ⟨m, -, rfl⟩ := Option.map_eq_some_iff.mp hread
      exact ⟨_, rfl⟩
  have hkept := (updates_are_kept keyed_empty hyears hascends rfl rfl hno).1 0 sampleMessage _ _ rfl
    hfetched rfl hacks [.fetch 1 "a" (.nack 0 (Instant.epoch.addSeconds 2)), .write 1] _ rfl
  have htake : returnedLate.take 5 = returnedLate.take 2 ++
      [.write 0, .fetch 1 "a" (.nack 0 (Instant.epoch.addSeconds 2)), .write 1] := rfl
  rw [htake, after_append]
  exact ⟨hascends, hkept.2 _ [] rfl⟩

/-- A return reads a message, which is acknowledged before the return is written. -/
def overtakenByAck : List Turn :=
  [.whole (.createMessage sampleMessage), .fetch 0 "a" (.nack 0 .epoch),
    .fetch 1 "a" (.ack (Instant.epoch.addSeconds 1)), .write 1, .write 0,
    .whole (.lease sampleQueue none 1 (Instant.epoch.addSeconds 2))]

/-- A return reads a message, which is leased before the return is written. -/
def overtakenByLease : List Turn :=
  [.whole (.createMessage sampleMessage), .fetch 0 "a" (.nack 0 .epoch),
    .whole (.lease sampleQueue none 1 .epoch), .write 0]

/-- The acknowledgement succeeds, and the message is leased after it. The attempt of the other lease
is counted, and is not any more. -/
theorem overtaken_updates_are_lost :
    ((overtakenByAck.flatMap Turn.clock).Pairwise (· ≤ ·) ∧
      ((Turn.write 1).perform ((Underway.start empty).after (overtakenByAck.take 3))).1 =
        .ok .done ∧
      ∃ m ∈ (Step.of (.lease sampleQueue none 1 (Instant.epoch.addSeconds 2))
        ((Underway.start empty).after (overtakenByAck.take 5)).store).leased, m.id = "a") ∧
    (overtakenByLease.flatMap Turn.clock).Pairwise (· ≤ ·) ∧
      ((Underway.start empty).after (overtakenByLease.take 3)).store.HasAttempts "a" 1 ∧
      ((Underway.start empty).after overtakenByLease).store.HasAttempts "a" 0 := by
  unfold HasAttempts
  exact ⟨⟨by decide +kernel, by decide +kernel, by decide +kernel⟩, by decide +kernel,
    by decide +kernel, by decide +kernel⟩

end MessageBroker.Store

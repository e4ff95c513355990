import Mathlib
import MessageBroker.Error

/-! # Computations that can fail

A computation answers a result or an error together with the state as it is then, also if it fails.
`Answers a s refusal` says which error, if any, and a sequence refuses what its parts refuse, in
order (`Answers.bind`). `Preserves view a` says that a computation leaves a part of the state as it
was, `Atomic view a` that it does so whenever it fails. A sequence is atomic if at most its last
part that can fail changes anything. -/

namespace MessageBroker

/-- A computation on a state. -/
abbrev Fallible (σ α : Type) : Type := ExceptT Error (StateM σ) α

namespace Fallible

variable {σ τ α β : Type}

/-! ### Steps of a computation -/

/-- What succeeds as a whole succeeds in its first part. -/
theorem exists_of_bind_ok {ε : Type} {x : Except ε α} {f : α → Except ε β} {b : β}
    (h : (x >>= f) = .ok b) : ∃ v, x = .ok v ∧ f v = .ok b := by
  rcases x with _ | v
  · cases h
  · exact ⟨v, rfl, h⟩

theorem bind_apply (a : Fallible σ α) (f : α → Fallible σ β) (s : σ) :
    (a >>= f) s = match a s with
      | (.ok v, s') => f v s'
      | (.error e, s') => (.error e, s') := by
  have h : (a >>= f) s = ExceptT.bindCont f (a s).1 (a s).2 := rfl
  rw [h]
  rcases a s with ⟨_ | v, s'⟩ <;> rfl

theorem bind_ok {a : Fallible σ α} {s s' : σ} {v : α} (h : a s = (.ok v, s'))
    (f : α → Fallible σ β) : (a >>= f) s = f v s' := by
  rw [bind_apply, h]

theorem bind_error {a : Fallible σ α} {s s' : σ} {e : Error} (h : a s = (.error e, s'))
    (f : α → Fallible σ β) : (a >>= f) s = (.error e, s') := by
  rw [bind_apply, h]

/-- A sequence that succeeds is one whose parts succeed. -/
theorem exists_of_bind_apply {a : Fallible σ α} {f : α → Fallible σ β} {s s' : σ} {w : β}
    (h : (a >>= f) s = (.ok w, s')) : ∃ v s₁, a s = (.ok v, s₁) ∧ f v s₁ = (.ok w, s') := by
  rw [bind_apply] at h
  rcases ha : a s with ⟨e | v, s₁⟩ <;> rw [ha] at h
  · cases h
  · exact ⟨v, s₁, rfl, h⟩

theorem pure_apply (v : α) (s : σ) : (pure v : Fallible σ α) s = (.ok v, s) := rfl

theorem bind_pure_apply (a : Fallible σ α) (g : α → β) (s : σ) :
    (a >>= fun v => pure (g v)) s = ((a s).1.map g, (a s).2) := by
  rw [bind_apply]
  rcases a s with ⟨_ | v, s'⟩ <;> rfl

/-! ### What a computation answers -/

/-- The computation fails with the refusal, if there is one, and succeeds otherwise. -/
def Answers (a : Fallible σ α) (s : σ) (refusal : Option Error) : Prop :=
  match refusal with
  | some e => (a s).1 = .error e
  | none => ∃ v, (a s).1 = .ok v

theorem answers_of_ok {a : Fallible σ α} {s s' : σ} {v : α} (h : a s = (.ok v, s')) :
    Answers a s none := ⟨v, congrArg Prod.fst h⟩

theorem answers_of_error {a : Fallible σ α} {s s' : σ} {e : Error} (h : a s = (.error e, s')) :
    Answers a s (some e) := congrArg Prod.fst h

theorem Answers.bind {a : Fallible σ α} {f : α → Fallible σ β} {s : σ} {r r' : Option Error}
    (ha : Answers a s r) (hf : r = none → ∀ v s', a s = (.ok v, s') → Answers (f v) s' r') :
    Answers (a >>= f) s (r.or r') := by
  cases r with
  | some e =>
    have hanswer : a s = (.error e, (a s).2) := Prod.ext ha rfl
    exact answers_of_error (bind_error hanswer f)
  | none =>
    obtain ⟨v, hv⟩ := ha
    have hanswer : a s = (.ok v, (a s).2) := Prod.ext hv rfl
    have hrest := hf rfl v _ hanswer
    unfold Answers at hrest ⊢
    rw [Option.none_or, bind_ok hanswer f]
    exact hrest

theorem Answers.bind_none {a : Fallible σ α} {f : α → Fallible σ β} {s : σ} {r : Option Error}
    (ha : Answers a s r) (hf : r = none → ∀ v s', a s = (.ok v, s') → Answers (f v) s' none) :
    Answers (a >>= f) s r := by
  have hbind := ha.bind (f := f) hf
  rw [Option.or_none] at hbind
  exact hbind

theorem Answers.bind_pure {a : Fallible σ α} {s : σ} {r : Option Error} (h : Answers a s r)
    (g : α → β) : Answers (a >>= fun v => pure (g v)) s r :=
  h.bind_none fun _ v _ _ => ⟨g v, rfl⟩

theorem Answers.eq_some {a : Fallible σ α} {s : σ} {r : Option Error} (h : Answers a s r)
    {e : Error} (he : (a s).1 = .error e) : r = some e := by
  cases r with
  | some e' =>
    have hanswer : (a s).1 = .error e' := h
    rw [hanswer] at he
    rw [Except.error.inj he]
  | none =>
    obtain ⟨v, hv⟩ := h
    rw [hv] at he
    cases he

theorem exists_answers (a : Fallible σ α) (s : σ) : ∃ r, Answers a s r := by
  rcases h : a s with ⟨e | v, s'⟩
  · exact ⟨some e, answers_of_error h⟩
  · exact ⟨none, answers_of_ok h⟩

/-- If the computation fails, then with an error of a kind. -/
def FailsOnly (kind : Error → Prop) (a : Fallible σ α) (s : σ) : Prop :=
  ∀ e, (a s).1 = .error e → kind e

theorem Answers.failsOnly {a : Fallible σ α} {s : σ} (h : Answers a s none)
    (kind : Error → Prop) : FailsOnly kind a s := by
  intro e he
  cases h.eq_some he

theorem failsOnly_pure (kind : Error → Prop) (v : α) (s : σ) :
    FailsOnly kind (pure v : Fallible σ α) s := (answers_of_ok (pure_apply v s)).failsOnly kind

theorem FailsOnly.bind {kind : Error → Prop} {a : Fallible σ α} {f : α → Fallible σ β} {s : σ}
    (ha : FailsOnly kind a s) (hf : ∀ v s', a s = (.ok v, s') → FailsOnly kind (f v) s') :
    FailsOnly kind (a >>= f) s := by
  intro e he
  rw [bind_apply] at he
  rcases h : a s with ⟨e' | v, s'⟩ <;> rw [h] at he
  · obtain rfl : e' = e := Except.error.inj he
    exact ha e' (congrArg Prod.fst h)
  · exact hf v s' h e he

theorem FailsOnly.bind_pure {kind : Error → Prop} {a : Fallible σ α} {s : σ}
    (h : FailsOnly kind a s) (g : α → β) : FailsOnly kind (a >>= fun v => pure (g v)) s :=
  h.bind fun v s' _ => failsOnly_pure kind (g v) s'

/-! ### What remains of a state -/

/-- The computation leaves a part of the state as it was. -/
def Preserves (view : σ → τ) (a : Fallible σ α) : Prop := ∀ s, view (a s).2 = view s

/-- The computation leaves a part of the state as it was if it fails. -/
def Atomic (view : σ → τ) (a : Fallible σ α) : Prop :=
  ∀ s e, (a s).1 = .error e → view (a s).2 = view s

variable {view : σ → τ} {a : Fallible σ α} {f : α → Fallible σ β}

theorem Preserves.atomic (h : Preserves view a) : Atomic view a := fun s _ _ => h s

theorem Preserves.part (h : Preserves id a) : Preserves view a := fun s => congrArg view (h s)

theorem preserves_pure (v : α) : Preserves view (pure v) := fun _ => rfl

theorem preserves_throw (e : Error) : Preserves (α := α) view (throw e) := fun _ => rfl

theorem Preserves.bind (ha : Preserves view a) (hf : ∀ v, Preserves view (f v)) :
    Preserves view (a >>= f) := by
  intro s
  have hs := ha s
  rw [bind_apply]
  rcases h : a s with ⟨e | v, s'⟩ <;> rw [h] at hs
  · exact hs
  · exact (hf v s').trans hs

theorem Preserves.bind_pure (h : Preserves view a) (g : α → β) :
    Preserves view (a >>= fun v => pure (g v)) := h.bind fun v => preserves_pure (g v)

/-- What changes nothing may precede what is atomic. -/
theorem Preserves.bind_atomic (ha : Preserves view a) (hf : ∀ v, Atomic view (f v)) :
    Atomic view (a >>= f) := by
  intro s e he
  have hs := ha s
  rw [bind_apply] at he ⊢
  rcases h : a s with ⟨e' | v, s'⟩ <;> rw [h] at hs he
  · exact hs
  · exact (hf v s' e he).trans hs

theorem Atomic.bind (ha : Atomic view a) (hf : ∀ v s e, (f v s).1 ≠ .error e) :
    Atomic view (a >>= f) := by
  intro s e he
  have hs := ha s
  rw [bind_apply] at he ⊢
  rcases h : a s with ⟨e' | v, s'⟩ <;> rw [h] at hs he
  · exact hs e' rfl
  · exact absurd he (hf v s' e)

theorem Atomic.bind_pure (ha : Atomic view a) (g : α → β) :
    Atomic view (a >>= fun v => pure (g v)) := ha.bind fun v s e he => by
  rw [pure_apply] at he
  simp at he

end Fallible

end MessageBroker

import MessageBroker.Proofs.Text.Bytes
import MessageBroker.Text.Decimal

/-! # Decimal numerals are read back and ordered

`takeDigits_append`: a run of digits that nothing continues is read as its number (`value`). The
numerals `padded` and `atLeast` are runs of digits (`digits_padded`, `digits_atLeast`) with the
numbers that they write (`value_padded`, `value_atLeast`). Numerals of one width are ordered like
their numbers (`padded_lt_padded`). A text is read as a number up to a limit if and only if it is a
numeral of such a number, with a plus sign or without (`read_eq_ok_iff`). -/

namespace MessageBroker.Text.Decimal

/-- A run of digits. -/
def Digits (l : List Char) : Prop := ∀ c ∈ l, (digit? c).isSome = true

/-- The characters do not begin with a digit. -/
def NoDigit (l : List Char) : Prop := ∀ c ∈ l.head?, digit? c = none

/-- The number of a run of digits. -/
def value (l : List Char) : Nat := l.foldl (fun n c => n * 10 + (digit? c).getD 0) 0

theorem Digits.append {l m : List Char} (hl : Digits l) (hm : Digits m) : Digits (l ++ m) :=
  fun c hc => (List.mem_append.mp hc).elim (hl c) (hm c)

theorem Digits.isAscii {l : List Char} (h : Digits l) : IsAscii l := by
  intro c hc
  have := h c hc
  unfold digit? at this
  split at this
  · omega
  · simp at this

theorem NoDigit.takeWhile {l : List Char} (h : NoDigit l) :
    l.takeWhile (fun c => (digit? c).isSome) = [] := by
  cases l with
  | nil => rfl
  | cons c r => simp [h c rfl]

/-- A run of digits is read up to its end, if it is as long as can be or nothing continues it. -/
theorem takeDigits_append {most : Nat} {l rest : List Char} (hl : Digits l)
    (hle : l.length ≤ most) (hrest : l.length = most ∨ NoDigit rest) :
    takeDigits most (l ++ rest) = (value l, l.length, rest) := by
  have htake : ((l ++ rest).take most).takeWhile (fun c => (digit? c).isSome) = l := by
    rw [List.take_append, List.take_of_length_le hle, List.takeWhile_append_of_pos hl]
    have : (rest.take (most - l.length)).takeWhile (fun c => (digit? c).isSome) = [] := by
      rcases hrest with h | h
      · simp [h]
      · refine NoDigit.takeWhile fun c hc => h c ?_
        cases rest with
        | nil => simp at hc
        | cons d r =>
          rw [List.head?_take] at hc
          split at hc
          · simp at hc
          · exact hc
    rw [this, List.append_nil]
  simp only [takeDigits, htake, value, List.drop_left]

/-! ### Numerals of a fixed width -/

theorem isSome_digit?_digitChar (d : Nat) : (digit? (digitChar d)).isSome = true := by
  rw [digit?_digitChar]
  rfl

theorem digits_padded (width n : Nat) : Digits (padded width n) := by
  induction width generalizing n with
  | zero => exact fun c hc => absurd hc List.not_mem_nil
  | succ w ih =>
    refine (ih _).append fun c hc => ?_
    rw [List.mem_singleton.mp hc]
    exact isSome_digit?_digitChar n

theorem value_padded (width n : Nat) : value (padded width n) = n % 10 ^ width := by
  induction width generalizing n with
  | zero => simp [padded, value, Nat.mod_one]
  | succ w ih =>
    have h := ih (n / 10)
    simp only [value, padded, List.foldl_append, List.foldl_cons, List.foldl_nil,
      digit?_digitChar, Option.getD_some] at h ⊢
    rw [h, Nat.pow_succ', Nat.mod_mul]
    omega

theorem value_padded_of_lt {width n : Nat} (h : n < 10 ^ width) : value (padded width n) = n := by
  rw [value_padded, Nat.mod_eq_of_lt h]

theorem padded_add (v w n : Nat) : padded (v + w) n = padded v (n / 10 ^ w) ++ padded w n := by
  induction w generalizing n with
  | zero => simp [padded]
  | succ w ih =>
    rw [← Nat.add_assoc, padded, ih, padded, Nat.div_div_eq_div_mul, ← Nat.pow_succ',
      List.append_assoc]

theorem padded_mod (width n : Nat) : padded width (n % 10 ^ width) = padded width n := by
  induction width generalizing n with
  | zero => rfl
  | succ w ih =>
    have hdiv : n % 10 ^ (w + 1) / 10 = n / 10 % 10 ^ w := by
      rw [Nat.pow_succ', Nat.mod_mul_right_div_self]
    have hchar : digitChar (n % 10 ^ (w + 1)) = digitChar n := by
      rw [digitChar, digitChar, Nat.pow_succ', Nat.mod_mul_right_mod]
    rw [padded, padded, hdiv, ih, hchar]

theorem digitChar_lt {d e : Nat} (h : d % 10 < e % 10) : digitChar d < digitChar e := by
  have hnat : (digitChar d).toNat < (digitChar e).toNat := by
    have hd := digit?_digitChar d
    have he := digit?_digitChar e
    unfold digit? at hd he
    split at hd <;> split at he <;> simp only [Option.some.injEq, reduceCtorEq] at hd he
    omega
  exact hnat

/-- **Numerals of one width are ordered like their numbers.** -/
theorem padded_lt_padded {width m n : Nat} (h : m < n) (hn : n < 10 ^ width) :
    padded width m < padded width n := by
  induction width generalizing m n with
  | zero => simp at hn; omega
  | succ w ih =>
    rw [Nat.pow_succ'] at hn
    have hlen : (padded w (m / 10)).length = (padded w (n / 10)).length := by
      rw [length_padded, length_padded]
    rcases Nat.lt_or_ge (m / 10) (n / 10) with hlt | hge
    · exact append_lt_append hlen (ih hlt (by omega)) _ _
    · have heq : m / 10 = n / 10 := by omega
      rw [padded, padded, heq]
      exact List.append_left_lt (List.cons_lt_cons_iff.mpr (Or.inl (digitChar_lt (by omega))))

/-! ### Numerals of a least width -/

theorem value_eq_ofDigitChars {l : List Char} (h : Digits l) :
    value l = Nat.ofDigitChars 10 l 0 := by
  suffices key : ∀ init, l.foldl (fun n c => n * 10 + (digit? c).getD 0) init =
      Nat.ofDigitChars 10 l init from key 0
  induction l with
  | nil => exact fun init => rfl
  | cons c r ih =>
    intro init
    have hc : (digit? c).getD 0 = c.toNat - 48 := by
      have := h c List.mem_cons_self
      unfold digit? at this ⊢
      split at this
      · next hr => rw [if_pos hr]; rfl
      · simp at this
    rw [List.foldl_cons, ih (fun d hd => h d (List.mem_cons_of_mem _ hd)), hc,
      Nat.ofDigitChars_cons, Nat.mul_comm]
    rfl

theorem digits_numeral (n : Nat) : Digits (numeral n) := by
  intro c hc
  have h := Nat.isDigit_of_mem_toDigits (by decide) (by decide) hc
  have hr : 48 ≤ c.toNat ∧ c.toNat ≤ 57 := by
    simpa [Char.isDigit, UInt32.le_iff_toNat_le] using h
  rw [digit?, if_pos hr]
  rfl

theorem digits_atLeast (width n : Nat) : Digits (atLeast width n) := by
  refine Digits.append (fun c hc => ?_) (digits_numeral n)
  rw [List.eq_of_mem_replicate hc]
  rfl

theorem value_atLeast (width n : Nat) : value (atLeast width n) = n := by
  rw [value_eq_ofDigitChars (digits_atLeast width n), atLeast, Nat.ofDigitChars_append,
    Nat.ofDigitChars_replicate_zero, Nat.mul_zero]
  exact Nat.ofDigitChars_ten_toDigits

theorem length_atLeast_pos (width n : Nat) : 0 < (atLeast width n).length := by
  have : 0 < (numeral n).length := Nat.length_toDigits_pos
  simp only [atLeast, List.length_append]
  omega

/-! ### Numerals with a sign -/

/-- A text that writes a number: one or more digits, which a plus sign can stand in front of. -/
def IsNumeral (s : String) (n : Nat) : Prop :=
  ∃ l, (s.toList = l ∨ s.toList = '+' :: l) ∧ l ≠ [] ∧ Digits l ∧ value l = n

theorem le_foldl_digits (l : List Char) (n : Nat) :
    n ≤ l.foldl (fun n c => n * 10 + (digit? c).getD 0) n := by
  induction l generalizing n with
  | nil => exact Nat.le_refl n
  | cons c r ih =>
    have := ih (n * 10 + (digit? c).getD 0)
    rw [List.foldl_cons]
    omega

theorem digits_cons {c : Char} {l : List Char} :
    Digits (c :: l) ↔ (digit? c).isSome = true ∧ Digits l := List.forall_mem_cons

/-- Digits are read on from a number within the limit, if they do not leave it. -/
theorem readDigits_eq_ok_iff {limit start n : Nat} {l : List Char} (h : start ≤ limit) :
    readDigits limit start l = .ok n ↔
      Digits l ∧ l.foldl (fun n c => n * 10 + (digit? c).getD 0) start = n ∧ n ≤ limit := by
  induction l generalizing start with
  | nil =>
    rw [readDigits, Except.ok.injEq, List.foldl_nil]
    constructor
    · rintro rfl
      exact ⟨fun c hc => absurd hc List.not_mem_nil, rfl, h⟩
    · rintro ⟨-, hn, -⟩
      exact hn
  | cons c r ih =>
    rw [readDigits, List.foldl_cons, digits_cons]
    cases hc : digit? c with
    | none => simp
    | some d =>
      simp only [Option.isSome_some, true_and, Option.getD_some]
      split_ifs with hlimit
      · -- later digits make the number no smaller
        refine iff_of_false (fun h => by cases h) ?_
        rintro ⟨-, hn, hle⟩
        have := le_foldl_digits r (start * 10 + d)
        omega
      · exact ih (Nat.le_of_not_lt hlimit)

/-- **A text is read if and only if it is a numeral of a number within the limit.** -/
theorem read_eq_ok_iff {limit n : Nat} {s : String} :
    read limit s = .ok n ↔ IsNumeral s n ∧ n ≤ limit := by
  have hsign : ¬Digits ['+'] := by simp [Digits, digit?]
  unfold read IsNumeral
  split
  · next hs => simp [hs]
  · next hs =>
    refine iff_of_false (fun h => by cases h) ?_
    rintro ⟨⟨l, hl | hl, hne, hdigits, -⟩, -⟩
    · exact hsign (hs ▸ hl ▸ hdigits)
    · exact hne (List.cons.inj (hl.symm.trans hs)).2
  · next r hne hs =>
    rw [readDigits_eq_ok_iff (Nat.zero_le limit), ← and_assoc]
    refine and_congr_left' ⟨fun ⟨hr, hn⟩ => ⟨r, .inr hs, fun he => hne (he ▸ rfl), hr, hn⟩, ?_⟩
    rintro ⟨l, hl | hl, -, hdigits, hn⟩
    · exact absurd (digits_cons.mp (hl.symm.trans hs ▸ hdigits)).1 (by simp [digit?])
    · obtain rfl : l = r := (List.cons.inj (hl.symm.trans hs)).2
      exact ⟨hdigits, hn⟩
  · next hempty hplus hsome =>
    rw [readDigits_eq_ok_iff (Nat.zero_le limit), ← and_assoc]
    refine and_congr_left' ⟨fun ⟨hr, hn⟩ => ⟨_, .inl rfl, hempty, hr, hn⟩, ?_⟩
    rintro ⟨l, hl | hl, -, hdigits, hn⟩
    · exact hl ▸ ⟨hdigits, hn⟩
    · exact absurd hl (hsome l)

theorem IsNumeral.eq {s : String} {m n : Nat} (hm : IsNumeral s m) (hn : IsNumeral s n) :
    m = n := by
  have hread := read_eq_ok_iff.mpr ⟨hm, Nat.le_max_left m n⟩
  rw [read_eq_ok_iff.mpr ⟨hn, Nat.le_max_right m n⟩] at hread
  exact (Except.ok.inj hread).symm

end MessageBroker.Text.Decimal

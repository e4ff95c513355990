import MessageBroker.Text.Decimal

/-! # Identifiers of messages

Every new message gets an identifier of its own from a source that issues none twice. One such
source is `Source.serials`: its identifiers are version 7 UUIDs in lower case, whose digits after
the version count the identifiers issued. They sort in the order of their issue. -/

namespace MessageBroker.Identifier

/-- A source of identifiers. -/
structure Source where
  /-- The identifier issued after `n` others. -/
  issue : Nat → String
  /-- No identifier is issued twice. -/
  injective : ∀ {m n : Nat}, issue m = issue n → m = n

/-! ### Serial identifiers

The digits of a serial identifier determine the number of its issue, whatever that is: the last
twelve have a fixed width, and those before the last dash are a numeral with zeros in front. -/

/-- The last `width` hexadecimal digits of a number. -/
def hexDigits : Nat → Nat → List Char
  | 0, _ => []
  | width + 1, n => hexDigits width (n / 16) ++ [Nat.digitChar (n % 16)]

/-- The hexadecimal digits of a number, with zeros in front up to three. -/
def hexNumeral (n : Nat) : List Char :=
  List.replicate (3 - (Nat.toDigits 16 n).length) '0' ++ Nat.toDigits 16 n

/-- The digits in front of the counter: a time, the version, and the variant. -/
def stem : String := "018bcfe5-6800-7c5d-9"

/-- The identifier issued after `n` others. -/
def ofSerial (n : Nat) : String :=
  stem ++ String.ofList (hexNumeral (n / Nat.pow 16 12) ++ ['-'] ++ hexDigits 12 n)

/-- The number that a hexadecimal digit stands for. -/
def hexDigit (c : Char) : Nat := if c.toNat < 97 then c.toNat - 48 else c.toNat - 87

/-- The number that continues another with hexadecimal digits. -/
def hexValue (n : Nat) (l : List Char) : Nat := l.foldl (fun n c => n * 16 + hexDigit c) n

theorem hexValue_append (n : Nat) (l m : List Char) :
    hexValue n (l ++ m) = hexValue (hexValue n l) m := List.foldl_append

theorem hexDigit_digitChar : ∀ d < 16, hexDigit (Nat.digitChar d) = d := by decide

theorem hexValue_digit {n d : Nat} (h : d < 16) : hexValue n [Nat.digitChar d] = n * 16 + d :=
  congrArg (n * 16 + ·) (hexDigit_digitChar d h)

theorem hexValue_hexDigits (width n : Nat) :
    hexValue 0 (hexDigits width n) = n % Nat.pow 16 width := by
  induction width generalizing n with
  | zero => exact (Nat.mod_one n).symm
  | succ width ih =>
    have hpow : Nat.pow 16 (width + 1) = 16 * Nat.pow 16 width := Nat.pow_succ'
    rw [hexDigits, hexValue_append, ih, hexValue_digit (Nat.mod_lt n (by decide)), hpow,
      Nat.mod_mul]
    omega

theorem length_hexDigits (width n : Nat) : (hexDigits width n).length = width := by
  induction width generalizing n with
  | zero => rfl
  | succ width ih => rw [hexDigits, List.length_append, ih]; rfl

theorem hexValue_toDigits (n : Nat) : hexValue 0 (Nat.toDigits 16 n) = n := by
  induction n using Nat.strongRecOn with
  | _ n ih =>
    rw [Nat.toDigits_eq_if (by decide)]
    split
    · next hn => rw [hexValue_digit hn, Nat.zero_mul, Nat.zero_add]
    · rw [hexValue_append, ih (n / 16) (by omega), hexValue_digit (Nat.mod_lt n (by decide))]
      omega

theorem hexValue_hexNumeral (n : Nat) : hexValue 0 (hexNumeral n) = n := by
  have hzeros (k : Nat) : hexValue 0 (List.replicate k '0') = 0 := by
    induction k with
    | zero => rfl
    | succ k ih => exact ih
  rw [hexNumeral, hexValue_append, hzeros, hexValue_toDigits]

/-- **Every identifier is issued once.** -/
theorem ofSerial_injective {m n : Nat} (h : ofSerial m = ofSerial n) : m = n := by
  have hchars : hexNumeral (m / Nat.pow 16 12) ++ ['-'] ++ hexDigits 12 m =
      hexNumeral (n / Nat.pow 16 12) ++ ['-'] ++ hexDigits 12 n := by
    have hlist := congrArg String.toList h
    rw [ofSerial, ofSerial, String.toList_append, String.toList_append, String.toList_ofList,
      String.toList_ofList] at hlist
    exact List.append_cancel_left hlist
  obtain ⟨hfront, hdigits⟩ := List.append_inj' hchars (by rw [length_hexDigits, length_hexDigits])
  have hlow : m % Nat.pow 16 12 = n % Nat.pow 16 12 := by
    rw [← hexValue_hexDigits, hdigits, hexValue_hexDigits]
  have hhigh : m / Nat.pow 16 12 = n / Nat.pow 16 12 := by
    have hnumeral := List.append_cancel_right hfront
    rw [← hexValue_hexNumeral (m / Nat.pow 16 12), hnumeral, hexValue_hexNumeral]
  rw [← Nat.div_add_mod m (Nat.pow 16 12), hlow, hhigh, Nat.div_add_mod]

/-- The source of serial identifiers. -/
def Source.serials : Source := ⟨ofSerial, ofSerial_injective⟩

/-! ### The form of identifiers -/

/-- Whether characters have a given form, in which `x` stands for a digit in lower case and `y` for
one of the digits from `8` to `b`. -/
def hasForm : List Char → List Char → Bool
  | [], [] => true
  | f :: fs, c :: cs =>
    (if f = 'x' then c.isDigit || ('a'.toNat ≤ c.toNat && c.toNat ≤ 'f'.toNat)
      else if f = 'y' then ['8', '9', 'a', 'b'].contains c
      else f = c) && hasForm fs cs
  | _, _ => false

/-- The form of an identifier. -/
def form : String := "xxxxxxxx-xxxx-7xxx-yxxx-xxxxxxxxxxxx"

/-- Whether a text has the form of an identifier. -/
def isIdentifier (s : String) : Bool := hasForm form.toList s.toList

end MessageBroker.Identifier

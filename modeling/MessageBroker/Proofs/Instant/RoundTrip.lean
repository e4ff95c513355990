import MessageBroker.Instant.Text
import MessageBroker.Proofs.Instant.Calendar
import MessageBroker.Proofs.Text.Decimal

/-! # Written instants are read back

Every representable instant is what its written form is read as, in storage (`read?_stored`) and in
answers (`read?_shown`). The reader takes the fields in the order in which they were written; each
lemma below says what it makes of one field in front of what follows it. -/

namespace MessageBroker.Instant

open Text Text.Decimal

/-! ### Numbers -/

theorem isBlank_of_digit {c : Char} (h : (digit? c).isSome = true) : isBlank c = false := by
  unfold digit? at h
  split at h
  · next hr =>
    simp only [isBlank, Bool.or_eq_false_iff, Bool.and_eq_false_iff, decide_eq_false_iff_not]
    omega
  · simp at h

theorem trimStart_append {l : List Char} (hl : Digits l) (hpos : 0 < l.length)
    (rest : List Char) : trimStart (l ++ rest) = l ++ rest := by
  cases l with
  | nil => simp at hpos
  | cons c r => exact trimStart_cons (isBlank_of_digit (hl c List.mem_cons_self)) _

theorem number?_append {most : Nat} {l rest : List Char} (hl : Digits l) (hpos : 0 < l.length)
    (hle : l.length ≤ most) (hrest : l.length = most ∨ NoDigit rest) :
    number? most (l ++ rest) = some (value l, rest) := by
  rw [number?, trimStart_append hl hpos, takeDigits_append hl hle hrest]
  exact if_neg (by omega)

theorem number?_padded {w n : Nat} (hw : 0 < w) (hn : n < 10 ^ w)
    (rest : List Char) : number? w (padded w n ++ rest) = some (n, rest) := by
  have hlen := length_padded w n
  rw [number?_append (digits_padded w n) (by omega) (by omega) (Or.inl hlen),
    value_padded_of_lt hn]

theorem noDigit_cons {c : Char} (h : digit? c = none) (l : List Char) : NoDigit (c :: l) := by
  intro d hd
  cases hd
  exact h

/-! ### Years and dates -/

theorem year?_padded {n : Nat} (hn : n < 10000) (rest : List Char) :
    year? (padded 4 n ++ rest) = some ((n : Int), rest) := by
  have hd := digits_padded 4 n
  have hlen := length_padded 4 n
  rw [year?, trimStart_append hd (by omega)]
  cases hp : padded 4 n with
  | nil => rw [hp] at hlen; simp at hlen
  | cons c r =>
    have hc := hd c (by rw [hp]; exact List.mem_cons_self)
    have hread := number?_padded (w := 4) (by decide) hn rest
    rw [hp] at hread
    rw [List.cons_append] at hread ⊢
    split
    · next h => cases h; simp [digit?] at hc
    · next h => cases h; simp [digit?] at hc
    · rw [hread]; rfl

theorem year?_yearText (y : Int) (rest : List Char) :
    year? (yearText y ++ '-' :: rest) = some (y, '-' :: rest) := by
  unfold yearText
  split
  · rw [year?_padded (by omega)]
    simp only [Option.some.injEq, Prod.mk.injEq, and_true]
    omega
  · next hy =>
    have hread : number? (atLeast 4 y.natAbs ++ '-' :: rest).length
        (atLeast 4 y.natAbs ++ '-' :: rest) = some (y.natAbs, '-' :: rest) := by
      rw [number?_append (digits_atLeast _ _) (length_atLeast_pos _ _)
        (by rw [List.length_append]; omega) (Or.inr (noDigit_cons (by decide) rest)), value_atLeast]
    split
    · rw [year?, List.cons_append, trimStart_cons (by decide)]
      simp only [hread, Option.map_some, Option.some.injEq, Prod.mk.injEq, and_true]
      omega
    · rw [year?, List.cons_append, trimStart_cons (by decide)]
      simp only [hread, Option.map_some, Option.some.injEq, Prod.mk.injEq, and_true]
      omega

theorem date?_written {d : Date} (h : d.isValid = true) (rest : List Char) :
    date? (yearText d.year ++ '-' :: (padded 2 d.month ++ '-' :: (padded 2 d.day ++ rest))) =
      some (d, rest) := by
  have hbounds : d.month < 100 ∧ d.day < 100 := by
    simp only [Date.isValid, Bool.and_eq_true, decide_eq_true_eq] at h
    obtain ⟨⟨⟨-, hm⟩, -⟩, hd⟩ := h
    have h31 : Date.daysInMonth d.year d.month ≤ 31 := by
      unfold Date.daysInMonth
      split_ifs <;> omega
    omega
  simp only [date?, year?_yearText, after?, if_true, Option.bind_eq_bind, Option.bind_some,
    number?_padded (w := 2) (by decide) hbounds.1,
    number?_padded (w := 2) (by decide) hbounds.2]
  exact if_pos h

/-! ### Times -/

theorem fraction?_fractionText {n : Nat} (hn : n < 1000000000) {c : Char} (hc : c ≠ '.')
    (hd : digit? c = none) (rest : List Char) :
    fraction? (fractionText n ++ c :: rest) = some (n, c :: rest) := by
  have hstop : (c :: rest).dropWhile (fun c => (digit? c).isSome) = c :: rest := by
    simp [hd]
  have point {width k : Nat} (hw : 0 < width) (hle : width ≤ 9) (hk : k < 10 ^ width)
      (he : k * 10 ^ (9 - width) = n) :
      fraction? ('.' :: (padded width k ++ c :: rest)) = some (n, c :: rest) := by
    have hlen := length_padded width k
    have hread : takeDigits 9 (padded width k ++ c :: rest) = (k, width, c :: rest) := by
      rw [takeDigits_append (digits_padded width k) (by rw [hlen]; exact hle)
        (Or.inr (noDigit_cons hd rest)), value_padded_of_lt hk, hlen]
    simp only [fraction?, hread, if_neg (show width ≠ 0 by omega), hstop, Nat.pow_eq, he]
  unfold fractionText
  split_ifs with h0 h6 h3
  · subst h0
    simp only [List.nil_append, fraction?]
    split
    · next h => cases h; exact absurd rfl hc
    · rfl
  · exact point (by decide) (by decide) (by omega) (by omega)
  · exact point (by decide) (by decide) (by omega) (by omega)
  · exact point (by decide) (by decide) (by omega) (by omega)

theorem time?_written {s n : Nat} (hs : s < 86400) (hn : n < 1000000000) {c : Char}
    (hc : c ≠ '.') (hd : digit? c = none) (rest : List Char) :
    time? (padded 2 (s / 3600) ++ ':' :: (padded 2 (s / 60 % 60) ++ ':' :: (padded 2 (s % 60) ++
      (fractionText n ++ c :: rest)))) = some (s, n, c :: rest) := by
  simp only [time?, after?, if_true, Option.bind_eq_bind, Option.bind_some,
    number?_padded (w := 2) (n := s / 3600) (by decide) (by omega),
    number?_padded (w := 2) (n := s / 60 % 60) (by decide) (by omega),
    number?_padded (w := 2) (n := s % 60) (by decide) (by omega),
    fraction?_fractionText hn hc hd]
  rw [if_pos (by omega)]
  simp only [Option.some.injEq, Prod.mk.injEq, and_true]
  omega

/-- An instant is read back with any spelling of the offset, which does not continue a number. -/
theorem read?_localText {t : Instant} (h : t.IsRepresentable) {c : Char} {rest : List Char}
    (hc : c ≠ '.') (hd : digit? c = none) (hoffset : offset? (c :: rest) = some 0) :
    read? (String.ofList (t.localText ++ c :: rest)) = some t := by
  have hdate : t.date.isValid = true := Date.isValid_ofDays _
  have hday : t.secondOfDay < 86400 := by unfold secondOfDay secondsPerDay; omega
  have hback : ofDate t.date ((t.secondOfDay : Int) - 0) t.subsecond = t := by
    have hseconds : t.date.toDays * (secondsPerDay : Int) + t.secondOfDay = t.seconds := by
      rw [date, Date.toDays_ofDays]
      unfold secondOfDay secondsPerDay
      omega
    rw [ofDate, Int.sub_zero, hseconds, ofParts_seconds_subsecond]
  have htext : t.localText ++ c :: rest = yearText t.date.year ++ '-' ::
      (padded 2 t.date.month ++ '-' :: (padded 2 t.date.day ++ 'T' ::
        (padded 2 (t.secondOfDay / 3600) ++ ':' :: (padded 2 (t.secondOfDay / 60 % 60) ++ ':' ::
          (padded 2 (t.secondOfDay % 60) ++ (fractionText t.subsecond ++ c :: rest)))))) := by
    rw [localText]
    simp only [List.append_assoc, List.cons_append, List.nil_append]
  rw [read?, String.toList_ofList, htext, date?_written hdate]
  simp only [Option.bind_eq_bind, Option.bind_some, separator?, true_or, if_true,
    time?_written hday (subsecond_lt t) hc hd, hoffset, hback]
  exact if_pos h

/-- **A stored instant is read back.** -/
theorem read?_stored {t : Instant} (h : t.IsRepresentable) : read? t.stored = some t :=
  read?_localText h (by decide) (by decide) (by decide)

/-- **A shown instant is read back.** -/
theorem read?_shown {t : Instant} (h : t.IsRepresentable) : read? t.shown = some t :=
  read?_localText h (by decide) (by decide) rfl

end MessageBroker.Instant

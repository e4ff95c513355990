import MessageBroker.Instant.Text
import MessageBroker.Proofs.Instant.Calendar
import MessageBroker.Proofs.Text.Decimal

/-! # The order of stored instants

Within the years 0 to 9999 stored instants are compared as texts exactly like the instants
themselves (`lt_stored_iff`, `le_stored_iff`). Every field but the fraction has a fixed width, so
the first field in which two texts differ decides. A fraction may be shorter than another; what
follows it, the plus sign of the offset, precedes the point and every digit. -/

namespace MessageBroker.Instant

open Text Text.Decimal

/-- Within the years 0 to 9999. -/
def HasFourDigitYear (t : Instant) : Prop := 0 ≤ t.date.year ∧ t.date.year ≤ 9999

instance (t : Instant) : Decidable t.HasFourDigitYear :=
  inferInstanceAs (Decidable (_ ∧ _))

theorem le_addSeconds (t : Instant) (n : Nat) : t ≤ t.addSeconds n := by
  rw [le_def]
  show t.nanos ≤ t.nanos + n * 1000000000
  omega

/-! ### Fields -/

theorem field_lt {width m n : Nat} {x y : List Char} (hn : n < 10 ^ width)
    (h : m < n ∨ m = n ∧ x < y) : padded width m ++ x < padded width n ++ y := by
  rcases h with h | ⟨rfl, h⟩
  · refine append_lt_append ?_ (padded_lt_padded h hn) x y
    rw [length_padded, length_padded]
  · exact List.append_left_lt h

theorem lt_padded_append {c : Char} (hc : c.toNat < 48) {width : Nat} (hw : 0 < width) (n : Nat)
    (x y : List Char) : c :: x < padded width n ++ y := by
  obtain ⟨w, rfl⟩ : ∃ w, width = w + 1 := ⟨width - 1, by omega⟩
  have hd := digits_padded (w + 1) n
  have hlen := length_padded (w + 1) n
  cases hp : padded (w + 1) n with
  | nil => rw [hp] at hlen; simp at hlen
  | cons d r =>
    have hsome := hd d (by rw [hp]; exact List.mem_cons_self)
    have hlt : c.toNat < d.toNat := by
      unfold digit? at hsome
      split at hsome
      · omega
      · simp at hsome
    exact List.cons_lt_cons_iff.mpr (Or.inl hlt)

/-- A fraction in groups of three digits, of which trailing zeros are left out. -/
theorem fractionText_eq (k : Nat) : fractionText k =
    if k = 0 then [] else '.' :: (padded 3 (k / 1000000) ++
      if k % 1000000 = 0 then [] else padded 3 (k / 1000 % 1000) ++
        if k % 1000 = 0 then [] else padded 3 (k % 1000)) := by
  have h3 (n : Nat) : padded 3 (n % 1000) = padded 3 n := padded_mod 3 n
  have hpow3 : 10 ^ 3 = 1000 := rfl
  have hpow6 : 10 ^ 6 = 1000000 := rfl
  have h6 : padded 6 (k / 1000) = padded 3 (k / 1000000) ++ padded 3 (k / 1000) := by
    rw [padded_add 3 3, hpow3, Nat.div_div_eq_div_mul]
  have h9 : padded 9 k = padded 3 (k / 1000000) ++ (padded 3 (k / 1000) ++ padded 3 k) := by
    rw [padded_add 3 6, padded_add 3 3, hpow3, hpow6]
  rw [fractionText, h3, h3]
  by_cases h0 : k = 0
  · rw [if_pos h0, if_pos h0]
  rw [if_neg h0, if_neg h0]
  by_cases hm : k % 1000000 = 0
  · rw [if_pos hm, if_pos hm, List.append_nil]
  rw [if_neg hm, if_neg hm]
  by_cases ht : k % 1000 = 0
  · rw [if_pos ht, if_pos ht, h6, List.append_nil]
  · rw [if_neg ht, if_neg ht, h9]

theorem fractionText_lt {m n : Nat} (h : m < n) (hn : n < 1000000000) (z : List Char) :
    fractionText m ++ '+' :: z < fractionText n ++ '+' :: z := by
  rw [fractionText_eq, fractionText_eq, if_neg (show n ≠ 0 by omega)]
  by_cases h0 : m = 0
  · rw [if_pos h0]
    exact List.cons_lt_cons_iff.mpr (Or.inl (by decide))
  rw [if_neg h0]
  rw [List.cons_append, List.cons_append]
  refine List.cons_lt_cons_iff.mpr (Or.inr ⟨rfl, ?_⟩)
  rw [List.append_assoc, List.append_assoc]
  refine field_lt (by omega) ?_
  rcases Nat.lt_or_ge (m / 1000000) (n / 1000000) with hlt | hge
  · exact Or.inl hlt
  refine Or.inr ⟨by omega, ?_⟩
  rw [if_neg (show n % 1000000 ≠ 0 by omega)]
  by_cases hm : m % 1000000 = 0
  · rw [if_pos hm, List.append_assoc]
    exact lt_padded_append (by decide) (by decide) _ _ _
  rw [if_neg hm, List.append_assoc, List.append_assoc]
  refine field_lt (by omega) ?_
  rcases Nat.lt_or_ge (m / 1000 % 1000) (n / 1000 % 1000) with hlt | hge
  · exact Or.inl hlt
  refine Or.inr ⟨by omega, ?_⟩
  rw [if_neg (show n % 1000 ≠ 0 by omega)]
  by_cases ht : m % 1000 = 0
  · rw [if_pos ht]
    exact lt_padded_append (by decide) (by decide) _ _ _
  rw [if_neg ht]
  exact field_lt (by omega) (Or.inl (by omega))

/-! ### Whole texts -/

theorem stored_eq {t : Instant} (h : t.HasFourDigitYear) : t.stored = String.ofList
    (padded 4 t.date.year.toNat ++ '-' :: (padded 2 t.date.month ++ '-' :: (padded 2 t.date.day ++
      'T' :: (padded 2 (t.secondOfDay / 3600) ++ ':' :: (padded 2 (t.secondOfDay / 60 % 60) ++
        ':' :: (padded 2 (t.secondOfDay % 60) ++ (fractionText t.subsecond ++
          '+' :: ['0', '0', ':', '0', '0']))))))) := by
  have hyear : yearText t.date.year = padded 4 t.date.year.toNat := if_pos h
  rw [stored, localText, hyear]
  simp only [List.append_assoc, List.cons_append, List.nil_append]

theorem isAscii_fractionText (n : Nat) : IsAscii (fractionText n) := by
  have point {l : List Char} (hl : IsAscii l) : IsAscii ('.' :: l) := fun c hc =>
    (List.mem_cons.mp hc).elim (fun h => h ▸ by decide) (hl c)
  unfold fractionText
  split
  · exact fun c hc => absurd hc List.not_mem_nil
  · split
    · exact point (digits_padded _ _).isAscii
    · split <;> exact point (digits_padded _ _).isAscii

theorem isAscii_storedChars (y mo d h mi s n : Nat) : IsAscii (padded 4 y ++ '-' :: (padded 2 mo ++
    '-' :: (padded 2 d ++ 'T' :: (padded 2 h ++ ':' :: (padded 2 mi ++ ':' :: (padded 2 s ++
      (fractionText n ++ '+' :: ['0', '0', ':', '0', '0']))))))) := by
  have field (w k : Nat) : IsAscii (padded w k) := (digits_padded w k).isAscii
  have mark {c : Char} (hc : c.toNat < 128) {l : List Char} (hl : IsAscii l) :
      IsAscii (c :: l) := fun d hd => (List.mem_cons.mp hd).elim (fun e => e ▸ hc) (hl d)
  refine (field 4 y).append (mark (by decide) ((field 2 mo).append (mark (by decide)
    ((field 2 d).append (mark (by decide) ((field 2 h).append (mark (by decide)
      ((field 2 mi).append (mark (by decide) ((field 2 s).append
        ((isAscii_fractionText n).append ?_)))))))))))
  intro c hc
  simp only [List.mem_cons, List.not_mem_nil, or_false] at hc
  rcases hc with rfl | rfl | rfl | rfl | rfl | rfl <;> decide

theorem date_bounds (t : Instant) : t.date.month < 100 ∧ t.date.day < 100 := by
  have h := Date.isValid_ofDays (t.seconds / secondsPerDay)
  simp only [Date.isValid, Bool.and_eq_true, decide_eq_true_eq] at h
  obtain ⟨⟨⟨-, hm⟩, -⟩, hd⟩ := h
  have h31 : Date.daysInMonth t.date.year t.date.month ≤ 31 := by
    unfold Date.daysInMonth
    split_ifs <;> omega
  exact ⟨Nat.lt_of_le_of_lt hm (by decide),
    Nat.lt_of_le_of_lt (le_trans hd h31) (by decide)⟩

theorem lt_cases {a b : Instant} (h : a < b) : a.date.Earlier b.date ∨ a.date = b.date ∧
    (a.secondOfDay < b.secondOfDay ∨ a.secondOfDay = b.secondOfDay ∧
      a.subsecond < b.subsecond) := by
  have hn : a.nanos < b.nanos := h
  rcases lt_or_ge (a.seconds / secondsPerDay) (b.seconds / secondsPerDay) with hd | hd
  · exact Or.inl (Date.earlier_ofDays hd)
  · unfold seconds secondsPerDay at hd
    have hday : a.seconds / secondsPerDay = b.seconds / secondsPerDay := by
      unfold seconds secondsPerDay
      omega
    refine Or.inr ⟨by rw [date, date, hday], ?_⟩
    unfold secondOfDay subsecond seconds secondsPerDay at *
    omega

theorem secondOfDay_lt (t : Instant) : t.secondOfDay < 86400 := by
  unfold secondOfDay secondsPerDay
  omega

theorem year_mono {a b : Instant} (h : a ≤ b) : a.date.year ≤ b.date.year := by
  rcases Int.lt_or_eq_of_le (le_def.mp h) with hlt | heq
  · rcases lt_cases hlt with (hy | ⟨hy, -⟩) | ⟨hdate, -⟩
    · exact le_of_lt hy
    · exact le_of_eq hy
    · exact le_of_eq (congrArg Date.year hdate)
  · rw [show a = b by cases a; cases b; simp_all]

theorem HasFourDigitYear.isRepresentable {t : Instant} (h : t.HasFourDigitYear) :
    t.IsRepresentable := by
  have hfirst : first.date.year < 0 := by decide
  have hlast : 9999 < last.date.year := by decide
  constructor <;> by_contra hn
  · have hyear := year_mono (Int.le_of_lt (Int.not_le.mp hn))
    have h0 := h.1
    omega
  · have hyear := year_mono (Int.le_of_lt (Int.not_le.mp hn))
    have h9 := h.2
    omega

theorem HasFourDigitYear.nanos_lt {t : Instant} (h : t.HasFourDigitYear) :
    t.nanos < 253402300800 * 1000000000 := by
  have hend : (ofParts 253402300800 0).date.year = 10000 := by decide
  by_contra hn
  have hle : ofParts 253402300800 0 ≤ t := by
    rw [le_def, ofParts]
    dsimp only
    omega
  have hyear := year_mono hle
  have h9 := h.2
  omega

/-- An instant within these years stays representable for any number of seconds of 32 bits. -/
theorem HasFourDigitYear.isRepresentable_addSeconds {t : Instant} (h : t.HasFourDigitYear)
    (n : UInt32) : (t.addSeconds n.toNat).IsRepresentable := by
  have hn := n.toNat_lt
  have hend := h.nanos_lt
  refine ⟨Int.le_trans h.isRepresentable.1 (le_addSeconds t n.toNat), ?_⟩
  rw [le_def, addSeconds, last, ofParts]
  dsimp only
  omega

/-- **Stored instants are ordered like instants**, within the years 0 to 9999. -/
theorem lt_stored {a b : Instant} (ha : a.HasFourDigitYear) (hb : b.HasFourDigitYear)
    (h : a < b) : lt a.stored b.stored = true := by
  rw [stored_eq ha, stored_eq hb]
  refine lt_ofList (isAscii_storedChars _ _ _ _ _ _ _) (isAscii_storedChars _ _ _ _ _ _ _) ?_
  have step {c : Char} {x y : List Char} (hxy : x < y) : c :: x < c :: y :=
    List.cons_lt_cons_iff.mpr (Or.inr ⟨rfl, hxy⟩)
  obtain ⟨hmonth, hday⟩ := date_bounds b
  have hsec := secondOfDay_lt b
  have hsub := subsecond_lt b
  obtain ⟨ha0, -⟩ := ha
  obtain ⟨hb0, hb9⟩ := hb
  refine field_lt (by omega) ?_
  rcases lt_cases h with (hy | ⟨hy, hm | ⟨hm, hd⟩⟩) | ⟨hdate, htime⟩
  · exact Or.inl (by omega)
  · exact Or.inr ⟨by rw [hy], step (field_lt hmonth (Or.inl hm))⟩
  · exact Or.inr ⟨by rw [hy], step (field_lt hmonth (Or.inr ⟨hm,
      step (field_lt hday (Or.inl hd))⟩))⟩
  · rw [hdate]
    refine Or.inr ⟨rfl, step (field_lt hmonth (Or.inr ⟨rfl, step (field_lt hday (Or.inr ⟨rfl,
      step (field_lt (by omega) ?_)⟩))⟩))⟩
    rcases htime with hlt | ⟨heq, hlt⟩
    · rcases Nat.lt_or_ge (a.secondOfDay / 3600) (b.secondOfDay / 3600) with h1 | h1
      · exact Or.inl h1
      refine Or.inr ⟨by omega, step (field_lt (by omega) ?_)⟩
      rcases Nat.lt_or_ge (a.secondOfDay / 60 % 60) (b.secondOfDay / 60 % 60) with h2 | h2
      · exact Or.inl h2
      · exact Or.inr ⟨by omega, step (field_lt (by omega) (Or.inl (by omega)))⟩
    · rw [heq]
      exact Or.inr ⟨rfl, step (field_lt (by omega) (Or.inr ⟨rfl, step (field_lt (by omega)
        (Or.inr ⟨rfl, fractionText_lt hlt hsub _⟩))⟩))⟩

theorem lt_stored_iff {a b : Instant} (ha : a.HasFourDigitYear) (hb : b.HasFourDigitYear) :
    lt a.stored b.stored = true ↔ a < b := by
  refine ⟨fun h => ?_, lt_stored ha hb⟩
  by_contra hn
  have hle : b.nanos ≤ a.nanos := Int.not_lt.mp hn
  rcases Int.lt_or_eq_of_le hle with hlt | heq
  · exact lt_iff.mp (lt_stored hb ha hlt) (le_of_lt h)
  · rw [show a = b by cases a; cases b; simp_all] at h
    exact lt_irrefl _ h

theorem le_stored_iff {a b : Instant} (ha : a.HasFourDigitYear) (hb : b.HasFourDigitYear) :
    le a.stored b.stored = true ↔ a ≤ b := by
  have h := lt_stored_iff hb ha
  rw [lt_iff] at h
  exact (not_iff_not.mp (h.trans Int.not_le.symm))

end MessageBroker.Instant

import Mathlib
import MessageBroker.Instant.Calendar

/-! # The calendar counts days

`toDays_ofDays`: the date of a day names that day again, and by `isValid_ofDays` the calendar has
it. Dates are ordered by year, month and day (`Earlier`), and an earlier day has an earlier date
(`earlier_ofDays`).

A cycle of 400 years is the only part of the conversion that divides by no constant: `yearOfCycle`
is monotone, so its values at the ends of the 400 years decide all others. -/

namespace MessageBroker.Instant.Date

/-! ### Years of a cycle -/

theorem yearOfCycle_le_succ (d : Nat) : yearOfCycle d ≤ yearOfCycle (d + 1) := by
  have h (n : Nat) : n / 146096 = n / 36524 / 4 := by rw [Nat.div_div_eq_div_mul]
  have h1 : d - d / 1460 ≤ d + 1 - (d + 1) / 1460 := by omega
  have h2 : d / 36524 ≤ (d + 1) / 36524 := Nat.div_le_div_right (by omega)
  unfold yearOfCycle
  refine Nat.div_le_div_right ?_
  rw [h, h]
  omega

theorem yearOfCycle_mono {d e : Nat} (h : d ≤ e) : yearOfCycle d ≤ yearOfCycle e :=
  monotone_nat_of_le_succ yearOfCycle_le_succ h

theorem yearOfCycle_ends : ∀ y < 400,
    yearOfCycle (daysBeforeYear y) = y ∧ yearOfCycle (daysBeforeYear (y + 1) - 1) = y := by
  decide +kernel

theorem yearOfCycle_lt {d : Nat} (h : d < daysPerCycle) : yearOfCycle d < 400 := by
  unfold daysPerCycle at h
  unfold yearOfCycle
  omega

theorem daysBeforeYear_yearOfCycle_le {d : Nat} (h : d < daysPerCycle) :
    daysBeforeYear (yearOfCycle d) ≤ d := by
  have hy := yearOfCycle_lt h
  generalize hyd : yearOfCycle d = y at hy
  by_contra hlt
  have hpos : 0 < y := by
    by_contra h0
    obtain rfl : y = 0 := by omega
    simp [daysBeforeYear] at hlt
  have hle : d ≤ daysBeforeYear (y - 1 + 1) - 1 := by rw [Nat.sub_add_cancel hpos]; omega
  have := yearOfCycle_mono hle
  rw [(yearOfCycle_ends (y - 1) (by omega)).2, hyd] at this
  omega

/-- The last year of a cycle has the last day of the cycle besides those that the count of later
years leaves to it. -/
theorem lt_daysBeforeYear_succ {d : Nat} (h : d < daysPerCycle) :
    d < daysBeforeYear (yearOfCycle d + 1) ∨ yearOfCycle d = 399 ∧ d = 146096 := by
  have hy := yearOfCycle_lt h
  generalize hyd : yearOfCycle d = y at hy
  by_contra hn
  simp only [not_or, not_lt] at hn
  rcases Nat.lt_or_ge (y + 1) 400 with hlt | hge
  · have := yearOfCycle_mono hn.1
    rw [(yearOfCycle_ends (y + 1) hlt).1, hyd] at this
    omega
  · obtain rfl : y = 399 := by omega
    have h1 : (146096 : Nat) ≤ d := hn.1
    unfold daysPerCycle at h
    omega

/-- A year counted from March has a 366th day only if it ends with a leap day. -/
theorem dayOfYear_lt {d : Nat} (h : d < daysPerCycle) :
    d - daysBeforeYear (yearOfCycle d) < 365 ∨ d - daysBeforeYear (yearOfCycle d) = 365 ∧
      (yearOfCycle d + 1) % 4 = 0 ∧
        ((yearOfCycle d + 1) % 100 ≠ 0 ∨ (yearOfCycle d + 1) % 400 = 0) := by
  have hy := yearOfCycle_lt h
  have hle := daysBeforeYear_yearOfCycle_le h
  rcases lt_daysBeforeYear_succ h with hlt | ⟨h399, hd⟩
  · generalize yearOfCycle d = y at *
    unfold daysBeforeYear at *
    omega
  · rw [h399, hd]
    right
    decide

/-! ### Months of a year -/

/-- The months of a year that starts in March, by the days of it: the month, and the day in it. -/
theorem month_of_day : ∀ d < 366,
    (5 * d + 2) / 153 < 12 ∧ daysBeforeMonth ((5 * d + 2) / 153) ≤ d ∧
      d < daysBeforeMonth ((5 * d + 2) / 153 + 1) ∧
      ((5 * d + 2) / 153 = 11 → d - daysBeforeMonth 11 + 1 ≤ 29 ∧
        (d < 365 → d - daysBeforeMonth 11 + 1 ≤ 28)) := by
  decide +kernel

/-- The month of the calendar that is `march` months after a March. -/
def monthFrom (march : Nat) : Nat := if march < 10 then march + 3 else march - 9

theorem daysInMonth_of_ne_two (year : Int) : ∀ march < 11,
    daysInMonth year (monthFrom march) = daysBeforeMonth (march + 1) - daysBeforeMonth march := by
  intro march h
  interval_cases march <;> rfl

theorem isLeap_iff {y : Int} :
    isLeap y = true ↔ y % 4 = 0 ∧ (y % 100 ≠ 0 ∨ y % 400 = 0) := by
  simp [isLeap]

/-! ### Dates and days -/

theorem ofDays_eq (n : Int) : ∃ (cycle : Int) (d y march day : Nat),
    n = cycle * 146097 + d - 719468 ∧ d < 146097 ∧ y < 400 ∧ march < 12 ∧
      d = daysBeforeYear y + daysBeforeMonth march + day ∧
      day < daysBeforeMonth (march + 1) - daysBeforeMonth march ∧
      (march = 11 → day < if isLeap (cycle * 400 + y + 1) then 29 else 28) ∧
      ofDays n = ⟨cycle * 400 + y + (if monthFrom march ≤ 2 then 1 else 0), monthFrom march,
        day + 1⟩ := by
  set cycle := (n + daysToEpoch) / daysPerCycle with hcycle
  set d := ((n + daysToEpoch) % daysPerCycle).toNat with hd
  have hdlt : d < daysPerCycle := by unfold daysPerCycle at *; omega
  have hle := daysBeforeYear_yearOfCycle_le hdlt
  have hdoy := dayOfYear_lt hdlt
  obtain ⟨hm1, hm2, hm3, hm4⟩ := month_of_day (d - daysBeforeYear (yearOfCycle d)) (by omega)
  set e := d - daysBeforeYear (yearOfCycle d) with he
  set march := (5 * e + 2) / 153 with hmarch
  refine ⟨cycle, d, yearOfCycle d, march, e - daysBeforeMonth march, ?_, hdlt,
    yearOfCycle_lt hdlt, hm1, by omega, by omega, fun h11 => ?_, rfl⟩
  · unfold daysPerCycle daysToEpoch at *; omega
  · obtain ⟨h29, h28⟩ := hm4 h11
    rw [h11]
    split
    · omega
    · next hleap =>
      rcases hdoy with hlt | ⟨-, hleap'⟩
      · have := h28 hlt; omega
      · exact absurd (isLeap_iff.mpr (by omega)) hleap

theorem monthFrom_bounds {march : Nat} (h : march < 12) :
    1 ≤ monthFrom march ∧ monthFrom march ≤ 12 := by
  unfold monthFrom
  split <;> omega

theorem isValid_ofDays (n : Int) : (ofDays n).isValid = true := by
  obtain ⟨cycle, d, y, march, day, -, -, -, hm, -, hday, hfeb, he⟩ := ofDays_eq n
  obtain ⟨h1, h12⟩ := monthFrom_bounds hm
  rw [he]
  simp only [isValid, Bool.and_eq_true, decide_eq_true_eq]
  refine ⟨⟨⟨h1, h12⟩, by omega⟩, ?_⟩
  rcases Nat.lt_or_ge march 11 with h11 | h11
  · rw [daysInMonth_of_ne_two _ march h11]
    omega
  · obtain rfl : march = 11 := by omega
    have hfebruary := hfeb rfl
    have hmonth : monthFrom 11 = 2 := rfl
    rw [hmonth, daysInMonth, if_pos rfl, if_pos (le_refl 2)]
    omega

/-- **Days and dates correspond**: the date of a day names that day. -/
theorem toDays_ofDays (n : Int) : (ofDays n).toDays = n := by
  obtain ⟨cycle, d, y, march, day, hn, -, hy, hm, hd, -, -, he⟩ := ofDays_eq n
  have hyear : (if monthFrom march ≤ 2 then cycle * 400 + y + (if monthFrom march ≤ 2 then 1 else 0)
      - 1 else cycle * 400 + y + (if monthFrom march ≤ 2 then (1 : Int) else 0)) =
      cycle * 400 + y := by split <;> omega
  have hmarch : (if monthFrom march ≤ 2 then monthFrom march + 9 else monthFrom march - 3) =
      march := by unfold monthFrom; split <;> split <;> omega
  have hdiv : (cycle * 400 + (y : Int)) / 400 = cycle := by omega
  have hmod : ((cycle * 400 + (y : Int)) % 400).toNat = y := by omega
  rw [he]
  simp only [toDays, hyear, hmarch, hdiv, hmod, daysPerCycle, daysToEpoch]
  omega

/-! ### The order of dates -/

/-- The order of dates by year, month and day. -/
def Earlier (a b : Date) : Prop :=
  a.year < b.year ∨ a.year = b.year ∧ (a.month < b.month ∨ a.month = b.month ∧ a.day < b.day)

/-- Months counted from that of 0000-03-01. -/
def monthIndex (d : Date) : Int := d.year * 12 + d.month - 3

/-- The days from 0000-03-01 to the first day of a month. -/
def daysBefore (i : Int) : Int :=
  i / 12 / 400 * 146097 + daysBeforeYear (i / 12 % 400).toNat + daysBeforeMonth (i % 12).toNat

theorem toDays_eq {d : Date} (h1 : 1 ≤ d.month) (h12 : d.month ≤ 12) :
    d.toDays = daysBefore d.monthIndex + (d.day - 1 : Nat) - 719468 := by
  obtain ⟨year, month, day⟩ := d
  have hyear : (if month ≤ 2 then year - 1 else year) = (year * 12 + month - 3) / 12 := by
    simp only at h1 h12
    split <;> omega
  have hmarch : (if month ≤ 2 then month + 9 else month - 3) =
      ((year * 12 + month - 3) % 12).toNat := by
    simp only at h1 h12
    split <;> omega
  simp only [toDays, daysBefore, monthIndex, hyear, hmarch, daysPerCycle, daysToEpoch]
  push_cast
  ring

/-- The days before a month, with the cycles of 400 years counted by their leap days. -/
theorem daysBefore_eq (i : Int) : daysBefore i =
    365 * (i / 12) + i / 12 / 4 - i / 12 / 100 + i / 12 / 400 + daysBeforeMonth (i % 12).toNat := by
  unfold daysBefore daysBeforeYear
  omega

theorem daysBefore_add_day_le {d : Date} (h : d.isValid = true) :
    daysBefore d.monthIndex + d.day ≤ daysBefore (d.monthIndex + 1) := by
  obtain ⟨year, month, day⟩ := d
  simp only [isValid, Bool.and_eq_true, decide_eq_true_eq] at h
  obtain ⟨⟨⟨h1, h12⟩, -⟩, hday⟩ := h
  simp only [monthIndex, daysBefore_eq]
  by_cases h2 : month = 2
  · subst h2
    have hi : (year * 12 + ((2 : Nat) : Int) - 3) / 12 = year - 1 := by omega
    have hi' : (year * 12 + ((2 : Nat) : Int) - 3 + 1) / 12 = year := by omega
    have hm : ((year * 12 + ((2 : Nat) : Int) - 3) % 12).toNat = 11 := by omega
    have hm' : ((year * 12 + ((2 : Nat) : Int) - 3 + 1) % 12).toNat = 0 := by omega
    rw [hi, hi', hm, hm']
    simp only [daysInMonth, if_true] at hday
    by_cases hleap : isLeap year
    · have := isLeap_iff.mp hleap
      rw [if_pos hleap] at hday
      simp only [daysBeforeMonth]
      omega
    · have := mt isLeap_iff.mpr hleap
      rw [if_neg hleap] at hday
      simp only [daysBeforeMonth]
      omega
  · obtain ⟨march, hlt, rfl⟩ : ∃ march < 11, month = monthFrom march := by
      rcases Nat.lt_or_ge month 3 with h3 | h3
      · exact ⟨10, by omega, by unfold monthFrom; simp; omega⟩
      · exact ⟨month - 3, by omega, by unfold monthFrom; rw [if_pos (by omega)]; omega⟩
    rw [daysInMonth_of_ne_two year march hlt] at hday
    have hi : (year * 12 + (monthFrom march : Int) - 3 + 1) / 12 =
        (year * 12 + (monthFrom march : Int) - 3) / 12 := by
      unfold monthFrom; split <;> omega
    have hm : ((year * 12 + (monthFrom march : Int) - 3) % 12).toNat = march := by
      unfold monthFrom; split <;> omega
    have hm' : ((year * 12 + (monthFrom march : Int) - 3 + 1) % 12).toNat = march + 1 := by
      unfold monthFrom; split <;> omega
    rw [hi, hm, hm']
    have : daysBeforeMonth march ≤ daysBeforeMonth (march + 1) := by unfold daysBeforeMonth; omega
    omega

theorem daysBefore_le_succ (i : Int) : daysBefore i ≤ daysBefore (i + 1) := by
  simp only [daysBefore_eq, daysBeforeMonth]
  omega

theorem daysBefore_mono {i j : Int} (h : i ≤ j) : daysBefore i ≤ daysBefore j := by
  induction j, h using Int.leInduction with
  | base => exact le_rfl
  | succ j _ ih => exact le_trans ih (daysBefore_le_succ j)

theorem toDays_lt_of_earlier {a b : Date} (ha : a.isValid = true) (hb : b.isValid = true)
    (h : a.Earlier b) : a.toDays < b.toDays := by
  have hle := daysBefore_add_day_le ha
  simp only [isValid, Bool.and_eq_true, decide_eq_true_eq] at ha hb
  obtain ⟨⟨⟨ha1, ha12⟩, had⟩, -⟩ := ha
  obtain ⟨⟨⟨hb1, hb12⟩, -⟩, -⟩ := hb
  rw [toDays_eq ha1 ha12, toDays_eq hb1 hb12]
  rcases lt_or_ge a.monthIndex b.monthIndex with hlt | hge
  · have := daysBefore_mono (show a.monthIndex + 1 ≤ b.monthIndex by omega)
    omega
  · have hsame : a.monthIndex = b.monthIndex ∧ a.day < b.day := by
      unfold monthIndex at hge ⊢
      rcases h with h | ⟨h, h' | ⟨h', h''⟩⟩ <;> omega
    rw [hsame.1]
    omega

/-- **The calendar is monotone**: a day is before another exactly if its date is earlier. -/
theorem earlier_ofDays {m n : Int} (h : m < n) : (ofDays m).Earlier (ofDays n) := by
  by_contra hn
  have hne : ofDays m ≠ ofDays n := fun he => by
    have := congrArg toDays he
    rw [toDays_ofDays, toDays_ofDays] at this
    omega
  have hlt : (ofDays n).Earlier (ofDays m) := by
    unfold Earlier at hn ⊢
    have : ¬((ofDays m).year = (ofDays n).year ∧ (ofDays m).month = (ofDays n).month ∧
        (ofDays m).day = (ofDays n).day) := fun ⟨h1, h2, h3⟩ => hne (by
      cases hm : ofDays m
      cases hn : ofDays n
      simp_all)
    omega
  have := toDays_lt_of_earlier (isValid_ofDays n) (isValid_ofDays m) hlt
  rw [toDays_ofDays, toDays_ofDays] at this
  omega

end MessageBroker.Instant.Date

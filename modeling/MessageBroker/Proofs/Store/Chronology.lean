import MessageBroker.Proofs.Store.Codec

/-! # Statements order instants by time

Statements know instants as texts only. Within the years 0 to 9999 a text says when its instant is
in a fixed form (`toList_stored`), and two texts compare as bytes exactly like their instants. So
the conditions on rows are those on messages, and rows sorted by the text of an instant are sorted
by time (`mergeSort_leaseOrder`, `mergeSort_createdAt`). `storage_order_is_chronological` has all of
it. -/

namespace MessageBroker

namespace Instant

open Text Text.Decimal

/-! ### The form of a stored instant -/

/-- The fewest places among 0, 3, 6 and 9 that show a number of nanoseconds exactly. -/
structure FewestPlaces (nanos places : Nat) : Prop where
  allowed : places ∈ [0, 3, 6, 9]
  exact : 10 ^ (9 - places) ∣ nanos
  fewest : ∀ other ∈ [0, 3, 6, 9], 10 ^ (9 - other) ∣ nanos → places ≤ other

/-- The fraction of a second in a number of places. -/
def fractionIn (places nanos : Nat) : List Char :=
  if places = 0 then [] else '.' :: padded places (nanos / 10 ^ (9 - places))

theorem exists_fewestPlaces {nanos : Nat} (h : nanos < 1000000000) :
    ∃ places, FewestPlaces nanos places ∧ fractionText nanos = fractionIn places nanos := by
  have hallowed {other : Nat} (ho : other ∈ [0, 3, 6, 9]) (hdvd : 10 ^ (9 - other) ∣ nanos) :
      other = 0 ∧ nanos = 0 ∨ other = 3 ∧ nanos % 1000000 = 0 ∨ other = 6 ∧ nanos % 1000 = 0 ∨
        other = 9 := by
    simp only [List.mem_cons, List.not_mem_nil, or_false] at ho
    rcases ho with rfl | rfl | rfl | rfl <;> simp only [Nat.reduceSub, Nat.reducePow] at hdvd <;>
      omega
  have hexact {places : Nat} (hmod : nanos % 10 ^ (9 - places) = 0) : 10 ^ (9 - places) ∣ nanos :=
    Nat.dvd_of_mod_eq_zero hmod
  unfold fractionText fractionIn
  split_ifs with h0 h6 h3
  · subst h0
    exact ⟨0, ⟨by simp, Nat.dvd_zero _, fun _ _ _ => Nat.zero_le _⟩, rfl⟩
  · refine ⟨3, ⟨by simp, hexact h6, fun other ho hdvd => ?_⟩, rfl⟩
    have := hallowed ho hdvd
    omega
  · refine ⟨6, ⟨by simp, hexact h3, fun other ho hdvd => ?_⟩, rfl⟩
    have := hallowed ho hdvd
    omega
  · refine ⟨9, ⟨by simp, hexact (Nat.mod_one _), fun other ho hdvd => ?_⟩, ?_⟩
    · have := hallowed ho hdvd
      omega
    · rw [if_neg (by decide), Nat.sub_self, Nat.pow_zero, Nat.div_one]

/-- Date and time in fields of fixed width, a fraction in a number of places, and the offset. -/
def writtenIn (places : Nat) (t : Instant) : List Char :=
  padded 4 t.date.year.toNat ++ '-' :: (padded 2 t.date.month ++ '-' :: (padded 2 t.date.day ++
    'T' :: (padded 2 (t.secondOfDay / 3600) ++ ':' :: (padded 2 (t.secondOfDay / 60 % 60) ++
      ':' :: (padded 2 (t.secondOfDay % 60) ++ (fractionIn places t.subsecond ++
        ['+', '0', '0', ':', '0', '0']))))))

theorem toList_stored {t : Instant} (h : t.HasFourDigitYear) :
    ∃ places, FewestPlaces t.subsecond places ∧ t.stored.toList = t.writtenIn places := by
  obtain ⟨places, hplaces, htext⟩ := exists_fewestPlaces (subsecond_lt t)
  refine ⟨places, hplaces, ?_⟩
  rw [stored_eq h, String.toList_ofList, htext]
  rfl

theorem stored_inj {a b : Instant} (ha : a.IsRepresentable) (hb : b.IsRepresentable) :
    a.stored = b.stored ↔ a = b := by
  constructor
  · intro h
    have hread := read?_stored ha
    rw [h, read?_stored hb] at hread
    exact (Option.some.inj hread).symm
  · exact congrArg stored

end Instant

namespace Store

open Text

/-! ### Sorted rows -/

theorem leaseOrder_iff {a b : MessageRow} : leaseOrder a b = true ↔
    lt a.scheduledAt b.scheduledAt = true ∨
      a.scheduledAt = b.scheduledAt ∧ le a.id b.id = true := by
  unfold leaseOrder
  by_cases h : a.scheduledAt = b.scheduledAt
  · rw [if_pos h, h]
    constructor
    · exact fun hid => Or.inr ⟨rfl, hid⟩
    · rintro (hlt | ⟨-, hid⟩)
      · exact absurd hlt (lt_irrefl _)
      · exact hid
  · rw [if_neg h, or_iff_left fun hn => h hn.1, lt_iff]
    constructor
    · exact fun hle hge => h (le_antisymm hle hge)
    · exact (le_total _ _).resolve_right

theorem leaseOrder_trans (a b c : MessageRow) (hab : leaseOrder a b = true)
    (hbc : leaseOrder b c = true) : leaseOrder a c = true := by
  rw [leaseOrder_iff] at hab hbc ⊢
  rcases hab with hab | ⟨hab, hid⟩
  · rcases hbc with hbc | ⟨hbc, -⟩
    · exact Or.inl (lt_trans hab hbc)
    · exact Or.inl (hbc ▸ hab)
  · rcases hbc with hbc | ⟨hbc, hid'⟩
    · exact Or.inl (hab ▸ hbc)
    · exact Or.inr ⟨hab.trans hbc, le_trans hid hid'⟩

theorem leaseOrder_total (a b : MessageRow) : (leaseOrder a b || leaseOrder b a) = true := by
  unfold leaseOrder
  rw [Bool.or_eq_true]
  by_cases h : a.scheduledAt = b.scheduledAt
  · rw [if_pos h, if_pos h.symm]
    exact le_total _ _
  · rw [if_neg h, if_neg (Ne.symm h)]
    exact le_total _ _

/-- A list sorted by an order of rows is a list of messages, sorted by what the order says of
them. -/
theorem exists_mergeSort {order : MessageRow → MessageRow → Bool}
    {earlier : Message → Message → Prop}
    (htrans : ∀ a b c, order a b = true → order b c = true → order a c = true)
    (htotal : ∀ a b, (order a b || order b a) = true) {ms : List Message}
    (h : ∀ a ∈ ms, ∀ b ∈ ms, order (.ofMessage a) (.ofMessage b) = true → earlier a b) :
    ∃ l : List Message, (ms.map MessageRow.ofMessage).mergeSort order = l.map MessageRow.ofMessage ∧
      l.Perm ms ∧ l.Pairwise earlier := by
  let le (a b : Message) : Bool := order (.ofMessage a) (.ofMessage b)
  have hsorted : (ms.mergeSort le).Pairwise fun a b => le a b = true :=
    List.pairwise_mergeSort (fun a b c => htrans (.ofMessage a) (.ofMessage b) (.ofMessage c))
      (fun a b => htotal (.ofMessage a) (.ofMessage b)) ms
  refine ⟨ms.mergeSort le, ?_, List.mergeSort_perm ms le, ?_⟩
  · exact (List.map_mergeSort (f := MessageRow.ofMessage) fun _ _ _ _ => rfl).symm
  · refine hsorted.imp_of_mem fun {a b} ha hb hab => ?_
    exact h a (List.mem_mergeSort.mp ha) b (List.mem_mergeSort.mp hb) hab

/-- **Leases take messages in the order in which they became visible**, and by identifier where
they did so at once. -/
theorem mergeSort_leaseOrder {ms : List Message}
    (h : ∀ m ∈ ms, m.scheduledAt.HasFourDigitYear) :
    ∃ l : List Message,
      (ms.map MessageRow.ofMessage).mergeSort leaseOrder = l.map MessageRow.ofMessage ∧
      l.Perm ms ∧ l.Pairwise fun a b => a.scheduledAt < b.scheduledAt ∨
        a.scheduledAt = b.scheduledAt ∧ le a.id b.id = true := by
  refine exists_mergeSort leaseOrder_trans leaseOrder_total fun a ha b hb hab => ?_
  rcases leaseOrder_iff.mp hab with hlt | ⟨heq, hid⟩
  · exact Or.inl ((Instant.lt_stored_iff (h a ha) (h b hb)).mp hlt)
  · refine Or.inr ⟨?_, hid⟩
    exact (Instant.stored_inj (h a ha).isRepresentable (h b hb).isRepresentable).mp heq

/-- **The age of a backlog is found at its oldest message.** -/
theorem mergeSort_createdAt {ms : List Message} (h : ∀ m ∈ ms, m.createdAt.HasFourDigitYear) :
    ∃ l : List Message,
      (ms.map MessageRow.ofMessage).mergeSort (fun a b => le a.createdAt b.createdAt) =
        l.map MessageRow.ofMessage ∧
      l.Perm ms ∧ l.Pairwise fun a b => a.createdAt ≤ b.createdAt := by
  have htrans : ∀ a b c : MessageRow, le a.createdAt b.createdAt = true →
      le b.createdAt c.createdAt = true → le a.createdAt c.createdAt = true :=
    fun _ _ _ hab hbc => le_trans hab hbc
  have htotal : ∀ a b : MessageRow,
      (le a.createdAt b.createdAt || le b.createdAt a.createdAt) = true := by
    intro a b
    rw [Bool.or_eq_true]
    exact le_total _ _
  refine exists_mergeSort htrans htotal fun a ha b hb hab => ?_
  exact (Instant.le_stored_iff (h a ha) (h b hb)).mp hab

/-! ### All comparisons -/

/-- **Storage compares instants chronologically**, within the years 0 to 9999: texts of the stored
form compare like the instants, so that rows are visible and expired exactly if their messages are,
and rows sorted by an instant are sorted by time. -/
theorem storage_order_is_chronological :
    (∀ t : Instant, t.HasFourDigitYear → ∃ places, Instant.FewestPlaces t.subsecond places ∧
      t.stored.toList = t.writtenIn places) ∧
    (∀ a b : Instant, a.HasFourDigitYear → b.HasFourDigitYear →
      (lt a.stored b.stored = true ↔ a < b) ∧ (a.stored = b.stored ↔ a = b) ∧
        (lt b.stored a.stored = true ↔ b < a)) ∧
    (∀ (m : Message) (now : Instant), m.scheduledAt.HasFourDigitYear →
      m.expiredAt.HasFourDigitYear → now.HasFourDigitYear →
        ((MessageRow.ofMessage m).isVisible now = true ↔ m.IsVisible now) ∧
        ((MessageRow.ofMessage m).isExpired now = true ↔ m.IsExpired now)) ∧
    (∀ ms : List Message, (∀ m ∈ ms, m.scheduledAt.HasFourDigitYear) →
      ∃ l : List Message,
        (ms.map MessageRow.ofMessage).mergeSort leaseOrder = l.map MessageRow.ofMessage ∧
        l.Perm ms ∧ l.Pairwise fun a b => a.scheduledAt < b.scheduledAt ∨
          a.scheduledAt = b.scheduledAt ∧ le a.id b.id = true) ∧
    (∀ ms : List Message, (∀ m ∈ ms, m.createdAt.HasFourDigitYear) →
      ∃ l : List Message,
        (ms.map MessageRow.ofMessage).mergeSort (fun a b => le a.createdAt b.createdAt) =
          l.map MessageRow.ofMessage ∧
        l.Perm ms ∧ l.Pairwise fun a b => a.createdAt ≤ b.createdAt) := by
  refine ⟨fun t ht => Instant.toList_stored ht, fun a b ha hb => ?_, fun m now hs he hnow => ?_,
    fun ms h => mergeSort_leaseOrder h, fun ms h => mergeSort_createdAt h⟩
  · exact ⟨Instant.lt_stored_iff ha hb,
      Instant.stored_inj ha.isRepresentable hb.isRepresentable, Instant.lt_stored_iff hb ha⟩
  · exact ⟨MessageRow.isVisible_iff hs he hnow, MessageRow.isExpired_iff he hnow⟩

/-- The text of a whole second precedes that of the nanosecond after it, which is longer by a
fraction. -/
theorem wholeSecond_precedes_nanosecond : Instant.epoch.HasFourDigitYear ∧
    (Instant.epoch.addNanos 1).HasFourDigitYear ∧
      lt Instant.epoch.stored (Instant.epoch.addNanos 1).stored = true := by
  have hepoch : Instant.epoch.HasFourDigitYear := by decide
  have hlater : (Instant.epoch.addNanos 1).HasFourDigitYear := by decide
  refine ⟨hepoch, hlater, ?_⟩
  exact (storage_order_is_chronological.2.1 _ _ hepoch hlater).1.mpr (by decide)

end Store

end MessageBroker

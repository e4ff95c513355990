/-! # The order of texts

Stored texts are compared byte by byte, in their UTF-8 form. `bytes_injective` says that the bytes
of a text determine it, so `Text.le` is a linear order of texts (`le_total`, `le_trans`,
`le_antisymm`), and `Text.lt` is its strict part. -/

namespace MessageBroker.Text

/-- The UTF-8 bytes of a text. -/
def bytes (s : String) : List UInt8 := s.toByteArray.data.toList

/-- Lexicographic order of byte strings. -/
def bytesLe : List UInt8 → List UInt8 → Bool
  | [], _ => true
  | _ :: _, [] => false
  | a :: r, b :: t => Nat.blt a.toNat b.toNat || (a.toNat == b.toNat && bytesLe r t)

/-- Order of texts by their bytes. -/
def le (a b : String) : Bool := bytesLe (bytes a) (bytes b)

/-- The strict order of texts. -/
def lt (a b : String) : Bool := !le b a

theorem bytes_injective {a b : String} (h : bytes a = bytes b) : a = b := by
  apply String.toByteArray_inj.mp
  apply ByteArray.ext
  exact Array.toList_inj.mp h

theorem bytesLe_refl (l : List UInt8) : bytesLe l l = true := by
  induction l with
  | nil => rfl
  | cons a r ih => simp [bytesLe, ih]

theorem bytesLe_total (l m : List UInt8) : bytesLe l m = true ∨ bytesLe m l = true := by
  induction l generalizing m with
  | nil => exact Or.inl rfl
  | cons a r ih =>
    cases m with
    | nil => exact Or.inr rfl
    | cons b t =>
      simp only [bytesLe, Bool.or_eq_true, Nat.blt_eq, Bool.and_eq_true, beq_iff_eq]
      rcases Nat.lt_trichotomy a.toNat b.toNat with h | h | h
      · exact Or.inl (Or.inl h)
      · exact (ih t).imp (fun ht => Or.inr ⟨h, ht⟩) fun ht => Or.inr ⟨h.symm, ht⟩
      · exact Or.inr (Or.inl h)

theorem bytesLe_antisymm {l m : List UInt8} (h : bytesLe l m = true) (h' : bytesLe m l = true) :
    l = m := by
  induction l generalizing m with
  | nil => cases m with
    | nil => rfl
    | cons b t => simp [bytesLe] at h'
  | cons a r ih =>
    cases m with
    | nil => simp [bytesLe] at h
    | cons b t =>
      simp only [bytesLe, Bool.or_eq_true, Nat.blt_eq, Bool.and_eq_true, beq_iff_eq] at h h'
      obtain h | ⟨h, hr⟩ := h
      · omega
      · obtain h' | ⟨-, ht⟩ := h'
        · omega
        · rw [UInt8.toNat_inj.mp h, ih hr ht]

theorem bytesLe_trans {l m n : List UInt8} (h : bytesLe l m = true) (h' : bytesLe m n = true) :
    bytesLe l n = true := by
  induction l generalizing m n with
  | nil => rfl
  | cons a r ih =>
    cases m with
    | nil => simp [bytesLe] at h
    | cons b t =>
      cases n with
      | nil => simp [bytesLe] at h'
      | cons c u =>
        simp only [bytesLe, Bool.or_eq_true, Nat.blt_eq, Bool.and_eq_true, beq_iff_eq] at h h' ⊢
        obtain h | ⟨h, hr⟩ := h
        · omega
        · obtain h' | ⟨h', ht⟩ := h'
          · omega
          · exact Or.inr ⟨by omega, ih hr ht⟩

theorem le_refl (a : String) : le a a = true := bytesLe_refl _

theorem le_total (a b : String) : le a b = true ∨ le b a = true := bytesLe_total _ _

theorem le_antisymm {a b : String} (h : le a b = true) (h' : le b a = true) : a = b :=
  bytes_injective (bytesLe_antisymm h h')

theorem le_trans {a b c : String} (h : le a b = true) (h' : le b c = true) : le a c = true :=
  bytesLe_trans h h'

theorem lt_iff {a b : String} : lt a b = true ↔ ¬le b a = true := by simp [lt]

theorem le_of_lt {a b : String} (h : lt a b = true) : le a b = true :=
  (le_total a b).resolve_right (lt_iff.mp h)

theorem lt_irrefl (a : String) : ¬lt a a = true := by simp [lt, le_refl]

theorem lt_trans {a b c : String} (h : lt a b = true) (h' : lt b c = true) : lt a c = true :=
  lt_iff.mpr fun hca => lt_iff.mp h' (le_trans hca (le_of_lt h))

theorem lt_of_not_lt_of_ne {a b : String} (h : ¬lt a b = true) (hne : a ≠ b) : lt b a = true :=
  lt_iff.mpr fun hab => h (lt_iff.mpr fun hba => hne (le_antisymm hab hba))

end MessageBroker.Text

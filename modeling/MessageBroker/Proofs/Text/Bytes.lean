import Mathlib
import MessageBroker.Text.Order
import MessageBroker.Text.Utf8

/-! # Texts and their bytes

The bytes of a text are those of its characters in order (`bytes_ofList`), and they are read back as
the text (`ofBytes?_bytes`). Texts of ASCII characters are ordered like their lists of characters
(`lt_ofList`), and equally long fields in front decide the order of two lists
(`append_lt_append`). -/

namespace MessageBroker.Text

/-- The bytes of characters. -/
def encode (l : List Char) : List UInt8 := l.flatMap String.utf8EncodeChar

@[simp] theorem encode_nil : encode [] = [] := rfl

@[simp] theorem encode_cons (c : Char) (l : List Char) :
    encode (c :: l) = String.utf8EncodeChar c ++ encode l := rfl

@[simp] theorem encode_append (l m : List Char) : encode (l ++ m) = encode l ++ encode m :=
  List.flatMap_append

theorem bytes_ofList (l : List Char) : bytes (String.ofList l) = encode l := by
  rw [bytes, String.toByteArray_ofList, List.utf8Encode, List.data_toByteArray]
  rfl

theorem bytes_eq_encode (s : String) : bytes s = encode s.toList := by
  rw [← bytes_ofList, String.ofList_toList]

theorem ofBytes?_bytes (s : String) : ofBytes? (bytes s) = some s := by
  have h : (⟨(bytes s).toArray⟩ : ByteArray) = s.toByteArray := by
    simp [bytes]
  rw [ofBytes?, h, String.fromUTF8?, dif_pos s.isValidUTF8]
  rfl

/-! ### ASCII characters -/

/-- Characters of one byte each. -/
def IsAscii (l : List Char) : Prop := ∀ c ∈ l, c.toNat < 128

theorem IsAscii.append {l m : List Char} (hl : IsAscii l) (hm : IsAscii m) : IsAscii (l ++ m) :=
  fun c hc => (List.mem_append.mp hc).elim (hl c) (hm c)

theorem utf8EncodeChar_of_ascii {c : Char} (h : c.toNat < 128) :
    String.utf8EncodeChar c = [UInt8.ofNat c.toNat] :=
  if_pos (Nat.le_of_lt_succ h)

/-- **Texts of ASCII characters are ordered character by character.** -/
theorem lt_ofList {l m : List Char} (hl : IsAscii l) (hm : IsAscii m) (h : l < m) :
    lt (String.ofList l) (String.ofList m) = true := by
  have key : bytesLe (encode m) (encode l) = false := by
    induction l generalizing m with
    | nil =>
      cases m with
      | nil => exact absurd h (List.lt_irrefl _)
      | cons b t =>
        rw [encode_cons, utf8EncodeChar_of_ascii (hm b List.mem_cons_self)]
        rfl
    | cons a r ih =>
      cases m with
      | nil => exact absurd h (List.not_lt_nil _)
      | cons b t =>
        have ha := hl a List.mem_cons_self
        have hb := hm b List.mem_cons_self
        have hab : a.toNat < b.toNat ∨ a = b ∧ r < t := List.cons_lt_cons_iff.mp h
        rw [encode_cons, encode_cons, utf8EncodeChar_of_ascii ha, utf8EncodeChar_of_ascii hb]
        have hna : (UInt8.ofNat a.toNat).toNat = a.toNat :=
          UInt8.toNat_ofNat_of_lt' (Nat.lt_trans ha (by decide))
        have hnb : (UInt8.ofNat b.toNat).toNat = b.toNat :=
          UInt8.toNat_ofNat_of_lt' (Nat.lt_trans hb (by decide))
        rw [← Bool.not_eq_true]
        simp only [List.singleton_append, bytesLe, hna, hnb, Bool.or_eq_true, Nat.blt_eq,
          Bool.and_eq_true, beq_iff_eq]
        rcases hab with hlt | ⟨rfl, hrt⟩
        · omega
        · have := ih (fun c hc => hl c (List.mem_cons_of_mem _ hc))
            (fun c hc => hm c (List.mem_cons_of_mem _ hc)) hrt
          simp [this]
  rw [lt, le, bytes_ofList, bytes_ofList, key]
  rfl

/-- Of two lists the first parts decide, if they differ and are equally long. -/
theorem append_lt_append {l m : List Char} (hlen : l.length = m.length) (h : l < m)
    (x y : List Char) : l ++ x < m ++ y := by
  induction l generalizing m with
  | nil => exact absurd (List.eq_nil_of_length_eq_zero hlen.symm ▸ h) (List.lt_irrefl _)
  | cons a r ih =>
    cases m with
    | nil => exact absurd h (List.not_lt_nil _)
    | cons b t =>
      refine List.cons_lt_cons_iff.mpr ?_
      rcases List.cons_lt_cons_iff.mp h with hab | ⟨hab, hrt⟩
      · exact Or.inl hab
      · exact Or.inr ⟨hab, ih (Nat.succ.inj hlen) hrt⟩

end MessageBroker.Text

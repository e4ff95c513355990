import MessageBroker.Json.Reader
import MessageBroker.Json.Value
import MessageBroker.Proofs.Dict
import MessageBroker.Proofs.Text.Bytes

/-! # Written JSON is read back

`ReadsBack value f` says that a reader takes from the written form of `f a`, whatever follows it,
exactly `a`. It holds of texts (`readsBack_text`) and lists of them (`readsBack_texts`). Reading an
object sets the entries of a dictionary one after the other (`readsBack_object`). As the keys of a
dictionary are distinct, it is read back whatever the order in which its entries were written
(`Dict.ofList_of_perm`, `decode_object`). -/

namespace MessageBroker.Json

open Text

/-! ### Bytes of single characters -/

theorem toUInt8_quote : '"'.toUInt8 = 34 := rfl

theorem toUInt8_backslash : '\\'.toUInt8 = 92 := rfl

/-- A byte that stands for itself within a text. -/
def IsPlain (b : UInt8) : Prop := b ≠ 34 ∧ b ≠ 92 ∧ ¬b < 32

theorem isPlain_ofNat {n : Nat} (h : 32 ≤ n) (hn : n < 256) (hquote : n ≠ 34)
    (hbackslash : n ≠ 92) : IsPlain (UInt8.ofNat n) := by
  have htoNat : (UInt8.ofNat n).toNat = n := UInt8.toNat_ofNat_of_lt' hn
  refine ⟨fun he => hquote ?_, fun he => hbackslash ?_, ?_⟩
  · rw [← htoNat, he]; rfl
  · rw [← htoNat, he]; rfl
  · rw [UInt8.lt_iff_toNat_lt, htoNat]
    exact Nat.not_lt.mpr h

theorem isPlain_of_mem_utf8EncodeChar {c : Char} (h : 32 ≤ c.toNat) (hquote : c.toNat ≠ 34)
    (hbackslash : c.toNat ≠ 92) {b : UInt8} (hb : b ∈ String.utf8EncodeChar c) : IsPlain b := by
  have high {n : Nat} (hn : 128 ≤ n) (hn' : n < 256) : IsPlain (UInt8.ofNat n) :=
    isPlain_ofNat (by omega) hn' (by omega) (by omega)
  have hc : c.val.toNat = c.toNat := rfl
  simp only [String.utf8EncodeChar, hc] at hb
  split_ifs at hb with h1 h2 h3 <;> simp only [List.mem_cons, List.not_mem_nil, or_false] at hb
  · subst hb
    exact isPlain_ofNat h (by omega) hquote hbackslash
  · rcases hb with rfl | rfl <;> exact high (by omega) (by omega)
  · rcases hb with rfl | rfl | rfl <;> exact high (by omega) (by omega)
  · rcases hb with rfl | rfl | rfl | rfl <;> exact high (by omega) (by omega)

/-! ### Steps of the text reader -/

theorem readText_quote (read rest : List UInt8) (s : String)
    (h : ofBytes? read.reverse = some s) : readText read (34 :: rest) = .ok (s, rest) := by
  rw [readText.eq_def]
  simp only [toUInt8_quote, beq_self_eq_true, if_true, h]

theorem readText_plain {b : UInt8} (h : IsPlain b) (read rest : List UInt8) :
    readText read (b :: rest) = readText (b :: read) rest := by
  obtain ⟨hquote, hbackslash, hcontrol⟩ := h
  rw [readText.eq_def]
  simp only [toUInt8_quote, toUInt8_backslash, beq_iff_eq, if_neg hquote, if_neg hbackslash,
    if_neg hcontrol]

theorem readText_append {l : List UInt8} (h : ∀ b ∈ l, IsPlain b) (read rest : List UInt8) :
    readText read (l ++ rest) = readText (l.reverse ++ read) rest := by
  induction l generalizing read with
  | nil => rfl
  | cons b r ih =>
    rw [List.cons_append, readText_plain (h b List.mem_cons_self),
      ih fun b hb => h b (List.mem_cons_of_mem _ hb)]
    simp

theorem readText_simpleEscape {e b : UInt8} (h : simpleEscape? e = some b)
    (read rest : List UInt8) : readText read (92 :: e :: rest) = readText (b :: read) rest := by
  have hne : ¬(92 : UInt8) = 34 := by decide
  rw [readText.eq_def]
  simp only [toUInt8_quote, toUInt8_backslash, beq_iff_eq, if_neg hne, if_true, h]

theorem readText_unit {a b c d : UInt8} {n : Nat} (h : hexUnit? a b c d = some n)
    (hn : n < 0xD800) (read rest : List UInt8) :
    readText read (92 :: 117 :: a :: b :: c :: d :: rest) = readText (pushChar n read) rest := by
  have hne : ¬(92 : UInt8) = 34 := by decide
  have hsimple : simpleEscape? 117 = none := by decide
  have hu : 'u'.toUInt8 = 117 := rfl
  have htrail : isTrail n = false := by simp [isTrail]; omega
  have hlead : isLead n = false := by simp [isLead]; omega
  rw [readText.eq_def]
  simp only [toUInt8_quote, toUInt8_backslash, beq_iff_eq, if_neg hne, if_true, hsimple, hu, h,
    htrail, hlead, Bool.false_eq_true, if_false]

/-! ### Texts -/

/-- The unit that a control character is written as names that character. -/
theorem hexUnit?_digits : ∀ n < 32,
    hexUnit? 48 48 (UInt8.ofNat (Nat.digitChar (n / 16)).toNat)
      (UInt8.ofNat (Nat.digitChar (n % 16)).toNat) = some n := by
  decide +kernel

theorem digitChar_lt_128 : ∀ n < 16, (Nat.digitChar n).toNat < 128 := by decide

theorem readText_escape (c : Char) (read rest : List UInt8) :
    readText read (encode (escape c) ++ rest) =
      readText ((String.utf8EncodeChar c).reverse ++ read) rest := by
  have simple {d : Char} (hd : d.toNat < 128) (hc : c.toNat < 128)
      (h : simpleEscape? (UInt8.ofNat d.toNat) = some (UInt8.ofNat c.toNat)) :
      readText read (encode ['\\', d] ++ rest) =
        readText ((String.utf8EncodeChar c).reverse ++ read) rest := by
    rw [encode_cons, encode_cons, encode_nil, utf8EncodeChar_of_ascii hd,
      utf8EncodeChar_of_ascii hc]
    exact readText_simpleEscape h read rest
  have control {n : Nat} (h : c.toNat = n) : c = Char.ofNat n := h ▸ (Char.ofNat_toNat c).symm
  unfold escape
  split_ifs with h1 h2 h3 h4 h5 h6 h7 h8
  · subst h1; exact simple (by decide) (by decide) (by decide)
  · subst h2; exact simple (by decide) (by decide) (by decide)
  · rw [encode_cons, encode_nil, List.append_nil]
    refine readText_append (fun b hb => isPlain_of_mem_utf8EncodeChar h3 ?_ ?_ hb) read rest
    · exact fun h => h1 (control h)
    · exact fun h => h2 (control h)
  · exact simple (d := 'b') (by decide) (by omega) (by rw [h4]; decide)
  · exact simple (d := 't') (by decide) (by omega) (by rw [h5]; decide)
  · exact simple (d := 'n') (by decide) (by omega) (by rw [h6]; decide)
  · exact simple (d := 'f') (by decide) (by omega) (by rw [h7]; decide)
  · exact simple (d := 'r') (by decide) (by omega) (by rw [h8]; decide)
  · have hunit := hexUnit?_digits c.toNat (by omega)
    have hpush : pushChar c.toNat read = (String.utf8EncodeChar c).reverse ++ read := by
      rw [pushChar, Char.ofNat_toNat]
    simp only [encode_cons, encode_nil,
      utf8EncodeChar_of_ascii (digitChar_lt_128 (c.toNat / 16) (by omega)),
      utf8EncodeChar_of_ascii (digitChar_lt_128 (c.toNat % 16) (by omega))]
    rw [← hpush]
    exact readText_unit hunit (by omega) read rest

theorem readText_escaped (l : List Char) (read rest : List UInt8) (s : String)
    (h : ofBytes? (read.reverse ++ encode l) = some s) :
    readText read (encode (l.flatMap escape) ++ 34 :: rest) = .ok (s, rest) := by
  induction l generalizing read with
  | nil => exact readText_quote read rest s (by simpa using h)
  | cons c r ih =>
    rw [List.flatMap_cons, encode_append, List.append_assoc, readText_escape]
    refine ih _ ?_
    rw [List.reverse_append, List.reverse_reverse, List.append_assoc]
    exact h

/-- **A written text is read back.** -/
theorem readText_renderText (s : String) (rest : List UInt8) :
    readText [] (encode (s.toList.flatMap escape) ++ 34 :: rest) = .ok (s, rest) :=
  readText_escaped _ [] rest s (by
    rw [List.reverse_nil, List.nil_append, ← bytes_eq_encode, ofBytes?_bytes])

/-! ### Values -/

/-- A reader takes from the written form of a value exactly the value, whatever follows. -/
def ReadsBack {α : Type} (value : Reader α) (f : α → Json) : Prop :=
  ∀ a rest, value (encode (f a).renderChars ++ rest) = .ok (a, rest)

theorem skipBlanks_cons {b : UInt8} (h : isBlank b = false) (l : List UInt8) :
    skipBlanks (b :: l) = b :: l := by
  rw [skipBlanks, List.dropWhile_cons_of_neg (by simp [h])]

theorem encode_renderText (s : String) (rest : List UInt8) :
    encode (renderText s) ++ rest = 34 :: (encode (s.toList.flatMap escape) ++ 34 :: rest) := by
  have hquote : String.utf8EncodeChar '"' = [34] := by decide
  simp only [renderText, encode_cons, encode_append, encode_nil, hquote, List.append_assoc,
    List.cons_append, List.nil_append]

theorem readsBack_text : ReadsBack Reader.text Json.text := by
  intro s rest
  have hblank : isBlank 34 = false := by decide
  have hstart (l : List UInt8) : startsWith '"' (34 :: l) = true := rfl
  rw [Json.renderChars, encode_renderText, Reader.text]
  simp only [skipBlanks_cons hblank, hstart, if_true, List.drop_succ_cons, List.drop_zero]
  exact readText_renderText s rest

theorem joinComma_cons (l : List Char) (r : List (List Char)) :
    joinComma (l :: r) = l ++ r.flatMap fun l => ',' :: l := by
  induction r generalizing l with
  | nil => simp [joinComma]
  | cons a r ih => rw [joinComma, ih, List.flatMap_cons, List.cons_append]; simp

/-! ### Lists of texts -/

theorem nextElement?_quote (l : List UInt8) :
    nextElement? true (34 :: l) = .ok (some (34 :: l)) := by
  have hblank : isBlank 34 = false := by decide
  have hclose : startsWith ']' (34 :: l) = false := rfl
  simp only [nextElement?, skipBlanks_cons hblank, hclose, if_true]
  rfl

theorem nextElement?_comma (l : List UInt8) :
    nextElement? false (44 :: 34 :: l) = .ok (some (34 :: l)) := by
  have hcomma : isBlank 44 = false := by decide
  have hblank : isBlank 34 = false := by decide
  have hclose : startsWith ']' (44 :: 34 :: l) = false := rfl
  have hnext : startsWith ',' (44 :: 34 :: l) = true := rfl
  have hclose' : startsWith ']' (34 :: l) = false := rfl
  simp only [nextElement?, skipBlanks_cons hcomma, hclose, hnext, if_true, List.drop_succ_cons,
    List.drop_zero, skipBlanks_cons hblank, hclose']
  rfl

theorem nextElement?_close (first : Bool) (l : List UInt8) :
    nextElement? first (93 :: l) = .ok none := by
  have hblank : isBlank 93 = false := by decide
  have hclose : startsWith ']' (93 :: l) = true := rfl
  simp only [nextElement?, skipBlanks_cons hblank, hclose, if_true]
  rfl

theorem readElements_close {α : Type} (element : Reader α) (fuel : Nat) (first : Bool)
    (read : List α) (rest : List UInt8) :
    readElements element (fuel + 1) first read (93 :: rest) = .ok (read.reverse, rest) := by
  have hblank : isBlank 93 = false := by decide
  rw [readElements, nextElement?_close]
  simp only [bind, Except.bind, skipBlanks_cons hblank, List.drop_succ_cons, List.drop_zero]
  rfl

theorem readElements_text {first : Bool} {l rest : List UInt8} {s : String}
    (h : nextElement? first l = .ok (some (encode (Json.text s).renderChars ++ rest))) (fuel : Nat)
    (read : List String) : readElements Reader.text (fuel + 1) first read l =
      readElements Reader.text fuel false (s :: read) rest := by
  rw [readElements, h]
  simp only [bind, Except.bind, readsBack_text s rest]

/-- The texts of a list, each after a comma. -/
def laterTexts (l : List String) : List Char :=
  (renderItems (l.map .text)).flatMap fun l => ',' :: l

theorem laterTexts_cons (s : String) (l : List String) :
    laterTexts (s :: l) = ',' :: ((Json.text s).renderChars ++ laterTexts l) := by
  simp only [laterTexts, List.map_cons, renderItems, List.flatMap_cons, List.cons_append]

theorem readElements_laterTexts (l : List String) {fuel : Nat} (hfuel : l.length < fuel)
    (read : List String) (rest : List UInt8) :
    readElements Reader.text fuel false read (encode (laterTexts l) ++ 93 :: rest) =
      .ok (read.reverse ++ l, rest) := by
  have hcomma : String.utf8EncodeChar ',' = [44] := by decide
  induction l generalizing fuel read with
  | nil =>
    obtain ⟨fuel, rfl⟩ := Nat.exists_eq_succ_of_ne_zero (Nat.ne_zero_of_lt hfuel)
    rw [List.append_nil]
    exact readElements_close _ fuel false read rest
  | cons s l ih =>
    obtain ⟨fuel, rfl⟩ := Nat.exists_eq_succ_of_ne_zero (Nat.ne_zero_of_lt hfuel)
    have hnext : nextElement? false (encode (laterTexts (s :: l)) ++ 93 :: rest) =
        .ok (some (encode (Json.text s).renderChars ++
          (encode (laterTexts l) ++ 93 :: rest))) := by
      rw [laterTexts_cons, encode_cons, hcomma, encode_append, Json.renderChars, List.append_assoc,
        List.append_assoc, encode_renderText]
      exact nextElement?_comma _
    rw [readElements_text hnext, ih (by simpa using hfuel), List.reverse_cons, List.append_assoc,
      List.singleton_append]

theorem length_le_encode_laterTexts (l : List String) :
    l.length ≤ (encode (laterTexts l)).length := by
  have hcomma : String.utf8EncodeChar ',' = [44] := by decide
  induction l with
  | nil => exact Nat.zero_le _
  | cons s l ih =>
    rw [laterTexts_cons, encode_cons, encode_append, hcomma]
    simp only [List.length_append, List.length_cons, List.length_nil]
    omega

/-- **A written list of texts is read back.** -/
theorem readsBack_texts :
    ReadsBack (Reader.list Reader.text) fun l => Json.array (l.map .text) := by
  intro l rest
  have hopen : String.utf8EncodeChar '[' = [91] := by decide
  have hclose : String.utf8EncodeChar ']' = [93] := by decide
  have hblank : isBlank 91 = false := by decide
  have hstart (l : List UInt8) : startsWith '[' (91 :: l) = true := rfl
  simp only [Json.renderChars, encode_cons, encode_append, encode_nil, hopen, hclose,
    List.cons_append, List.nil_append, List.append_assoc, Reader.list, skipBlanks_cons hblank,
    hstart, if_true, List.drop_succ_cons, List.drop_zero, List.length_cons]
  cases l with
  | nil => exact readElements_close _ _ true [] rest
  | cons s l =>
    have hitems : joinComma (renderItems ((s :: l).map .text)) = renderText s ++ laterTexts l :=
      joinComma_cons _ _
    have hnext : nextElement? true (encode (renderText s ++ laterTexts l) ++ 93 :: rest) =
        .ok (some (encode (Json.text s).renderChars ++
          (encode (laterTexts l) ++ 93 :: rest))) := by
      rw [encode_append, List.append_assoc, Json.renderChars, encode_renderText]
      exact nextElement?_quote _
    rw [hitems, readElements_text hnext]
    refine readElements_laterTexts l ?_ [s] rest
    have hlength := length_le_encode_laterTexts l
    rw [encode_append]
    simp only [List.length_append, List.length_cons]
    omega

/-! ### Dictionaries -/

/-- The members of an object, each after a comma. -/
def laterMembers {α : Type} (f : α → Json) (l : List (String × α)) : List Char :=
  (renderMembers (l.map fun e => (e.1, f e.2))).flatMap fun l => ',' :: l

section Members

variable {α : Type} {value : Reader α} {f : α → Json}

theorem readColon_colon (l : List UInt8) : readColon (58 :: l) = .ok l := by
  have hblank : isBlank 58 = false := by decide
  have hcolon : startsWith ':' (58 :: l) = true := rfl
  simp only [readColon, skipBlanks_cons hblank, hcolon, if_true, List.drop_succ_cons,
    List.drop_zero]
  rfl

theorem nextKey?_quote (l : List UInt8) : nextKey? true (34 :: l) = .ok (some l) := by
  have hblank : isBlank 34 = false := by decide
  have hclose : startsWith '\x7d' (34 :: l) = false := rfl
  have hquote : startsWith '"' (34 :: l) = true := rfl
  simp only [nextKey?, skipBlanks_cons hblank, hclose, hquote, if_true, List.drop_succ_cons,
    List.drop_zero]
  rfl

theorem nextKey?_comma (l : List UInt8) : nextKey? false (44 :: 34 :: l) = .ok (some l) := by
  have hcomma : isBlank 44 = false := by decide
  have hblank : isBlank 34 = false := by decide
  have hclose : startsWith '\x7d' (44 :: 34 :: l) = false := rfl
  have hnext : startsWith ',' (44 :: 34 :: l) = true := rfl
  have hquote : startsWith '"' (34 :: l) = true := rfl
  simp only [nextKey?, skipBlanks_cons hcomma, hclose, hnext, if_true, List.drop_succ_cons,
    List.drop_zero, skipBlanks_cons hblank, hquote]
  rfl

theorem nextKey?_close (first : Bool) (l : List UInt8) : nextKey? first (125 :: l) = .ok none := by
  have hblank : isBlank 125 = false := by decide
  have hclose : startsWith '\x7d' (125 :: l) = true := rfl
  simp only [nextKey?, skipBlanks_cons hblank, hclose, if_true]
  rfl

theorem readEntries_close (fuel : Nat) (first : Bool) (d : Dict α) (rest : List UInt8) :
    readEntries value (fuel + 1) first d (125 :: rest) = .ok (d, rest) := by
  have hblank : isBlank 125 = false := by decide
  rw [readEntries, nextKey?_close]
  simp only [bind, Except.bind, skipBlanks_cons hblank, List.drop_succ_cons, List.drop_zero]
  rfl

theorem readEntries_member (h : ReadsBack value f) {first : Bool} {l : List UInt8} {k : String}
    {a : α} {rest : List UInt8}
    (hkey : nextKey? first l = .ok (some (encode (k.toList.flatMap escape) ++
      34 :: 58 :: (encode (f a).renderChars ++ rest)))) (fuel : Nat) (d : Dict α) :
    readEntries value (fuel + 1) first d l = readEntries value fuel false (d.insert k a) rest := by
  rw [readEntries, hkey]
  simp only [bind, Except.bind, readText_renderText, readColon_colon, h a rest]

theorem encode_member (k : String) (v : Json) (rest : List UInt8) :
    encode (renderText k ++ ':' :: v.renderChars) ++ rest =
      34 :: (encode (k.toList.flatMap escape) ++ 34 :: 58 :: (encode v.renderChars ++ rest)) := by
  have hcolon : String.utf8EncodeChar ':' = [58] := by decide
  rw [encode_append, List.append_assoc, encode_renderText, encode_cons, hcolon]
  rfl

/-- The members after the first one are set in the dictionary of those read before. -/
theorem readEntries_laterMembers (h : ReadsBack value f) (l : List (String × α)) {fuel : Nat}
    (hfuel : l.length < fuel) (d : Dict α) (rest : List UInt8) :
    readEntries value fuel false d (encode (laterMembers f l) ++ 125 :: rest) =
      .ok (l.foldl (fun d e => d.insert e.1 e.2) d, rest) := by
  induction l generalizing fuel d with
  | nil =>
    obtain ⟨fuel, rfl⟩ := Nat.exists_eq_succ_of_ne_zero (Nat.ne_zero_of_lt hfuel)
    exact readEntries_close fuel false d rest
  | cons a r ih =>
    obtain ⟨fuel, rfl⟩ := Nat.exists_eq_succ_of_ne_zero (Nat.ne_zero_of_lt hfuel)
    have hcomma : String.utf8EncodeChar ',' = [44] := by decide
    have hbytes : encode (laterMembers f (a :: r)) ++ 125 :: rest =
        44 :: (encode (renderText a.1 ++ ':' :: (f a.2).renderChars) ++
          (encode (laterMembers f r) ++ 125 :: rest)) := by
      simp only [laterMembers, List.map_cons, renderMembers, List.flatMap_cons, encode_append,
        encode_cons, hcomma, List.append_assoc, List.cons_append, List.nil_append]
    rw [hbytes, encode_member, readEntries_member h (nextKey?_comma _)]
    exact ih (by simpa using hfuel) _

theorem length_le_encode_laterMembers (l : List (String × α)) :
    l.length ≤ (encode (laterMembers f l)).length := by
  have hcomma : String.utf8EncodeChar ',' = [44] := by decide
  induction l with
  | nil => exact Nat.zero_le _
  | cons a r ih =>
    have hcons : laterMembers f (a :: r) =
        ',' :: ((renderText a.1 ++ ':' :: (f a.2).renderChars) ++ laterMembers f r) := by
      simp only [laterMembers, List.map_cons, renderMembers, List.flatMap_cons, List.cons_append]
    rw [hcons, encode_cons, encode_append, hcomma]
    simp only [List.length_append, List.length_cons, List.length_nil]
    omega

theorem readsBack_object (h : ReadsBack value f) (l : List (String × α)) (rest : List UInt8) :
    Reader.dict value (encode (Json.object (l.map fun e => (e.1, f e.2))).renderChars ++ rest) =
      .ok (Dict.ofList l, rest) := by
  have hopen : String.utf8EncodeChar '\x7b' = [123] := by decide
  have hclose : String.utf8EncodeChar '\x7d' = [125] := by decide
  have hblank : isBlank 123 = false := by decide
  have hstart (l : List UInt8) : startsWith '\x7b' (123 :: l) = true := rfl
  simp only [Json.renderChars, encode_cons, encode_append, encode_nil, hopen, hclose,
    List.cons_append, List.nil_append, List.append_assoc, Reader.dict, skipBlanks_cons hblank,
    hstart, if_true, List.drop_succ_cons, List.drop_zero, List.length_cons]
  cases l with
  | nil => exact readEntries_close _ true Dict.empty rest
  | cons a r =>
    have hbytes : encode (joinComma (renderMembers ((a :: r).map fun e => (e.1, f e.2)))) ++
        125 :: rest = encode (renderText a.1 ++ ':' :: (f a.2).renderChars) ++
          (encode (laterMembers f r) ++ 125 :: rest) := by
      rw [List.map_cons, renderMembers, joinComma_cons, encode_append, List.append_assoc]
      rfl
    rw [hbytes, encode_member, readEntries_member h (nextKey?_quote _)]
    refine readEntries_laterMembers h r ?_ (Dict.empty.insert a.1 a.2) rest
    have hlength := length_le_encode_laterMembers (f := f) r
    simp only [List.length_append, List.length_cons]
    omega

end Members

/-- **A written dictionary is read back, if its values are**, in whatever order its entries are
written. -/
theorem decode_object {α : Type} {value : Reader α} {f : α → Json} (h : ReadsBack value f)
    {d : Dict α} {l : List (String × α)} (hl : l.Perm d.entries) :
    decode (.dict value) (Text.bytes (Json.object (l.map fun e => (e.1, f e.2))).render) =
      .ok d := by
  have hread := readsBack_object h l []
  rw [List.append_nil, Dict.ofList_of_perm hl] at hread
  rw [decode, Json.render, bytes_ofList, hread]
  rfl

end MessageBroker.Json

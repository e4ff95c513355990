import MessageBroker.Http.Response
import MessageBroker.Proofs.Fallible
import MessageBroker.Proofs.Json.RoundTrip
import MessageBroker.Proofs.Text.Decimal

/-! # Written records are read back

A number ends where a digit no longer follows, so the values of a record are read back only in front
of what stands after a member: `ReadsMember value f`. It holds of texts, dictionaries and lists,
which end by themselves, of words (`readsMember_word`) and of optional texts
(`readsBack_optionalText`). An object with some fields of a record, each at most once, is read as
the record in which these are set one after the other (`decode_record`); what it leaves out keeps
its default. Whatever is read, a part of the record that no field sets stays (`key_of_decode`). -/

namespace MessageBroker.Json

open Text

/-- What follows the value of a member: the next one or the end of the object. -/
def EndsMember (l : List UInt8) : Prop := ∃ b rest, l = b :: rest ∧ (b = 44 ∨ b = 125)

theorem endsMember_comma (l : List UInt8) : EndsMember (44 :: l) := ⟨44, l, rfl, .inl rfl⟩

theorem endsMember_close (l : List UInt8) : EndsMember (125 :: l) := ⟨125, l, rfl, .inr rfl⟩

/-- A reader takes from the written form of a value exactly the value, within an object. -/
def ReadsMember {α : Type} (value : Reader α) (f : α → Json) : Prop :=
  ∀ a rest, EndsMember rest → value (encode (f a).renderChars ++ rest) = .ok (a, rest)

theorem ReadsBack.readsMember {α : Type} {value : Reader α} {f : α → Json}
    (h : ReadsBack value f) : ReadsMember value f :=
  fun a rest _ => h a rest

/-! ### Numbers -/

/-- The number that continues another with digits. -/
def continued (n : Nat) (l : List Char) : Nat :=
  l.foldl (fun n c => n * 10 + (Decimal.digit? c).getD 0) n

theorem le_continued (n : Nat) (l : List Char) : n ≤ continued n l := by
  induction l generalizing n with
  | nil => exact Nat.le_refl n
  | cons c l ih =>
    have hstep : n ≤ n * 10 + (Decimal.digit? c).getD 0 := by omega
    exact Nat.le_trans hstep (ih _)

theorem encode_digit {c : Char} {d : Nat} (h : Decimal.digit? c = some d) :
    ∃ b, String.utf8EncodeChar c = [b] ∧ isDigit b = true ∧ b.toNat - 48 = d := by
  rw [Decimal.digit?] at h
  split_ifs at h with hc
  have hd : c.toNat - 48 = d := Option.some.inj h
  have hnat : (UInt8.ofNat c.toNat).toNat = c.toNat := UInt8.toNat_ofNat_of_lt' (by
    have : UInt8.size = 256 := rfl
    omega)
  refine ⟨UInt8.ofNat c.toNat, utf8EncodeChar_of_ascii (by omega), ?_, by rw [hnat]; exact hd⟩
  rw [isDigit, Bool.and_eq_true, decide_eq_true_eq, decide_eq_true_eq, UInt8.le_iff_toNat_le,
    UInt8.le_iff_toNat_le, hnat]
  exact hc

theorem EndsMember.startsWithDigit {l : List UInt8} (h : EndsMember l) :
    startsWithDigit l = false := by
  obtain ⟨b, rest, rfl, rfl | rfl⟩ := h <;> rfl

theorem EndsMember.readAfterInteger {l : List UInt8} (h : EndsMember l) (n : Nat) :
    readAfterInteger false n l = .ok (.natural n, l) := by
  obtain ⟨b, rest, rfl, rfl | rfl⟩ := h <;> rfl

/-- Digits are taken as long as their number is in range. -/
theorem takeSignificand_digits {l : List Char} (hl : Decimal.Digits l) {rest : List UInt8}
    (hrest : EndsMember rest) (n count : Nat) (hn : continued n l ≤ maxSignificand) :
    takeSignificand n count (encode l ++ rest) = (continued n l, count + l.length, rest) := by
  induction l generalizing n count with
  | nil =>
    obtain ⟨b, rest, rfl, hb⟩ := hrest
    have hdigit : isDigit b = false := by rcases hb with rfl | rfl <;> rfl
    simp [takeSignificand, hdigit, continued]
  | cons c l ih =>
    obtain ⟨d, hd⟩ := Option.isSome_iff_exists.mp (hl c List.mem_cons_self)
    obtain ⟨b, hbytes, hdigit, hb⟩ := encode_digit hd
    have hcons : continued n (c :: l) = continued (n * 10 + d) l := by
      rw [continued, List.foldl_cons, hd]
      rfl
    have hrange : n * 10 + d ≤ maxSignificand := by
      rw [hcons] at hn
      exact Nat.le_trans (le_continued _ l) hn
    rw [hcons] at hn ⊢
    rw [encode_cons, hbytes, List.singleton_append, List.cons_append, takeSignificand, hdigit, hb,
      Bool.true_and, if_pos (decide_eq_true hrange),
      ih (fun c hc => hl c (List.mem_cons_of_mem _ hc)) _ _ hn, List.length_cons]
    congr 2
    omega

theorem digit?_digitChar : ∀ n < 10, Decimal.digit? (Nat.digitChar n) = some n := by decide

/-- The numeral of a number that is not zero begins with another digit. -/
theorem exists_numeral_cons {n : Nat} (hn : n ≠ 0) : ∃ c l d, Decimal.numeral n = c :: l ∧
    Decimal.digit? c = some d ∧ d ≠ 0 ∧ continued d l = n := by
  induction n using Nat.strong_induction_on with
  | _ n ih =>
    rw [Decimal.numeral, Nat.toDigits_eq_if (by decide)]
    split_ifs with hlt
    · exact ⟨Nat.digitChar n, [], n, rfl, digit?_digitChar n hlt, hn, rfl⟩
    · obtain ⟨c, l, d, hfront, hd, hne, hvalue⟩ := ih (n / 10) (by omega) (by omega)
      rw [Decimal.numeral] at hfront
      refine ⟨c, l ++ [Nat.digitChar (n % 10)], d, by rw [hfront]; rfl, hd, hne, ?_⟩
      have hlast : (Decimal.digit? (Nat.digitChar (n % 10))).getD 0 = n % 10 := by
        rw [digit?_digitChar _ (Nat.mod_lt n (by decide)), Option.getD_some]
      rw [continued, List.foldl_append, List.foldl_cons, List.foldl_nil, hlast]
      change continued d l * 10 + n % 10 = n
      rw [hvalue]
      omega

theorem readNumber_numeral {n : Nat} (hn : n ≤ maxSignificand) {rest : List UInt8}
    (hrest : EndsMember rest) :
    readNumber false (encode (Decimal.numeral n) ++ rest) = .ok (.natural n, rest) := by
  rcases Decidable.em (n = 0) with rfl | hne
  · have hbytes : encode (Decimal.numeral 0) = [48] := by decide
    rw [hbytes, List.singleton_append, readNumber, hrest.startsWithDigit]
    exact hrest.readAfterInteger 0
  · obtain ⟨c, l, d, hcons, hd, hd0, hvalue⟩ := exists_numeral_cons hne
    have hl : Decimal.Digits l := fun a ha =>
      Decimal.digits_numeral n a (hcons ▸ List.mem_cons_of_mem c ha)
    obtain ⟨b, hbytes, hdigit, hb⟩ := encode_digit hd
    have hzero : (b == '0'.toUInt8) = false := by
      refine beq_eq_false_iff_ne.mpr ?_
      rintro rfl
      exact hd0 hb.symm
    rw [hcons, encode_cons, hbytes, List.singleton_append, List.cons_append, readNumber, hb, hdigit,
      takeSignificand_digits hl hrest d 1 (hvalue ▸ hn), hvalue, hzero]
    exact hrest.readAfterInteger n

theorem isBlank_of_isDigit {b : UInt8} (h : isDigit b = true) : isBlank b = false := by
  cases hb : isBlank b with
  | false => rfl
  | true =>
    simp only [isBlank, Bool.or_eq_true, beq_iff_eq] at hb
    rcases hb with ((rfl | rfl) | rfl) | rfl <;> exact absurd h (by decide)

/-- **A written word is read back within an object.** -/
theorem readsMember_word : ReadsMember Reader.word Json.ofWord := by
  intro n rest hrest
  have hchars : (Json.ofWord n).renderChars = Decimal.numeral n.toNat := by
    rw [Json.ofWord, Json.renderChars, if_neg (by omega), Int.natAbs_natCast]
    rfl
  have hword : n.toNat < UInt32.size := n.toNat_lt_size
  have hstart : ∃ b l, encode (Decimal.numeral n.toNat) ++ rest = b :: l ∧ isDigit b = true := by
    obtain ⟨c, l, hcons⟩ := List.exists_cons_of_ne_nil
      (List.ne_nil_of_length_pos (Nat.length_toDigits_pos (b := 10) (n := n.toNat)))
    rw [← Decimal.numeral] at hcons
    obtain ⟨d, hd⟩ := Option.isSome_iff_exists.mp
      (Decimal.digits_numeral n.toNat c (hcons ▸ List.mem_cons_self))
    obtain ⟨b, hbytes, hdigit, -⟩ := encode_digit hd
    rw [hcons, encode_cons, hbytes]
    exact ⟨b, _, rfl, hdigit⟩
  have hread := readNumber_numeral (n := n.toNat)
    (Nat.le_trans (Nat.le_of_lt hword) (by decide)) hrest
  obtain ⟨b, l, hcons, hdigit⟩ := hstart
  rw [hchars]
  rw [hcons] at hread ⊢
  have hminus : startsWith '-' (b :: l) = false := by
    refine beq_eq_false_iff_ne.mpr ?_
    rintro rfl
    exact absurd hdigit (by decide)
  have hstart : startsWithDigit (b :: l) = true := hdigit
  rw [Reader.word]
  simp only [skipBlanks_cons (isBlank_of_isDigit hdigit), hminus, hstart, if_true,
    Bool.false_eq_true, if_false, hread, bind, Except.bind, if_pos hword, UInt32.ofNat_toNat]

/-! ### Optional texts -/

/-- **A written text or null is read back.** -/
theorem readsBack_optionalText : ReadsBack Reader.optionalText Json.ofOptionalText := by
  intro o rest
  cases o with
  | none =>
    have hbytes : encode (Json.ofOptionalText none).renderChars = [110, 117, 108, 108] := by decide
    rw [hbytes]
    rfl
  | some s =>
    have hblank : isBlank 34 = false := by decide
    have hnull (l : List UInt8) : startsWith 'n' (34 :: l) = false := rfl
    have htext := readsBack_text s rest
    rw [Json.renderChars, encode_renderText] at htext
    rw [Json.ofOptionalText, Json.renderChars, encode_renderText]
    simp only [Reader.optionalText, skipBlanks_cons hblank, hnull, htext]
    rfl

/-- **A written dictionary is read back, if its values are.** -/
theorem readsBack_dict {α : Type} {value : Reader α} {f : α → Json} (h : ReadsBack value f) :
    ReadsBack (Reader.dict value) (Json.ofDict f) := by
  intro d rest
  have hread := readsBack_object h d.entries rest
  rw [Dict.ofList_of_perm (List.Perm.refl d.entries)] at hread
  exact hread

/-! ### Records -/

/-- A member of a written record, and what it sets in the record. -/
structure Member (σ : Type) where
  name : String
  value : Json
  set : σ → σ

/-- One of the fields reads a member, and so sets what the member does. -/
def Reads {σ : Type} (fields : List (Field σ)) (e : Member σ) : Prop :=
  ∃ f, fields.find? (·.name = e.name) = some f ∧ ∀ s rest, EndsMember rest →
    f.read s (encode e.value.renderChars ++ rest) = .ok (e.set s, rest)

theorem Field.reads {σ α : Type} {value : Reader α} {f : α → Json} (h : ReadsMember value f)
    {fields : List (Field σ)} {name : String} {set : σ → α → σ}
    (hfind : fields.find? (·.name = name) = some (.ofReader name value set)) (a : α) :
    Reads fields ⟨name, f a, fun s => set s a⟩ := by
  refine ⟨_, hfind, fun s rest hrest => ?_⟩
  simp only [Field.ofReader, h a rest hrest]
  rfl

section Record

variable {σ : Type} {fields : List (Field σ)}

theorem readMembers_close (fuel : Nat) (first : Bool) (seen : List String) (s : σ)
    (rest : List UInt8) :
    readMembers fields (fuel + 1) first seen s (125 :: rest) = .ok (s, rest) := by
  have hblank : isBlank 125 = false := by decide
  rw [readMembers, nextKey?_close]
  simp only [bind, Except.bind, skipBlanks_cons hblank, List.drop_succ_cons, List.drop_zero]
  rfl

/-- One member is read once its key is reached, and the rest after it. -/
theorem readMembers_member {e : Member σ} (he : Reads fields e) {first : Bool}
    {seen : List String} (hseen : e.name ∉ seen) {l rest : List UInt8} (hrest : EndsMember rest)
    (hkey : nextKey? first l = .ok (some (encode (e.name.toList.flatMap escape) ++
      34 :: 58 :: (encode e.value.renderChars ++ rest)))) (fuel : Nat) (s : σ) :
    readMembers fields (fuel + 1) first seen s l =
      readMembers fields fuel false (e.name :: seen) (e.set s) rest := by
  obtain ⟨f, hfind, hread⟩ := he
  rw [readMembers, hkey]
  simp only [bind, Except.bind, readText_renderText, hfind, if_neg hseen, readColon_colon,
    hread s rest hrest]

/-- The members of an object after the first one. -/
def laterEntries (l : List (Member σ)) : List UInt8 :=
  encode (laterMembers id (l.map fun e => (e.name, e.value))) ++ [125]

theorem laterEntries_cons (e : Member σ) (l : List (Member σ)) (rest : List UInt8) :
    laterEntries (e :: l) ++ rest =
      44 :: (encode (renderText e.name ++ ':' :: e.value.renderChars) ++
        (laterEntries l ++ rest)) := by
  have hcomma : String.utf8EncodeChar ',' = [44] := by decide
  simp only [laterEntries, laterMembers, List.map_cons, renderMembers, List.flatMap_cons,
    encode_append, encode_cons, hcomma, List.append_assoc, List.cons_append, List.nil_append, id]

theorem endsMember_laterEntries (l : List (Member σ)) (rest : List UInt8) :
    EndsMember (laterEntries l ++ rest) := by
  cases l with
  | nil => exact endsMember_close rest
  | cons e l =>
    rw [laterEntries_cons]
    exact endsMember_comma _

theorem readMembers_laterEntries (l : List (Member σ)) {seen : List String} {fuel : Nat}
    (hl : ∀ e ∈ l, Reads fields e) (hnames : (l.map Member.name).Nodup)
    (hseen : ∀ e ∈ l, e.name ∉ seen) (hfuel : l.length < fuel) (s : σ) (rest : List UInt8) :
    readMembers fields fuel false seen s (laterEntries l ++ rest) =
      .ok (l.foldl (fun s e => e.set s) s, rest) := by
  induction l generalizing seen fuel s with
  | nil =>
    obtain ⟨fuel, rfl⟩ := Nat.exists_eq_succ_of_ne_zero (Nat.ne_zero_of_lt hfuel)
    exact readMembers_close fuel false seen s rest
  | cons e l ih =>
    obtain ⟨fuel, rfl⟩ := Nat.exists_eq_succ_of_ne_zero (Nat.ne_zero_of_lt hfuel)
    obtain ⟨hfresh, hnames⟩ := List.nodup_cons.mp hnames
    rw [laterEntries_cons, encode_member,
      readMembers_member (hl e List.mem_cons_self) (hseen e List.mem_cons_self)
        (endsMember_laterEntries l rest) (nextKey?_comma _)]
    refine ih (fun e he => hl e (List.mem_cons_of_mem _ he)) hnames (fun e' he' hmem => ?_)
      (by simpa using hfuel) _
    rcases List.mem_cons.mp hmem with heq | hmem
    · exact hfresh (heq ▸ List.mem_map_of_mem he')
    · exact hseen e' (List.mem_cons_of_mem _ he') hmem

theorem length_le_laterEntries (l : List (Member σ)) : l.length < (laterEntries l).length := by
  have h := length_le_encode_laterMembers (f := id) (l.map fun e => (e.name, e.value))
  rw [List.length_map] at h
  rw [laterEntries, List.length_append, List.length_singleton]
  omega

/-- **A written record is read back**: each member sets its field, and fields without a member keep
their defaults. -/
theorem decode_record (name : String) (default : σ) {l : List (Member σ)}
    (hl : ∀ e ∈ l, Reads fields e) (hnames : (l.map Member.name).Nodup) :
    decode (.record name fields default)
        (Text.bytes (Json.object (l.map fun e => (e.name, e.value))).render) =
      .ok (l.foldl (fun s e => e.set s) default) := by
  have hopen : String.utf8EncodeChar '\x7b' = [123] := by decide
  have hclose : String.utf8EncodeChar '\x7d' = [125] := by decide
  have hblank : isBlank 123 = false := by decide
  have hlist (l : List UInt8) : startsWith '[' (123 :: l) = false := rfl
  have hobject (l : List UInt8) : startsWith '\x7b' (123 :: l) = true := rfl
  have hread : Reader.record name fields default
      (encode (Json.object (l.map fun e => (e.name, e.value))).renderChars) =
        .ok (l.foldl (fun s e => e.set s) default, []) := by
    simp only [Json.renderChars, encode_cons, encode_append, encode_nil, hopen, hclose,
      List.cons_append, List.nil_append, Reader.record, skipBlanks_cons hblank, hlist, hobject,
      if_true, List.drop_succ_cons, List.drop_zero, List.length_cons, Bool.false_eq_true, if_false]
    cases l with
    | nil => exact readMembers_close _ true [] default []
    | cons e l =>
      obtain ⟨hfresh, hnames⟩ := List.nodup_cons.mp hnames
      have hbytes : encode (joinComma (renderMembers ((e :: l).map fun e => (e.name, e.value)))) ++
          [125] = encode (renderText e.name ++ ':' :: e.value.renderChars) ++ laterEntries l := by
        rw [List.map_cons, renderMembers, joinComma_cons, encode_append, List.append_assoc,
          laterEntries, laterMembers, List.map_map]
        rfl
      have hfirst := readMembers_member (hl e List.mem_cons_self) (List.not_mem_nil (a := e.name))
        (endsMember_laterEntries l []) (nextKey?_quote _)
      rw [List.append_nil] at hfirst
      rw [hbytes, encode_member, hfirst]
      have hseen : ∀ e' ∈ l, e'.name ∉ [e.name] := by
        intro e' he' hmem
        exact hfresh (List.mem_singleton.mp hmem ▸ List.mem_map_of_mem he')
      have hlater {fuel : Nat} (hfuel : l.length < fuel) :=
        readMembers_laterEntries l (fun e he => hl e (List.mem_cons_of_mem _ he)) hnames hseen
          hfuel (e.set default) []
      simp only [List.append_nil] at hlater
      refine hlater ?_
      have hlength := length_le_laterEntries l
      simp only [List.length_cons, List.length_append]
      omega
  rw [decode, Json.render, bytes_ofList, hread]
  rfl

end Record

/-! ### Fields that may be left out -/

section Optional

variable {σ : Type}

/-- A member as it is written. -/
def Member.entry (e : Member σ) : String × Json := (e.name, e.value)

/-- The written member of a field, if there is a value for it. -/
def entryOf {α : Type} (name : String) (f : α → Json) (a : Option α) : List (String × Json) :=
  (a.map fun a => (name, f a)).toList

/-- The member of a field, if there is a value for it. -/
def memberOf {α : Type} (name : String) (f : α → Json) (set : σ → α → σ) (a : Option α) :
    List (Member σ) :=
  (a.map fun a => ⟨name, f a, fun s => set s a⟩).toList

section MemberOf

variable {α : Type} {name : String} {f : α → Json} {set : σ → α → σ} {a : Option α}

theorem map_entry_memberOf : (memberOf name f set a).map Member.entry = entryOf name f a := by
  cases a <;> rfl

theorem forall_mem_memberOf {P : Member σ → Prop} :
    (∀ e ∈ memberOf name f set a, P e) ↔ ∀ v ∈ a, P ⟨name, f v, fun s => set s v⟩ := by
  cases a <;> simp [memberOf]

theorem pairwise_memberOf {R : Member σ → Member σ → Prop} :
    (memberOf name f set a).Pairwise R := by
  cases a with
  | none => exact List.Pairwise.nil
  | some a => exact List.pairwise_singleton R _

theorem reads_memberOf {value : Reader α} (h : ReadsMember value f) {fields : List (Field σ)}
    (hfind : fields.find? (·.name = name) = some (.ofReader name value set)) :
    ∀ e ∈ memberOf name f set a, Reads fields e :=
  forall_mem_memberOf.mpr fun v _ => Field.reads h hfind v

end MemberOf

/-- Two members have different names and can be set in any order. -/
def Member.Apart (x y : Member σ) : Prop :=
  x.name ≠ y.name ∧ ∀ s, y.set (x.set s) = x.set (y.set s)

/-- **Members apart from each other are read in any order.** -/
theorem decode_of_perm {fields : List (Field σ)} {l : List (Member σ)}
    (hl : ∀ e ∈ l, Reads fields e) (hapart : l.Pairwise Member.Apart)
    {members : List (String × Json)} (h : members.Perm (l.map Member.entry)) (name : String)
    (default : σ) :
    decode (.record name fields default) (Text.bytes (Json.object members).render) =
      .ok (l.foldl (fun s e => e.set s) default) := by
  obtain ⟨m, rfl, hm⟩ : ∃ m : List (Member σ), members = m.map Member.entry ∧ m.Perm l :=
    (congrFun₂ (List.eq_map_comp_perm Member.entry) members l).mpr h
  have hnames : (m.map Member.name).Nodup := by
    refine (hm.map Member.name).nodup_iff.mpr (List.pairwise_map.mpr ?_)
    exact hapart.imp fun hxy => hxy.1
  have hsymm : Std.Symm fun x y : Member σ => ∀ s, y.set (x.set s) = x.set (y.set s) :=
    ⟨fun _ _ hxy s => (hxy s).symm⟩
  have hcomm : ∀ ⦃x⦄, x ∈ l → ∀ ⦃y⦄, y ∈ l → ∀ s, y.set (x.set s) = x.set (y.set s) :=
    List.Pairwise.forall_of_forall (fun _ _ _ => rfl) (hapart.imp fun hxy => hxy.2)
  rw [← hm.foldl_eq' fun _ hx _ hy => hcomm (hm.mem_iff.mp hx) (hm.mem_iff.mp hy)]
  exact decode_record name default (fun e he => hl e (hm.mem_iff.mp he)) hnames

end Optional

/-! ### What is read of any text -/

section Keeps

open Fallible

variable {σ κ : Type} {key : σ → κ} {fields : List (Field σ)}

/-- The value of a field, whatever it is, leaves a part of the record. -/
def Field.Keeps (f : Field σ) (key : σ → κ) : Prop :=
  ∀ s l s' rest, f.read s l = .ok (s', rest) → key s' = key s

theorem Field.keeps_ofReader {α : Type} (name : String) (value : Reader α) {set : σ → α → σ}
    (h : ∀ s a, key (set s a) = key s) : (Field.ofReader name value set).Keeps key := by
  intro s l s' rest hread
  unfold Field.ofReader at hread
  rcases hvalue : value l with e | ⟨a, rest'⟩
  · simp [hvalue, Except.map] at hread
  · simp only [hvalue, Except.map, Except.ok.injEq, Prod.mk.injEq] at hread
    rw [← hread.1, h]

theorem key_of_readPositional (h : ∀ f ∈ fields, f.Keeps key) {first : Bool} {s s' : σ}
    {l rest : List UInt8} (hread : readPositional fields first s l = .ok (s', rest)) :
    key s' = key s := by
  induction fields generalizing first s l with
  | nil =>
    obtain ⟨_, -, hs⟩ := exists_of_bind_ok hread
    cases hs
    rfl
  | cons f fields ih =>
    obtain ⟨hf, hfields⟩ := List.forall_mem_cons.mp h
    rw [readPositional] at hread
    obtain ⟨next, -, hnext⟩ := exists_of_bind_ok hread
    cases next with
    | none =>
      obtain ⟨_, -, hs⟩ := exists_of_bind_ok hnext
      cases hs
      rfl
    | some l' =>
      obtain ⟨⟨s₁, l₁⟩, hvalue, hrest⟩ := exists_of_bind_ok hnext
      exact (ih hfields hrest).trans (hf s l' s₁ l₁ hvalue)

theorem key_of_readMembers (h : ∀ f ∈ fields, f.Keeps key) {fuel : Nat} {first : Bool}
    {seen : List String} {s s' : σ} {l rest : List UInt8}
    (hread : readMembers fields fuel first seen s l = .ok (s', rest)) : key s' = key s := by
  induction fuel generalizing first seen s l with
  | zero => cases hread
  | succ fuel ih =>
    rw [readMembers] at hread
    obtain ⟨next, -, hnext⟩ := exists_of_bind_ok hread
    cases next with
    | none =>
      cases hnext
      rfl
    | some l₁ =>
      obtain ⟨⟨name, l₂⟩, -, hmember⟩ := exists_of_bind_ok hnext
      dsimp only at hmember
      split at hmember
      · obtain ⟨l₃, -, hskip⟩ := exists_of_bind_ok hmember
        obtain ⟨l₄, -, hrest⟩ := exists_of_bind_ok hskip
        exact ih hrest
      · next f hfind =>
        by_cases hseen : name ∈ seen
        · rw [if_pos hseen] at hmember
          cases hmember
        · rw [if_neg hseen] at hmember
          obtain ⟨l₃, -, hcolon⟩ := exists_of_bind_ok hmember
          obtain ⟨⟨s₁, l₄⟩, hvalue, hrest⟩ := exists_of_bind_ok hcolon
          exact (ih hrest).trans (h f (List.mem_of_find?_eq_some hfind) s l₃ s₁ l₄ hvalue)

theorem wrongKind_ne_ok {α : Type} (expected : String) (l : List UInt8) (a : α × List UInt8) :
    wrongKind expected l ≠ .ok a := by
  intro h
  unfold wrongKind at h
  cases l with
  | nil => cases h
  | cons b l =>
    dsimp only at h
    split_ifs at h
    -- a value of another kind is read as far as it says what it is, and refused
    all_goals first
      | cases h
      | (obtain ⟨_, -, hrefused⟩ := exists_of_bind_ok h; cases hrefused)

/-- **What no field sets is as in the default**, whatever text a record is read from. -/
theorem key_of_decode (h : ∀ f ∈ fields, f.Keeps key) {name : String} {default s : σ}
    {l : List UInt8} (hread : decode (.record name fields default) l = .ok s) :
    key s = key default := by
  obtain ⟨⟨s', rest⟩, hrecord, hend⟩ := exists_of_bind_ok hread
  have hs : s' = s := by
    dsimp only at hend
    split_ifs at hend
    · exact Except.ok.inj hend
    · cases hend
  subst hs
  unfold Reader.record at hrecord
  dsimp only at hrecord
  split_ifs at hrecord
  · exact key_of_readPositional h hrecord
  · exact key_of_readMembers h hrecord
  · exact absurd hrecord (wrongKind_ne_ok _ _ _)

end Keeps

end MessageBroker.Json

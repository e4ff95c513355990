import MessageBroker.Http.Request
import MessageBroker.Proofs.Text.Decimal

/-! # What a query says

Each known parameter is read into a part of the query that no other one changes (`Part`,
`Independent`). A query is read if and only if each of them occurs at most once and has a value that
can be read, and then each part is the one given, or the default where none is given
(`readQuery_eq_ok_iff`). -/

namespace MessageBroker.Http

open Text

/-- The values that the pairs of a query give to a name, in order. -/
def valuesOf (name : String) (pairs : List (String × String)) : List String :=
  (pairs.filter (·.1 = name)).map Prod.snd

theorem valuesOf_cons_self (name value : String) (rest : List (String × String)) :
    valuesOf name ((name, value) :: rest) = value :: valuesOf name rest := by
  rw [valuesOf, List.filter_cons_of_pos (by simp), List.map_cons]
  rfl

theorem valuesOf_cons_of_ne {name name' : String} (h : name' ≠ name) (value : String)
    (rest : List (String × String)) :
    valuesOf name ((name', value) :: rest) = valuesOf name rest := by
  rw [valuesOf, List.filter_cons_of_neg (by simpa using h)]
  rfl

/-- A known parameter together with the part of the query that it is read into. -/
structure Part (σ : Type) where
  parameter : Parameter σ
  Value : Type
  parse : String → Except QueryProblem Value
  get : σ → Value
  set : σ → Value → σ
  read_eq : ∀ s value, parameter.read s value = (parse value).map (set s)
  get_set : ∀ s a, get (set s a) = a

namespace Part

variable {σ : Type}

/-- The name of the parameter of a part. -/
def name (p : Part σ) : String := p.parameter.name

/-- The part of a query is the one that the values given for it say, at most one and only if the
parameter was not seen before, or else the part of another query. -/
def Given (p : Part σ) (seen : List String) (s : σ) (values : List String) (s' : σ) : Prop :=
  values = [] ∧ p.get s' = p.get s ∨
    p.name ∉ seen ∧ ∃ value, values = [value] ∧ p.parse value = .ok (p.get s')

/-- Parts with different names that together are the whole query, each of which is set without a
change of the others. -/
structure Independent (parts : List (Part σ)) : Prop where
  get_set_of_ne : ∀ p ∈ parts, ∀ q ∈ parts, q.name ≠ p.name → ∀ s a, q.get (p.set s a) = q.get s
  ext : ∀ s s', (∀ p ∈ parts, p.get s' = p.get s) → s' = s
  eq_of_name : ∀ p ∈ parts, ∀ q ∈ parts, q.name = p.name → q = p

variable {parts : List (Part σ)}

theorem find?_parameters {name : String} {k : Parameter σ}
    (h : (parts.map Part.parameter).find? (·.name = name) = some k) :
    ∃ p ∈ parts, p.parameter = k ∧ p.name = name := by
  obtain ⟨p, hp, hk⟩ := List.mem_map.mp (List.mem_of_find?_eq_some h)
  have hname := List.find?_some h
  exact ⟨p, hp, hk, by rw [Part.name, hk]; exact of_decide_eq_true hname⟩

theorem readPairs_eq_ok_iff (hparts : Independent parts) (pairs : List (String × String))
    (seen : List String) (s s' : σ) :
    readPairs (parts.map Part.parameter) seen s pairs = .ok s' ↔
      ∀ p ∈ parts, p.Given seen s (valuesOf p.name pairs) s' := by
  induction pairs generalizing seen s with
  | nil =>
    rw [readPairs, Except.ok.injEq]
    constructor
    · rintro rfl p -
      exact .inl ⟨rfl, rfl⟩
    · intro h
      refine (hparts.ext s s' fun p hp => ?_).symm
      rcases h p hp with ⟨-, h⟩ | ⟨-, value, h, -⟩
      · exact h
      · cases h
  | cons pair rest ih =>
    obtain ⟨name, value⟩ := pair
    rw [readPairs]
    cases hfind : (parts.map Part.parameter).find? (·.name = name) with
    | none =>
      have hne (p : Part σ) (hp : p ∈ parts) : name ≠ p.name := by
        intro heq
        have := List.find?_eq_none.mp hfind p.parameter (List.mem_map_of_mem hp)
        exact this (decide_eq_true heq.symm)
      rw [ih]
      refine forall₂_congr fun p hp => ?_
      rw [valuesOf_cons_of_ne (hne p hp)]
    | some k =>
      obtain ⟨p, hp, rfl, rfl⟩ := find?_parameters hfind
      simp only
      -- Only the part of this parameter is set, and it must not be seen again.
      split_ifs with hseen
      · refine iff_of_false (fun h => by cases h) fun h => ?_
        have hgiven := h p hp
        rw [valuesOf_cons_self] at hgiven
        rcases hgiven with ⟨h, -⟩ | ⟨h, -⟩
        · cases h
        · exact h hseen
      · rw [p.read_eq]
        cases hparse : p.parse value with
        | error problem =>
          refine iff_of_false (fun h => by cases h) fun h => ?_
          have hgiven := h p hp
          rw [valuesOf_cons_self] at hgiven
          rcases hgiven with ⟨h, -⟩ | ⟨-, v, h, hv⟩
          · cases h
          · obtain ⟨rfl, -⟩ := List.cons.inj h
            rw [hparse] at hv
            cases hv
        | ok a =>
          change readPairs _ (p.name :: seen) (p.set s a) rest = .ok s' ↔ _
          rw [ih]
          refine forall₂_congr fun q hq => ?_
          by_cases hname : q.name = p.name
          · obtain rfl := hparts.eq_of_name p hp q hq hname
            rw [valuesOf_cons_self, Given, Given, q.get_set]
            constructor
            · rintro (⟨hnil, hget⟩ | ⟨hmem, -⟩)
              · exact .inr ⟨hseen, value, by rw [hnil], by rw [hparse, hget]⟩
              · exact absurd List.mem_cons_self hmem
            · rintro (⟨hnil, -⟩ | ⟨-, v, hcons, hv⟩)
              · cases hnil
              · obtain ⟨rfl, hnil⟩ := List.cons.inj hcons
                exact .inl ⟨hnil, Except.ok.inj (hv.symm.trans hparse)⟩
          · have hmem : q.name ∉ p.name :: seen ↔ q.name ∉ seen := by
              rw [List.mem_cons, or_iff_right hname]
            rw [valuesOf_cons_of_ne (Ne.symm hname), Given, Given, hmem,
              hparts.get_set_of_ne p hp q hq hname]

theorem independent_pair {p q : Part σ} (hname : p.name ≠ q.name)
    (hp : ∀ s a, q.get (p.set s a) = q.get s) (hq : ∀ s a, p.get (q.set s a) = p.get s)
    (hext : ∀ s s', p.get s' = p.get s → q.get s' = q.get s → s' = s) : Independent [p, q] where
  get_set_of_ne a ha b hb hne := by
    simp only [List.mem_cons, List.not_mem_nil, or_false] at ha hb
    rcases ha with rfl | rfl <;> rcases hb with rfl | rfl
    · exact absurd rfl hne
    · exact hp
    · exact hq
    · exact absurd rfl hne
  ext s s' h := hext s s' (h p (by simp)) (h q (by simp))
  eq_of_name a ha b hb heq := by
    simp only [List.mem_cons, List.not_mem_nil, or_false] at ha hb
    rcases ha with rfl | rfl <;> rcases hb with rfl | rfl
    · rfl
    · exact absurd heq.symm hname
    · exact absurd heq hname
    · rfl

theorem independent_single {p : Part σ} (hext : ∀ s s', p.get s' = p.get s → s' = s) :
    Independent [p] where
  get_set_of_ne a ha b hb hne := by
    rw [List.mem_singleton] at ha hb
    exact absurd (congrArg Part.name (hb.trans ha.symm)) hne
  ext s s' h := hext s s' (h p List.mem_cons_self)
  eq_of_name a ha b hb _ := by
    rw [List.mem_singleton] at ha hb
    exact hb.trans ha.symm

/-- **A query is read if and only if every known parameter occurs at most once and can be read.**
What no parameter says is as in the default. -/
theorem readQuery_eq_ok_iff (hparts : Independent parts) (default : σ) (query : String) (s : σ) :
    readQuery (parts.map Part.parameter) default query = .ok s ↔
      ∀ p ∈ parts, p.Given [] default (valuesOf p.name (Percent.formPairs query)) s :=
  readPairs_eq_ok_iff hparts (Percent.formPairs query) [] default s

end Part

/-! ### Texts and words -/

/-- A text means a word if it is a numeral of it. -/
def IsWord (value : String) (n : UInt32) : Prop :=
  Decimal.read (UInt32.size - 1) value = .ok n.toNat

/-- The word that a value of a query means. -/
def parseWord (value : String) : Except QueryProblem UInt32 :=
  match Decimal.read (UInt32.size - 1) value with
  | .ok n => .ok (UInt32.ofNat n)
  | .error problem => .error (.number problem)

theorem parseWord_eq_ok_iff {value : String} {n : UInt32} :
    parseWord value = .ok n ↔ IsWord value n := by
  rw [parseWord, IsWord]
  cases hread : Decimal.read (UInt32.size - 1) value with
  | error problem => simp
  | ok k =>
    have hk : k < UInt32.size := Nat.lt_of_le_pred (by decide)
      (Decimal.read_eq_ok_iff.mp hread).2
    simp only [Except.ok.injEq]
    constructor
    · rintro rfl
      exact (UInt32.toNat_ofNat_of_lt' hk).symm
    · rintro rfl
      exact UInt32.ofNat_toNat

/-- A part that is a text, if one is given. -/
def Part.ofText {σ : Type} (name : String) (get : σ → Option String) (set : σ → Option String → σ)
    (h : ∀ s a, get (set s a) = a) : Part σ where
  parameter := .text name fun s value => set s (some value)
  Value := Option String
  parse value := .ok (some value)
  get := get
  set := set
  read_eq _ _ := rfl
  get_set := h

/-- A part that is made of a word. -/
def Part.ofWord {σ α : Type} (name : String) (make : UInt32 → α) (get : σ → α) (set : σ → α → σ)
    (h : ∀ s a, get (set s a) = a) : Part σ where
  parameter := .word name fun s n => set s (make n)
  Value := α
  parse value := (parseWord value).map make
  get := get
  set := set
  read_eq s value := by
    simp only [Parameter.word, parseWord]
    cases Decimal.read (UInt32.size - 1) value <;> rfl
  get_set := h

/-! ### The queries of requests -/

namespace Request

/-- The values that the query of a request gives to a name. -/
def given (r : Request) (name : String) : List String :=
  valuesOf name (Percent.formPairs r.query)

/-- The query of a request gives a value to a name at most once, and if it gives none the value is
the default. -/
def Gives {α : Type} (r : Request) (name : String) (Means : String → α → Prop) (default a : α) :
    Prop :=
  r.given name = [] ∧ a = default ∨ ∃ value, r.given name = [value] ∧ Means value a

variable {r : Request}

theorem given_iff {σ : Type} (p : Part σ) (s s' : σ) :
    p.Given [] s (valuesOf p.name (Percent.formPairs r.query)) s' ↔
      r.Gives p.name (fun value a => p.parse value = .ok a) (p.get s) (p.get s') := by
  simp [Part.Given, Gives, given]

theorem gives_congr {α : Type} {name : String} {Means Means' : String → α → Prop} {default a : α}
    (h : ∀ value, Means value a ↔ Means' value a) :
    r.Gives name Means default a ↔ r.Gives name Means' default a := by
  simp only [Gives, h]

theorem gives_word {name : String} {default n : UInt32} :
    r.Gives name (fun value a => (parseWord value).map id = .ok a) default n ↔
      r.Gives name IsWord default n :=
  gives_congr fun value => by rw [Except.map_id, id, parseWord_eq_ok_iff]

/-- **A listing is asked for by an offset and a limit**, by default that of the first entry. -/
theorem window_eq_ok_iff {w : Window} : r.window = .ok w ↔
    r.Gives "offset" IsWord 0 w.offset ∧ r.Gives "limit" IsWord 1 w.limit := by
  have hparts := Part.independent_pair
    (p := .ofWord "offset" id Window.offset (fun w n => { w with offset := n }) fun _ _ => rfl)
    (q := .ofWord "limit" id Window.limit (fun w n => { w with limit := n }) fun _ _ => rfl)
    (by decide) (fun _ _ => rfl) (fun _ _ => rfl)
    (fun s s' ho hl => by cases s; cases s'; cases ho; cases hl; rfl)
  refine (Part.readQuery_eq_ok_iff hparts ⟨0, 1⟩ r.query w).trans ?_
  simp only [List.forall_mem_cons, List.not_mem_nil, false_implies, implies_true, and_true,
    given_iff]
  exact and_congr gives_word gives_word

/-- **A lease is asked for by a label and a limit**, which may be left out. -/
theorem leaseQuery_eq_ok_iff {q : LeaseQuery} : r.leaseQuery = .ok q ↔
    r.Gives "label" (fun value s => s = some value) none q.label ∧
      r.Gives "limit" (fun value n => ∃ k, n = some k ∧ IsWord value k) none q.limit := by
  have hparts := Part.independent_pair
    (p := .ofText "label" LeaseQuery.label (fun q s => { q with label := s }) fun _ _ => rfl)
    (q := .ofWord "limit" some LeaseQuery.limit (fun q n => { q with limit := n }) fun _ _ => rfl)
    (by decide) (fun _ _ => rfl) (fun _ _ => rfl)
    (fun s s' ho hl => by cases s; cases s'; cases ho; cases hl; rfl)
  refine (Part.readQuery_eq_ok_iff hparts ⟨none, none⟩ r.query q).trans ?_
  simp only [List.forall_mem_cons, List.not_mem_nil, false_implies, implies_true, and_true,
    given_iff]
  refine and_congr (gives_congr fun value => ?_) (gives_congr fun value => ?_)
  · change Except.ok (some value) = Except.ok q.label ↔ _
    rw [Except.ok.injEq]
    exact eq_comm
  · change (parseWord value).map some = .ok q.limit ↔ _
    simp only [← parseWord_eq_ok_iff]
    cases parseWord value with
    | error problem => simp [Except.map]
    | ok k =>
      simp only [Except.map, Except.ok.injEq, exists_eq_right']
      exact eq_comm

/-- **A timeout is asked for by its seconds**, by default none. -/
theorem visibilityTimeout_eq_ok_iff {n : UInt32} : r.visibilityTimeout = .ok n ↔
    r.Gives "visibility_timeout_seconds" IsWord 0 n := by
  have hparts := Part.independent_single
    (p := .ofWord "visibility_timeout_seconds" id id (fun _ n => n) fun _ _ => rfl)
    (fun _ _ h => h)
  refine (Part.readQuery_eq_ok_iff hparts 0 r.query n).trans ?_
  simp only [List.forall_mem_cons, List.not_mem_nil, false_implies, implies_true, and_true,
    given_iff]
  exact gives_word

end Request

end MessageBroker.Http

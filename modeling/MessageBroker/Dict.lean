import MessageBroker.Text.Order

/-! # Dictionaries

A finite map from texts, kept as its entries in strictly ascending order of keys. Equal maps are
therefore equal values: `ext_get?` says that a dictionary is determined by its look-ups. The last
insertion of a key wins (`get?_insert`), `insertNew` keeps the first (`get?_insertNew`). -/

namespace MessageBroker

/-- A finite map from texts to `α`. -/
structure Dict (α : Type) where
  /-- The entries, in ascending order of keys. -/
  entries : List (String × α)
  sorted : entries.Pairwise fun a b => Text.lt a.1 b.1 = true

namespace Dict

variable {α : Type}

instance [DecidableEq α] : DecidableEq (Dict α) := fun a b =>
  decidable_of_iff (a.entries = b.entries)
    ⟨fun h => by cases a; cases b; simp_all, fun h => h ▸ rfl⟩

/-- The dictionary without entries. -/
def empty : Dict α := ⟨[], List.Pairwise.nil⟩

instance : EmptyCollection (Dict α) := ⟨empty⟩
instance : Inhabited (Dict α) := ⟨empty⟩

/-- Entries with `key` set to `value`. -/
def insertEntry (key : String) (value : α) : List (String × α) → List (String × α)
  | [] => [(key, value)]
  | (k, v) :: r =>
    if Text.lt key k then (key, value) :: (k, v) :: r
    else if key = k then (key, value) :: r
    else (k, v) :: insertEntry key value r

/-- The value of `key` among the entries. -/
def lookup (key : String) : List (String × α) → Option α
  | [] => none
  | (k, v) :: r => if key = k then some v else lookup key r

theorem mem_insertEntry {key : String} {value : α} {l : List (String × α)} {e : String × α}
    (h : e ∈ insertEntry key value l) : e = (key, value) ∨ e ∈ l := by
  induction l with
  | nil => exact Or.inl (by simpa [insertEntry] using h)
  | cons a r ih =>
    unfold insertEntry at h
    split at h
    · simpa using h
    · split at h
      · rcases List.mem_cons.mp h with h | h
        · exact Or.inl h
        · exact Or.inr (List.mem_cons_of_mem _ h)
      · rcases List.mem_cons.mp h with h | h
        · exact Or.inr (h ▸ List.mem_cons_self)
        · exact (ih h).imp id (List.mem_cons_of_mem _)

theorem sorted_insertEntry {key : String} {value : α} {l : List (String × α)}
    (h : l.Pairwise fun a b => Text.lt a.1 b.1 = true) :
    (insertEntry key value l).Pairwise fun a b => Text.lt a.1 b.1 = true := by
  induction l with
  | nil => simp [insertEntry]
  | cons a r ih =>
    obtain ⟨ha, hr⟩ := List.pairwise_cons.mp h
    unfold insertEntry
    split
    next hlt =>
      refine List.pairwise_cons.mpr ⟨fun b hb => ?_, h⟩
      rcases List.mem_cons.mp hb with rfl | hb
      · exact hlt
      · exact Text.lt_trans hlt (ha b hb)
    next hlt =>
      split
      next heq => exact List.pairwise_cons.mpr ⟨fun b hb => heq ▸ ha b hb, hr⟩
      next hne =>
        refine List.pairwise_cons.mpr ⟨fun b hb => ?_, ih hr⟩
        rcases mem_insertEntry hb with rfl | hb
        · exact Text.lt_of_not_lt_of_ne hlt hne
        · exact ha b hb

theorem lookup_insertEntry (key k : String) (value : α) (l : List (String × α)) :
    lookup k (insertEntry key value l) = if k = key then some value else lookup k l := by
  induction l with
  | nil => rfl
  | cons a r ih =>
    unfold insertEntry
    split
    · rfl
    · split
      next heq =>
        subst heq
        simp only [lookup]
        split <;> rfl
      next hne =>
        simp only [lookup, ih]
        split
        next hk => rw [if_neg (show ¬k = key from fun h => hne (h ▸ hk))]
        next => rfl

/-- The dictionary with `key` set to `value`. -/
def insert (d : Dict α) (key : String) (value : α) : Dict α :=
  ⟨insertEntry key value d.entries, sorted_insertEntry d.sorted⟩

/-- The value of `key`. -/
def get? (d : Dict α) (key : String) : Option α := lookup key d.entries

/-- Whether `key` has a value. -/
def contains (d : Dict α) (key : String) : Bool := (d.get? key).isSome

/-- The dictionary with `key` set to `value` unless it has a value already. -/
def insertNew (d : Dict α) (key : String) (value : α) : Dict α :=
  if d.contains key then d else d.insert key value

/-- The dictionary of a list of entries, of which later ones win. -/
def ofList (l : List (String × α)) : Dict α := l.foldl (fun d e => d.insert e.1 e.2) empty

def isEmpty (d : Dict α) : Bool := d.entries.isEmpty

theorem get?_empty (k : String) : (empty : Dict α).get? k = none := rfl

theorem get?_insert (d : Dict α) (key k : String) (value : α) :
    (d.insert key value).get? k = if k = key then some value else d.get? k :=
  lookup_insertEntry key k value d.entries

theorem get?_insertNew (d : Dict α) (key k : String) (value : α) :
    (d.insertNew key value).get? k =
      if k = key then some ((d.get? key).getD value) else d.get? k := by
  unfold insertNew contains
  split
  next h =>
    obtain ⟨v, hv⟩ := Option.isSome_iff_exists.mp h
    split
    next hk => rw [hk, hv]; rfl
    next => rfl
  next h =>
    rw [get?_insert, Option.not_isSome_iff_eq_none.mp h]
    rfl

theorem lookup_eq_none {key : String} {l : List (String × α)}
    (h : ∀ e ∈ l, Text.lt key e.1 = true) : lookup key l = none := by
  induction l with
  | nil => rfl
  | cons a r ih =>
    have ha := h a List.mem_cons_self
    have hne : key ≠ a.1 := fun he => Text.lt_irrefl _ (he ▸ ha)
    simp only [lookup, if_neg hne]
    exact ih fun e he => h e (List.mem_cons_of_mem _ he)

theorem entries_ext {l m : List (String × α)}
    (hl : l.Pairwise fun a b => Text.lt a.1 b.1 = true)
    (hm : m.Pairwise fun a b => Text.lt a.1 b.1 = true)
    (h : ∀ k, lookup k l = lookup k m) : l = m := by
  induction l generalizing m with
  | nil =>
    cases m with
    | nil => rfl
    | cons b t => have := h b.1; simp [lookup] at this
  | cons a r ih =>
    obtain ⟨ha, hr⟩ := List.pairwise_cons.mp hl
    cases m with
    | nil => have := h a.1; simp [lookup] at this
    | cons b t =>
      obtain ⟨hb, ht⟩ := List.pairwise_cons.mp hm
      have hkey : a.1 = b.1 := by
        by_cases hlt : Text.lt a.1 b.1 = true
        · have := h a.1
          rw [lookup_eq_none (l := b :: t) fun e he => by
            rcases List.mem_cons.mp he with rfl | he
            · exact hlt
            · exact Text.lt_trans hlt (hb e he)] at this
          simp [lookup] at this
        · by_cases hne : a.1 = b.1
          · exact hne
          · have hgt := Text.lt_of_not_lt_of_ne hlt hne
            have := h b.1
            rw [lookup_eq_none (l := a :: r) fun e he => by
              rcases List.mem_cons.mp he with rfl | he
              · exact hgt
              · exact Text.lt_trans hgt (ha e he)] at this
            simp [lookup] at this
      have hval : a.2 = b.2 := by
        have := h a.1
        simpa [lookup, hkey] using this
      have hab : a = b := Prod.ext hkey hval
      subst hab
      congr 1
      refine ih hr ht fun k => ?_
      by_cases hk : k = a.1
      · subst hk
        rw [lookup_eq_none ha, lookup_eq_none hb]
      · simpa [lookup, hk] using h k

theorem ext_get? {d e : Dict α} (h : ∀ k, d.get? k = e.get? k) : d = e := by
  cases d with | mk l hl =>
  cases e with | mk m hm =>
  have := entries_ext hl hm h
  subst this
  rfl

end Dict

end MessageBroker

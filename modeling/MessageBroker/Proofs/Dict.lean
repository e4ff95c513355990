import Mathlib
import MessageBroker.Dict

/-! # Dictionaries and lists of entries

As its keys are distinct, a dictionary has at a key what one of its entries says
(`mem_entries_iff`), and it is made from its entries in whatever order they are set
(`ofList_of_perm`). Of two dictionaries that are merged the second wins (`get?_merge`). -/

namespace MessageBroker.Dict

variable {α : Type} {l l' : List (String × α)}

theorem lookup_eq_some_iff (hl : (l.map Prod.fst).Nodup) (k : String) (v : α) :
    lookup k l = some v ↔ (k, v) ∈ l := by
  induction l with
  | nil => simp [lookup]
  | cons a r ih =>
    obtain ⟨ha, hr⟩ := List.nodup_cons.mp hl
    rw [lookup, List.mem_cons, ← ih hr]
    by_cases hk : k = a.1
    · have hnone : lookup k r ≠ some v := fun hv =>
        ha (hk ▸ List.mem_map_of_mem ((ih hr).mp hv))
      rw [if_pos hk, or_iff_left hnone, Option.some.injEq, hk]
      exact ⟨fun hv => Prod.ext rfl hv.symm, fun he => (congrArg Prod.snd he).symm⟩
    · have hne : (k, v) ≠ a := fun he => hk (congrArg Prod.fst he)
      rw [if_neg hk, or_iff_right hne]

theorem lookup_eq_of_perm (hl : (l.map Prod.fst).Nodup) (h : l'.Perm l) (k : String) :
    lookup k l' = lookup k l := by
  have hl' : (l'.map Prod.fst).Nodup := (h.map Prod.fst).nodup_iff.mpr hl
  refine Option.ext fun v => ?_
  rw [lookup_eq_some_iff hl', lookup_eq_some_iff hl, h.mem_iff]

theorem nodup_keys (d : Dict α) : (d.entries.map Prod.fst).Nodup := by
  refine List.pairwise_map.mpr (d.sorted.imp fun {a b} hlt he => ?_)
  exact Text.lt_irrefl _ (he ▸ hlt)

theorem mem_entries_iff {d : Dict α} {k : String} {v : α} :
    (k, v) ∈ d.entries ↔ d.get? k = some v :=
  (lookup_eq_some_iff d.nodup_keys k v).symm

/-- Entries with keys of their own are all found, before those of the dictionary they are set in. -/
theorem get?_foldl_insert (hl : (l.map Prod.fst).Nodup) (d : Dict α) (k : String) :
    (l.foldl (fun d e => d.insert e.1 e.2) d).get? k = (lookup k l).or (d.get? k) := by
  induction l generalizing d with
  | nil => rfl
  | cons a r ih =>
    obtain ⟨ha, hr⟩ := List.nodup_cons.mp hl
    rw [List.foldl_cons, ih hr, get?_insert, lookup]
    by_cases hk : k = a.1
    · have hnone : lookup k r = none := by
        refine Option.eq_none_iff_forall_ne_some.mpr fun v hv => ha ?_
        exact hk ▸ List.mem_map_of_mem ((lookup_eq_some_iff hr k v).mp hv)
      rw [hnone, if_pos hk, if_pos hk]
      rfl
    · rw [if_neg hk, if_neg hk]

theorem ofList_of_perm {d : Dict α} (h : l.Perm d.entries) : ofList l = d := by
  refine ext_get? fun k => ?_
  rw [ofList, get?_foldl_insert ((h.map Prod.fst).nodup_iff.mpr d.nodup_keys),
    lookup_eq_of_perm d.nodup_keys h, get?_empty, Option.or_none]
  rfl

/-- The dictionary with the entries of another set in it. -/
def merge (d e : Dict α) : Dict α := e.entries.foldl (fun d e => d.insert e.1 e.2) d

theorem get?_merge (d e : Dict α) (k : String) : (d.merge e).get? k = (e.get? k).or (d.get? k) :=
  get?_foldl_insert e.nodup_keys d k

end MessageBroker.Dict

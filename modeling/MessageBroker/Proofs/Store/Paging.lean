import MessageBroker.Proofs.Store.ReadBack

/-! # Listings in pages

A listing is a window on the entities of a table in ascending order of identifiers. There is one
such order, whatever order the table holds them in, so windows fit together: adjoining ones are one
window, and windows of one size, read until one is empty, are the whole table (`exists_pages`). What
this says of a listing is `Tiles`; it holds of every listing of a table whose entities are read back
(`Tabulates.tiles`), and of the four that there are (`listings_tile_tables`). -/

namespace MessageBroker.Store

open Fallible

/-! ### Windows on a list -/

section Windows

variable {α : Type}

/-- A list is read in windows of one size, until one is empty. -/
theorem exists_pages {n : ℕ} (hn : 0 < n) (l : List α) : ∃ pages : List (List α),
    pages.flatten = l ∧ (∀ p ∈ pages, p ≠ []) ∧ pages.length * n < l.length + n ∧
      ∀ i (hi : i < (pages ++ [[]]).length), (pages ++ [[]])[i] = (l.drop (i * n)).take n := by
  -- the first page leaves a shorter list
  induction hlength : l.length using Nat.strong_induction_on generalizing l with
  | _ k ih =>
    subst hlength
    by_cases hl : l = []
    · subst hl
      refine ⟨[], rfl, by simp, by simpa using hn, fun i hi => ?_⟩
      obtain rfl : i = 0 := by simpa using hi
      simp
    · have hpos : 0 < l.length := List.length_pos_iff.mpr hl
      have hshorter : (l.drop n).length < l.length := by
        rw [List.length_drop]
        omega
      obtain ⟨pages, hflatten, hne, hlength, hpages⟩ := ih _ hshorter (l.drop n) rfl
      refine ⟨l.take n :: pages, ?_, ?_, ?_, ?_⟩
      · rw [List.flatten_cons, hflatten, List.take_append_drop]
      · refine List.forall_mem_cons.mpr ⟨fun hnil => ?_, hne⟩
        have hempty := congrArg List.length hnil
        rw [List.length_take, List.length_nil] at hempty
        omega
      · rw [List.length_drop] at hlength
        rw [List.length_cons, Nat.succ_mul]
        by_cases hlast : l.length ≤ n
        · have hnone : pages.length * n < 1 * n := by omega
          have hzero := Nat.lt_of_mul_lt_mul_right hnone
          obtain hnil : pages.length = 0 := by omega
          rw [hnil]
          omega
        · omega
      · intro i hi
        cases i with
        | zero => simp
        | succ i =>
          have hi' : i < (pages ++ [[]]).length := by simpa using hi
          have hpage := hpages i hi'
          rw [List.drop_drop] at hpage
          simp only [List.cons_append, List.getElem_cons_succ, hpage, Nat.succ_mul, Nat.add_comm]

end Windows

/-! ### Listings -/

/-- A listing shows entities in strictly ascending order of identifiers, from any of them on and as
many as it is asked for. Its pages of one size, up to the first that is empty, are all of them, each
once. Pages that adjoin are one page. -/
structure Tiles {α : Type} (s : Store) (list : UInt32 → UInt32 → Access (List α)) (id : α → String)
    (l sorted : List α) : Prop where
  perm : sorted.Perm l
  ascending : sorted.Pairwise fun a b => Text.lt (id a) (id b) = true
  window : ∀ offset limit, list offset limit s =
    (.ok ((sorted.drop offset.toNat).take limit.toNat), s)
  pages : ∀ size : UInt32, 1 ≤ size → l.length + size.toNat ≤ UInt32.size →
    ∃ pages : List (List α), pages.flatten = sorted ∧ (∀ p ∈ pages, p ≠ []) ∧
      ∀ i (hi : i < (pages ++ [[]]).length), i * size.toNat < UInt32.size ∧
        list (.ofNat (i * size.toNat)) size s = (.ok (pages ++ [[]])[i], s)
  adjoining : ∀ offset limit limit' : UInt32, offset.toNat + limit.toNat < UInt32.size →
    limit.toNat + limit'.toNat < UInt32.size → ∃ a b, list offset limit s = (.ok a, s) ∧
      list (offset + limit) limit' s = (.ok b, s) ∧
      list offset (limit + limit') s = (.ok (a ++ b), s)

section Listings

variable {α : Type} {s s' : Store} {list : UInt32 → UInt32 → Access (List α)} {id : α → String}
  {l l' sorted sorted' : List α}

theorem eq_of_ascending (hperm : sorted'.Perm sorted)
    (h' : sorted'.Pairwise fun a b => Text.lt (id a) (id b) = true)
    (h : sorted.Pairwise fun a b => Text.lt (id a) (id b) = true) : sorted' = sorted := by
  refine hperm.eq_of_pairwise (fun a b _ _ hab hba => ?_) h' h
  exact absurd (Text.lt_trans hab hba) (Text.lt_irrefl _)

/-- Windows on entities in strictly ascending order tile them. -/
theorem Tiles.of_window (hperm : sorted.Perm l)
    (hascending : sorted.Pairwise fun a b => Text.lt (id a) (id b) = true)
    (hwindow : ∀ offset limit, list offset limit s =
      (.ok ((sorted.drop offset.toNat).take limit.toNat), s)) : s.Tiles list id l sorted where
  perm := hperm
  ascending := hascending
  window := hwindow
  pages := by
    intro size hsize hlength
    have hpos : 0 < size.toNat := hsize
    obtain ⟨pages, hflatten, hne, hlt, hpages⟩ := exists_pages hpos sorted
    rw [hperm.length_eq] at hlt
    refine ⟨pages, hflatten, hne, fun i hi => ?_⟩
    have hle : i * size.toNat ≤ pages.length * size.toNat :=
      Nat.mul_le_mul_right _ (by simpa [Nat.lt_succ_iff] using hi)
    have hoffset : i * size.toNat < UInt32.size := by omega
    refine ⟨hoffset, ?_⟩
    rw [hwindow, hpages i hi, UInt32.toNat_ofNat_of_lt' hoffset]
  adjoining := by
    intro offset limit limit' hoffset hlimit
    refine ⟨_, _, hwindow offset limit, hwindow (offset + limit) limit', ?_⟩
    have hnext : (offset + limit).toNat = offset.toNat + limit.toNat := by
      rw [UInt32.toNat_add]
      exact Nat.mod_eq_of_lt hoffset
    have hboth : (limit + limit').toNat = limit.toNat + limit'.toNat := by
      rw [UInt32.toNat_add]
      exact Nat.mod_eq_of_lt hlimit
    rw [hwindow, hboth, hnext, List.take_add, List.drop_drop]

theorem Tiles.sorted_eq (h : s.Tiles list id l sorted) (h' : s'.Tiles list id l' sorted')
    (hperm : l'.Perm l) : sorted' = sorted :=
  eq_of_ascending ((h'.perm.trans hperm).trans h.perm.symm) h'.ascending h.ascending

/-- **Listings do not show in which order a table holds its rows.** -/
theorem Tiles.answer_eq (h : s.Tiles list id l sorted) (h' : s'.Tiles list id l' sorted')
    (hperm : l'.Perm l) (offset limit : UInt32) :
    (list offset limit s').1 = (list offset limit s).1 := by
  rw [h.window, h'.window, h.sorted_eq h' hperm]

/-- **The pages of a table are tiles** if its entities are read back. -/
theorem Tabulates.tiles {ρ : Type} [TableRow ρ] [LawfulTableRow ρ] {encode : α → ρ}
    {decode? : ρ → Option α} (h : s.Tabulates encode decode? l) (selected : ρ → Bool) :
    s.Tiles (listPage decode? selected) (fun a => Row.id (encode a))
      (l.filter fun a => selected (encode a))
      (inOrder (fun a => Row.id (encode a)) (l.filter fun a => selected (encode a))) := by
  have hperm := perm_inOrder (fun a => Row.id (encode a)) (l.filter fun a => selected (encode a))
  refine .of_window hperm ?_ fun offset limit => h.listPage_inOrder selected offset limit
  have hids : ((l.filter fun a => selected (encode a)).map fun a => Row.id (encode a)).Nodup := by
    have hall := h.ids
    rw [List.map_map] at hall
    exact hall.sublist (List.filter_sublist.map _)
  have hdistinct := List.pairwise_map.mp ((hperm.map _).nodup_iff.mpr hids)
  refine ((pairwise_inOrder _ _).and hdistinct).imp fun {a b} hab => ?_
  exact Text.lt_iff.mpr fun hba => hab.2 (Text.le_antisymm hab.1 hba)

end Listings

section Catalogues

variable {s : Store} {topics : List Topic} {subscriptions : List Subscription} {queues : List Queue}

namespace Catalogue

theorem tiles_queues (h : s.Catalogue topics subscriptions queues) :
    s.Tiles listQueues Queue.id queues (inOrder Queue.id queues) := by
  have htiles := h.tabulates_queues.tiles fun _ => true
  rw [List.filter_true] at htiles
  exact htiles

theorem tiles_topics (h : s.Catalogue topics subscriptions queues) :
    s.Tiles listTopics Topic.id topics (inOrder Topic.id topics) := by
  have htiles := h.tabulates_topics.tiles fun _ => true
  rw [List.filter_true] at htiles
  exact htiles

theorem tiles_subscriptions (h : s.Catalogue topics subscriptions queues) :
    s.Tiles listSubscriptions Subscription.id subscriptions
      (inOrder Subscription.id subscriptions) := by
  have htiles := h.tabulates_subscriptions.tiles fun _ => true
  rw [List.filter_true] at htiles
  exact htiles

theorem tiles_topicSubscriptions (h : s.Catalogue topics subscriptions queues) (topicId : String) :
    s.Tiles (listTopicSubscriptions topicId) Subscription.id
      (subscriptions.filter (·.topicId = topicId))
      (inOrder Subscription.id (subscriptions.filter (·.topicId = topicId))) :=
  h.tabulates_subscriptions.tiles fun r => r.topicId = topicId

end Catalogue

/-- **Listings tile their tables.** Queues, topics, subscriptions and the subscriptions of a topic
are listed in strictly ascending order of identifiers, in windows of any offset and limit. Pages of
any size make up the whole table, and adjoining pages one page. Stores that hold the same entities
in another order answer the same. -/
theorem listings_tile_tables (h : s.Catalogue topics subscriptions queues) :
    (∃ sorted, s.Tiles listQueues Queue.id queues sorted) ∧
    (∃ sorted, s.Tiles listTopics Topic.id topics sorted) ∧
    (∃ sorted, s.Tiles listSubscriptions Subscription.id subscriptions sorted) ∧
    (∀ topicId, ∃ sorted, s.Tiles (listTopicSubscriptions topicId) Subscription.id
      (subscriptions.filter (·.topicId = topicId)) sorted) ∧
    ∀ s' topics' subscriptions' queues', Catalogue s' topics' subscriptions' queues' →
      (queues'.Perm queues → ∀ offset limit,
        (listQueues offset limit s').1 = (listQueues offset limit s).1) ∧
      (topics'.Perm topics → ∀ offset limit,
        (listTopics offset limit s').1 = (listTopics offset limit s).1) ∧
      (subscriptions'.Perm subscriptions → ∀ offset limit,
        (listSubscriptions offset limit s').1 = (listSubscriptions offset limit s).1 ∧
        ∀ topicId, (listTopicSubscriptions topicId offset limit s').1 =
          (listTopicSubscriptions topicId offset limit s).1) := by
  refine ⟨⟨_, h.tiles_queues⟩, ⟨_, h.tiles_topics⟩, ⟨_, h.tiles_subscriptions⟩,
    fun topicId => ⟨_, h.tiles_topicSubscriptions topicId⟩, ?_⟩
  intro s' topics' subscriptions' queues' h'
  refine ⟨h.tiles_queues.answer_eq h'.tiles_queues, h.tiles_topics.answer_eq h'.tiles_topics,
    fun hperm offset limit => ⟨?_, fun topicId => ?_⟩⟩
  · exact h.tiles_subscriptions.answer_eq h'.tiles_subscriptions hperm offset limit
  · exact (h.tiles_topicSubscriptions topicId).answer_eq (h'.tiles_topicSubscriptions topicId)
      (hperm.filter _) offset limit

end Catalogues

/-- Two queues, the second of which has the smaller identifier. -/
def descendingQueues : List Queue :=
  [⟨"b", 30, 60, 0, .epoch, .epoch⟩, ⟨"a", 30, 60, 0, .epoch, .epoch⟩]

def descendingStore : Store := { empty with queues := descendingQueues.map .ofQueue }

/-- The queues are listed one by one, in ascending order, until there is none left. -/
theorem descendingStore_listed : descendingStore.Catalogue [] [] descendingQueues ∧
    ∃ pages : List (List Queue), pages.flatten = descendingQueues.reverse ∧
      (∀ p ∈ pages, p ≠ []) ∧ ∀ i (hi : i < (pages ++ [[]]).length),
        (listQueues (.ofNat i) 1 descendingStore).1 = .ok (pages ++ [[]])[i] := by
  have hstore : descendingStore.Catalogue [] [] descendingQueues :=
    ⟨⟨rfl, rfl, rfl⟩, rfl, rfl, rfl, by decide, by decide, by decide, by simp, by simp, by decide⟩
  obtain ⟨sorted, htiles⟩ := (listings_tile_tables hstore).1
  have hsorted : sorted = descendingQueues.reverse :=
    eq_of_ascending (htiles.perm.trans (List.reverse_perm _).symm) htiles.ascending (by decide)
  obtain ⟨pages, hflatten, hne, hpages⟩ := htiles.pages 1 (by decide) (by decide)
  refine ⟨hstore, pages, hflatten.trans hsorted, hne, fun i hi => ?_⟩
  have hpage := (hpages i hi).2
  rw [show (1 : UInt32).toNat = 1 from rfl, Nat.mul_one] at hpage
  rw [hpage]

end MessageBroker.Store

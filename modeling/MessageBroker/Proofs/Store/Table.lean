import MessageBroker.Proofs.Store.Codec
import MessageBroker.Proofs.Store.Statement

/-! # Tables of entities

`s.Tabulates encode decode? l` says that a table of an undisturbed store holds exactly the stored
forms of the entities `l`, from which they are read back, no two with the same identifier. Then an
entity is found by its identifier (`get_eq`, `get_missing`), and a page of a listing is that part of
the selected entities in ascending order of identifiers (`listPage_eq`). A catalogue is a store
whose topics, subscriptions and queues are given; what messages it holds is left open. -/

namespace MessageBroker.Store

/-! ### Sorted rows -/

/-- Rows in ascending order of distinct identifiers are in the one order that there is. -/
theorem sortedById_eq {ρ : Type} [Row ρ] {rows rows' : List ρ} (hids : (rows.map Row.id).Nodup)
    (hperm : rows'.Perm rows) (hsorted : rows'.Pairwise fun a b => Text.le (Row.id a) (Row.id b)) :
    sortedById rows = rows' := by
  let le (a b : ρ) : Bool := Text.le (Row.id a) (Row.id b)
  have htrans : ∀ a b c, le a b = true → le b c = true → le a c = true :=
    fun a b c hab hbc => Text.le_trans hab hbc
  have htotal : ∀ a b, (le a b || le b a) = true := by
    intro a b
    rw [Bool.or_eq_true]
    exact Text.le_total _ _
  have hmerge : (sortedById rows).Pairwise fun a b => le a b = true :=
    List.pairwise_mergeSort htrans htotal rows
  have hsame : (sortedById rows).Perm rows := List.mergeSort_perm _ _
  refine (hsame.trans hperm.symm).eq_of_pairwise (fun a b ha hb hab hba => ?_) hmerge hsorted
  exact List.inj_on_of_nodup_map hids (hsame.subset ha) (hperm.subset hb) (Text.le_antisymm hab hba)

/-! ### Entities in a table -/

/-- A table of an undisturbed store holds the stored forms of entities and nothing else. -/
structure Tabulates {ρ α : Type} [TableRow ρ] (s : Store) (encode : α → ρ) (decode? : ρ → Option α)
    (l : List α) : Prop extends s.Undisturbed where
  rows : TableRow.rows s = l.map encode
  readBack : ∀ a ∈ l, decode? (encode a) = some a
  ids : ((l.map encode).map Row.id).Nodup

namespace Tabulates

variable {ρ α : Type} [TableRow ρ] {s : Store} {encode : α → ρ} {decode? : ρ → Option α}
  {l : List α}

theorem get_missing (h : s.Tabulates encode decode? l) (entity : Entity) {id : String}
    (hid : ∀ a ∈ l, Row.id (encode a) ≠ id) :
    get entity decode? id s = (.error (.notFound entity id), s) := by
  refine get_of_ne h.toUndisturbed entity decode? ?_
  rw [h.rows]
  exact List.forall_mem_map.mpr hid

variable [LawfulTableRow ρ]

theorem get_eq (h : s.Tabulates encode decode? l) (entity : Entity) {a : α} (ha : a ∈ l) :
    get entity decode? (Row.id (encode a)) s = (.ok a, s) := by
  refine get_of_mem h.toUndisturbed entity ?_ ?_ (h.readBack a ha)
  · rw [h.rows]
    exact h.ids
  · rw [h.rows]
    exact List.mem_map_of_mem ha

/-- A page of the selected entities, if these are given in ascending order of identifiers. -/
theorem listPage_eq (h : s.Tabulates encode decode? l) {selected : ρ → Bool} {l' : List α}
    (hperm : l'.Perm (l.filter fun a => selected (encode a)))
    (hsorted : l'.Pairwise fun a b => Text.le (Row.id (encode a)) (Row.id (encode b)) = true)
    (offset limit : UInt32) :
    listPage decode? selected offset limit s = (.ok (page offset limit l'), s) := by
  refine select_ok _ _ h.toUndisturbed ?_
  have hfilter : (l.map encode).filter selected =
      (l.filter fun a => selected (encode a)).map encode := List.filter_map
  have hrows : sortedById ((TableRow.rows s).filter selected) = l'.map encode := by
    rw [h.rows]
    refine sortedById_eq (h.ids.sublist (List.filter_sublist.map _)) ?_ ?_
    · rw [hfilter]
      exact hperm.map encode
    · exact List.pairwise_map.mpr hsorted
  rw [hrows, page, ← List.map_drop, ← List.map_take]
  refine mapM_decoded fun a ha => h.readBack a ?_
  have hmem := hperm.subset (List.mem_of_mem_drop (List.mem_of_mem_take ha))
  exact List.mem_of_mem_filter hmem

end Tabulates

/-! ### Catalogues -/

/-- An undisturbed store with given topics, subscriptions and queues, all of whose instants are
representable. -/
structure Catalogue (s : Store) (topics : List Topic) (subscriptions : List Subscription)
    (queues : List Queue) : Prop extends s.Undisturbed where
  topicRows : s.topics = topics.map TopicRow.ofTopic
  subscriptionRows : s.subscriptions = subscriptions.map SubscriptionRow.ofSubscription
  queueRows : s.queues = queues.map QueueRow.ofQueue
  topicIds : (topics.map Topic.id).Nodup
  subscriptionIds : (subscriptions.map Subscription.id).Nodup
  queueIds : (queues.map Queue.id).Nodup
  topicInstants : ∀ t ∈ topics, t.createdAt.IsRepresentable
  subscriptionInstants : ∀ s ∈ subscriptions, s.createdAt.IsRepresentable
  queueInstants : ∀ q ∈ queues, q.createdAt.IsRepresentable ∧ q.updatedAt.IsRepresentable

namespace Catalogue

variable {s : Store} {topics : List Topic} {subscriptions : List Subscription} {queues : List Queue}

theorem tabulates_topics (h : s.Catalogue topics subscriptions queues) :
    s.Tabulates TopicRow.ofTopic TopicRow.decode? topics := by
  refine ⟨h.toUndisturbed, h.topicRows, fun t ht => ?_, ?_⟩
  · exact TopicRow.decode?_ofTopic (h.topicInstants t ht)
  · rw [List.map_map]
    exact h.topicIds

theorem tabulates_subscriptions (h : s.Catalogue topics subscriptions queues) :
    s.Tabulates SubscriptionRow.ofSubscription SubscriptionRow.decode? subscriptions := by
  refine ⟨h.toUndisturbed, h.subscriptionRows, fun x hx => ?_, ?_⟩
  · exact SubscriptionRow.decode?_ofSubscription (h.subscriptionInstants x hx)
  · rw [List.map_map]
    exact h.subscriptionIds

theorem tabulates_queues (h : s.Catalogue topics subscriptions queues) :
    s.Tabulates QueueRow.ofQueue QueueRow.decode? queues := by
  refine ⟨h.toUndisturbed, h.queueRows, fun q hq => ?_, ?_⟩
  · exact QueueRow.decode?_ofQueue (h.queueInstants q hq).1 (h.queueInstants q hq).2
  · rw [List.map_map]
    exact h.queueIds

end Catalogue

end MessageBroker.Store

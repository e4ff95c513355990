import MessageBroker.Proofs.Store.Claim
import MessageBroker.Proofs.Store.Table

/-! # Stored values are read back

An entity that is inserted under an identifier of its own is found by this identifier, whatever else
the store holds (`get_withRow`). `s.Holds encode instants l` says that a table holds exactly the
stored forms of the entities `l`, whose instants are representable. Then the entity is stored after
these (`Tabulates.withRow`), listed in its place (`Tabulates.listPage_inOrder`,
`Tabulates.allMessages_eq`), and leased (`Tabulates.lease_eq`), as the value that was inserted,
whatever its texts, numbers and instants. Together: `stored_values_are_read_back`. -/

namespace MessageBroker

/-- The instants of a queue. -/
def Queue.instants (q : Queue) : List Instant := [q.createdAt, q.updatedAt]

/-- The instants of a topic. -/
def Topic.instants (t : Topic) : List Instant := [t.createdAt]

/-- The instants of a subscription. -/
def Subscription.instants (s : Subscription) : List Instant := [s.createdAt]

namespace Store

open Fallible

/-- Entities in ascending order of their identifiers. -/
def inOrder {α : Type} (id : α → String) (l : List α) : List α :=
  l.mergeSort fun a b => Text.le (id a) (id b)

theorem perm_inOrder {α : Type} (id : α → String) (l : List α) : (inOrder id l).Perm l :=
  List.mergeSort_perm _ _

theorem pairwise_inOrder {α : Type} (id : α → String) (l : List α) :
    (inOrder id l).Pairwise fun a b => Text.le (id a) (id b) = true := by
  refine List.pairwise_mergeSort (fun a b c hab hbc => ?_) (fun a b => ?_) l
  · exact Text.le_trans hab hbc
  · rw [Bool.or_eq_true]
    exact Text.le_total _ _

/-! ### Entities after an insertion -/

/-- The store with one more row. -/
def withRow {ρ : Type} [TableRow ρ] (s : Store) (r : ρ) : Store :=
  TableRow.withRows s (TableRow.rows s ++ [r])

section Rows

variable {ρ α : Type} [TableRow ρ] [LawfulTableRow ρ] {s : Store}

theorem Undisturbed.withRow (h : s.Undisturbed) (r : ρ) : (s.withRow r).Undisturbed :=
  LawfulTableRow.undisturbed_withRows _ h

/-- A row under an identifier of its own is read back, whatever the other rows hold. -/
theorem get_withRow (h : s.Undisturbed) (entity : Entity) {decode? : ρ → Option α} {r : ρ} {a : α}
    (hback : decode? r = some a)
    (hid : ∀ other ∈ (TableRow.rows s : List ρ), Row.id other ≠ Row.id r) :
    get entity decode? (Row.id r) (s.withRow r) = (.ok a, s.withRow r) := by
  refine get_of_rowOf (h.withRow r) entity ?_ hback
  rw [Store.withRow, LawfulTableRow.rows_withRows]
  exact rowOf_append hid

end Rows

namespace Tabulates

variable {ρ α : Type} [TableRow ρ] [LawfulTableRow ρ] {s : Store} {encode : α → ρ}
  {decode? : ρ → Option α} {l : List α}

/-- **An entity under an identifier of its own is stored after the others.** -/
theorem withRow (h : s.Tabulates encode decode? l) {a : α} (hback : decode? (encode a) = some a)
    (hid : ∀ other ∈ (TableRow.rows s : List ρ), Row.id other ≠ Row.id (encode a)) :
    (s.withRow (encode a)).Tabulates encode decode? (l ++ [a]) := by
  refine ⟨h.toUndisturbed.withRow _, ?_, ?_, ?_⟩
  · rw [Store.withRow, LawfulTableRow.rows_withRows, h.rows, List.map_append]
    rfl
  · intro b hb
    rcases List.mem_append.mp hb with hb | hb
    · exact h.readBack b hb
    · rw [List.mem_singleton.mp hb]
      exact hback
  · rw [List.map_append, List.map_append, List.nodup_append]
    refine ⟨h.ids, List.nodup_singleton _, ?_⟩
    intro id hl id' ha he
    obtain ⟨r, hr, rfl⟩ := List.mem_map.mp hl
    rw [← h.rows] at hr
    exact hid r hr (he.trans (List.mem_singleton.mp ha))

theorem listPage_inOrder (h : s.Tabulates encode decode? l) (selected : ρ → Bool)
    (offset limit : UInt32) : listPage decode? selected offset limit s =
      (.ok (page offset limit (inOrder (fun a => Row.id (encode a))
        (l.filter fun a => selected (encode a)))), s) :=
  h.listPage_eq (perm_inOrder _ _) (pairwise_inOrder _ _) offset limit

end Tabulates

/-! ### Messages after an insertion -/

/-- The messages whose rows a lease selects, in the order in which it takes them. -/
def selection (queueId : String) (label : Option String) (limit : UInt32) (now : Instant)
    (ms : List Message) : List Message :=
  let visible := ms.filter fun m =>
    (MessageRow.ofMessage m).queueId = queueId && (MessageRow.ofMessage m).isVisible now
  let labelled := visible.filter fun m => (MessageRow.ofMessage m).hasLabel label
  (labelled.mergeSort fun a b => leaseOrder (.ofMessage a) (.ofMessage b)).take limit.toNat

theorem mem_of_mem_selection {queueId : String} {label : Option String} {limit : UInt32}
    {now : Instant} {ms : List Message} {m : Message}
    (h : m ∈ selection queueId label limit now ms) : m ∈ ms := by
  have hlabelled := List.mem_mergeSort.mp (List.mem_of_mem_take h)
  exact List.mem_of_mem_filter (List.mem_of_mem_filter hlabelled)

namespace Tabulates

variable {s : Store} {ms : List Message}

theorem keyed (h : s.Tabulates MessageRow.ofMessage MessageRow.decode? ms) : s.Keyed := by
  refine ⟨h.toUndisturbed, ?_⟩
  have hrows : s.messages = ms.map MessageRow.ofMessage := h.rows
  rw [hrows]
  exact h.ids

theorem allMessages_eq (h : s.Tabulates MessageRow.ofMessage MessageRow.decode? ms) :
    allMessages s = (.ok (inOrder Message.id ms), s) := by
  refine select_ok _ _ h.toUndisturbed ?_
  have hsorted : sortedById (TableRow.rows s) =
      (inOrder Message.id ms).map MessageRow.ofMessage := by
    rw [h.rows]
    refine sortedById_eq h.ids ((perm_inOrder _ _).map _) ?_
    exact List.pairwise_map.mpr (pairwise_inOrder _ _)
  rw [hsorted]
  exact mapM_decoded fun m hm => h.readBack m ((perm_inOrder _ _).subset hm)

theorem candidates_eq (h : s.Tabulates MessageRow.ofMessage MessageRow.decode? ms)
    (queueId : String) (label : Option String) (limit : UInt32) (now : Instant) :
    candidates queueId label limit now s = (.ok (selection queueId label limit now ms), s) := by
  refine select_ok _ _ h.toUndisturbed ?_
  have hrows : (TableRow.rows s : List MessageRow) = ms.map MessageRow.ofMessage := h.rows
  have hsort (l : List Message) : (l.map MessageRow.ofMessage).mergeSort leaseOrder =
      (l.mergeSort fun a b => leaseOrder (.ofMessage a) (.ofMessage b)).map .ofMessage :=
    (List.map_mergeSort (f := MessageRow.ofMessage) fun _ _ _ _ => rfl).symm
  dsimp only
  rw [hrows, visibleRows, List.filter_map, List.filter_map, hsort, ← List.map_take]
  exact mapM_decoded fun m hm => h.readBack m (mem_of_mem_selection hm)

theorem lease_eq (h : s.Tabulates MessageRow.ofMessage MessageRow.decode? ms) (q : Queue)
    (label : Option String) (limit : UInt32) (now : Instant) : (lease q label limit now s).1 =
      .ok ((selection q.id label limit now ms).map (·.leaseRenew q now)) := by
  have hread : (readCandidates q label limit now s).1 =
      .ok (selection q.id label limit now ms) := by
    unfold readCandidates
    split_ifs with hlimit
    · rw [selection, hlimit]
      rfl
    · rw [h.candidates_eq]
  rw [h.keyed.lease_eq hread]

end Tabulates

/-! ### Values with representable instants -/

/-- A table holds the stored forms of entities and nothing else. All their instants are
representable. -/
structure Holds {ρ α : Type} [TableRow ρ] (s : Store) (encode : α → ρ) (instants : α → List Instant)
    (l : List α) : Prop where
  rows : TableRow.rows s = l.map encode
  ids : ((l.map encode).map Row.id).Nodup
  representable : ∀ a ∈ l, ∀ t ∈ instants a, t.IsRepresentable

theorem Holds.tabulates {ρ α : Type} [TableRow ρ] {s : Store} {encode : α → ρ}
    {decode? : ρ → Option α} {instants : α → List Instant} {l : List α}
    (h : s.Holds encode instants l) (hs : s.Undisturbed)
    (hback : ∀ a, (∀ t ∈ instants a, t.IsRepresentable) → decode? (encode a) = some a) :
    s.Tabulates encode decode? l :=
  ⟨hs, h.rows, fun a ha => hback a (h.representable a ha), h.ids⟩

theorem QueueRow.readBack (q : Queue) (h : ∀ t ∈ q.instants, t.IsRepresentable) :
    (ofQueue q).decode? = some q :=
  decode?_ofQueue (h _ (by simp [Queue.instants])) (h _ (by simp [Queue.instants]))

theorem TopicRow.readBack (t : Topic) (h : ∀ i ∈ t.instants, i.IsRepresentable) :
    (ofTopic t).decode? = some t := decode?_ofTopic (h _ (by simp [Topic.instants]))

theorem SubscriptionRow.readBack (s : Subscription) (h : ∀ t ∈ s.instants, t.IsRepresentable) :
    (ofSubscription s).decode? = some s :=
  decode?_ofSubscription (h _ (by simp [Subscription.instants]))

/-- **Stored values are read back.** A queue, a topic, a subscription or a message is inserted into
a store without its identifier, and every access to it answers the value that was inserted: access
by its identifier, whatever else is stored, and, if the other entities are read back too, any page
of a listing, and a lease, which renews it. This rests on the stored forms of dictionaries, written
in any order, and of instants. -/
theorem stored_values_are_read_back {s : Store} (hs : s.Undisturbed) :
    (∀ q : Queue, (∀ t ∈ q.instants, t.IsRepresentable) → (∀ r ∈ s.queues, r.id ≠ q.id) →
      ∃ s', createQueue q s = (.ok (), s') ∧ getQueue q.id s' = (.ok q, s') ∧
        ∀ l, s.Holds QueueRow.ofQueue Queue.instants l →
          ∀ offset limit, listQueues offset limit s' =
            (.ok (page offset limit (inOrder Queue.id (l ++ [q]))), s')) ∧
    (∀ t : Topic, (∀ i ∈ t.instants, i.IsRepresentable) → (∀ r ∈ s.topics, r.id ≠ t.id) →
      ∃ s', createTopic t s = (.ok (), s') ∧ getTopic t.id s' = (.ok t, s') ∧
        ∀ l, s.Holds TopicRow.ofTopic Topic.instants l →
          ∀ offset limit, listTopics offset limit s' =
            (.ok (page offset limit (inOrder Topic.id (l ++ [t]))), s')) ∧
    (∀ x : Subscription, (∀ t ∈ x.instants, t.IsRepresentable) →
      (∀ r ∈ s.subscriptions, r.id ≠ x.id) →
        ∃ s', createSubscription x s = (.ok (), s') ∧ getSubscription x.id s' = (.ok x, s') ∧
          ∀ l, s.Holds SubscriptionRow.ofSubscription Subscription.instants l →
            (∀ offset limit, listSubscriptions offset limit s' =
              (.ok (page offset limit (inOrder Subscription.id (l ++ [x]))), s')) ∧
            ∀ topicId offset limit, listTopicSubscriptions topicId offset limit s' =
              (.ok (page offset limit (inOrder Subscription.id
                ((l ++ [x]).filter (·.topicId = topicId)))), s')) ∧
    (∀ m : Message, (∀ t ∈ m.instants, t.IsRepresentable) → (∀ r ∈ s.messages, r.id ≠ m.id) →
      ∃ s', createMessage m s = (.ok (), s') ∧ createMessages [m] s = (.ok (), s') ∧
        getMessage m.id s' = (.ok m, s') ∧
        ∀ l, s.Holds MessageRow.ofMessage Message.instants l →
          allMessages s' = (.ok (inOrder Message.id (l ++ [m])), s') ∧
          ∀ q label limit now,
            candidates q.id label limit now s' =
              (.ok (selection q.id label limit now (l ++ [m])), s') ∧
            (lease q label limit now s').1 =
              .ok ((selection q.id label limit now (l ++ [m])).map (·.leaseRenew q now))) ∧
    (∀ (d : Dict String) (l : List (String × String)), l.Perm d.entries →
      texts? (Json.object (l.map fun (k, v) => (k, .text v))).render = some d) ∧
    (∀ (d : Dict (List String)) (l : List (String × List String)), l.Perm d.entries →
      lists? (Json.object (l.map fun (k, v) => (k, .array (v.map .text)))).render = some d) ∧
    ∀ t : Instant, t.IsRepresentable → Instant.read? t.stored = some t := by
  refine ⟨?_, ?_, ?_, ?_, fun d l hl => texts?_written hl, fun d l hl => lists?_written hl,
    fun t ht => Instant.read?_stored ht⟩
  · intro q hq hid
    have hback := QueueRow.readBack q hq
    refine ⟨s.withRow (QueueRow.ofQueue q), insert_of_ne hs .queue hid,
      get_withRow hs .queue hback hid, fun l hl => ?_⟩
    have hs' := (hl.tabulates hs QueueRow.readBack).withRow hback hid
    have hlisted := hs'.listPage_inOrder fun _ => true
    rw [List.filter_true] at hlisted
    exact hlisted
  · intro t ht hid
    have hback := TopicRow.readBack t ht
    refine ⟨s.withRow (TopicRow.ofTopic t), insert_of_ne hs .topic hid,
      get_withRow hs .topic hback hid, fun l hl => ?_⟩
    have hs' := (hl.tabulates hs TopicRow.readBack).withRow hback hid
    have hlisted := hs'.listPage_inOrder fun _ => true
    rw [List.filter_true] at hlisted
    exact hlisted
  · intro x hx hid
    have hback := SubscriptionRow.readBack x hx
    refine ⟨s.withRow (SubscriptionRow.ofSubscription x), insert_of_ne hs .subscription hid,
      get_withRow hs .subscription hback hid, fun l hl => ?_⟩
    have hs' := (hl.tabulates hs SubscriptionRow.readBack).withRow hback hid
    have hlisted := hs'.listPage_inOrder fun _ => true
    rw [List.filter_true] at hlisted
    exact ⟨hlisted, fun topicId => hs'.listPage_inOrder fun r => r.topicId = topicId⟩
  · intro m hm hid
    have hback := fun m => MessageRow.decode?_ofMessage_of_isRepresentable (m := m)
    have hinserted := insert_of_ne (r := MessageRow.ofMessage m) hs .message hid
    have hall : createMessages [m] s = (.ok (), s.withRow (MessageRow.ofMessage m)) := by
      rw [createMessages, if_neg (by simp), transaction_apply hs]
      simp only [List.forM_eq_forM, List.forM_cons, List.forM_nil, bind_ok hinserted]
      rfl
    refine ⟨s.withRow (MessageRow.ofMessage m), (bind_ok (connect_ok hs) _).trans hinserted, hall,
      get_withRow hs .message (hback m hm) hid, fun l hl => ?_⟩
    have hs' := (hl.tabulates hs hback).withRow (hback m hm) hid
    refine ⟨hs'.allMessages_eq, fun q label limit now => ?_⟩
    exact ⟨hs'.candidates_eq q.id label limit now, hs'.lease_eq q label limit now⟩

/-- A message whose texts are written with escapes, from the first to the last instant. -/
def farMessage : Message :=
  ⟨"\"\\\x00", "", none, "\n\u00e9", Dict.empty.insert "\x00" "\"", 4294967295, .last, .first,
    .first, .last⟩

/-- A store that holds a message without texts. -/
def blankStore : Store := empty.addMessages [.ofContent ⟨none, "", ∅⟩]

/-- The message is read back from a store that holds another one, and listed after it. -/
theorem farMessage_readBack : blankStore.Undisturbed ∧
    (∀ t ∈ farMessage.instants, t.IsRepresentable) ∧
    ∃ s', createMessage farMessage blankStore = (.ok (), s') ∧
      getMessage farMessage.id s' = (.ok farMessage, s') ∧
      allMessages s' = (.ok (inOrder Message.id [.ofContent ⟨none, "", ∅⟩, farMessage]), s') := by
  have hs : blankStore.Undisturbed := ⟨rfl, rfl, rfl⟩
  have hholds : blankStore.Holds MessageRow.ofMessage Message.instants
      [.ofContent ⟨none, "", ∅⟩] := ⟨rfl, by decide, by decide⟩
  have hinstants : ∀ t ∈ farMessage.instants, t.IsRepresentable := by decide
  obtain ⟨s', hcreated, -, hread, hrest⟩ := (stored_values_are_read_back hs).2.2.2.1 farMessage
    hinstants (by decide)
  exact ⟨hs, hinstants, s', hcreated, hread, (hrest _ hholds).1⟩

end Store

end MessageBroker

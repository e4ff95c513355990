import MessageBroker.Proofs.Broker.Effect

/-! # Invariants of brokers

Two kinds of conditions hold of a broker before and after every call.

* A broker is consistent if nothing disturbs its store, no two rows of a table share an identifier,
  and all identifiers of messages were issued. Effects leave it so (`Effect.consistent`).
* A law is a condition on stored entities, under which these are read back from their rows. If it is
  carried by all that calls do to entities at an instant, then the entities that a call leaves
  satisfy it (`Effect.obeys`). So an invariant of entities is proved on entities alone. -/

namespace MessageBroker

/-! ### Laws -/

/-- Conditions on stored entities, under which these are read back. -/
structure Law where
  queue : Queue → Prop
  message : Message → Prop
  topic : Topic → Prop
  subscription : Subscription → Prop
  readQueue {q : Queue} (h : queue q) : (Store.QueueRow.ofQueue q).decode? = some q
  readMessage {m : Message} (h : message m) : (Store.MessageRow.ofMessage m).decode? = some m
  readTopic {t : Topic} (h : topic t) : (Store.TopicRow.ofTopic t).decode? = some t
  readSubscription {x : Subscription} (h : subscription x) :
    (Store.SubscriptionRow.ofSubscription x).decode? = some x

/-- What satisfies a law satisfies another law. -/
structure Law.Implies (law law' : Law) : Prop where
  queue {q : Queue} (h : law.queue q) : law'.queue q
  message {m : Message} (h : law.message m) : law'.message m
  topic {t : Topic} (h : law.topic t) : law'.topic t
  subscription {x : Subscription} (h : law.subscription x) : law'.subscription x

theorem Law.implies_refl (law : Law) : law.Implies law :=
  ⟨fun h => h, fun h => h, fun h => h, fun h => h⟩

/-- What calls at an instant make of entities that satisfy a law satisfies another law. -/
structure Law.Carries (law law' : Law) (now : Instant) : Prop extends law.Implies law' where
  createQueue {q : Queue} (h : q.validate = .ok ()) :
    law'.queue { q with createdAt := now, updatedAt := now }
  updateQueue {q stored : Queue} (h : q.validate = .ok ()) (hstored : law.queue stored) :
    law'.queue { q with createdAt := stored.createdAt, updatedAt := now }
  createTopic {t : Topic} (h : t.validate = .ok ()) : law'.topic { t with createdAt := now }
  createSubscription {x : Subscription} (h : x.validate = .ok ()) :
    law'.subscription { x with createdAt := now }
  enqueue {c : MessageContent} (hbody : c.body ≠ "") {q : Queue} (hq : law.queue q) (id : String) :
    law'.message ((Message.ofContent c).enqueue id q now)
  leaseRenew {m : Message} (h : law.message m) {q : Queue} (hq : law.queue q) :
    law'.message (m.leaseRenew q now)
  ack {m : Message} (h : law.message m) : law'.message (m.ack now)
  nack {m : Message} (h : law.message m) (timeout : UInt32) : law'.message (m.nack now timeout)

namespace Store

/-! ### Rows of entities that satisfy a condition -/

/-- Every row is that of an entity that satisfies a condition. -/
def RowsOf {ρ α : Type} (encode : α → ρ) (P : α → Prop) (rows : List ρ) : Prop :=
  ∀ r ∈ rows, ∃ a, P a ∧ r = encode a

namespace RowsOf

variable {ρ α : Type} {encode : α → ρ} {P P' : α → Prop} {rows : List ρ}

theorem nil (encode : α → ρ) (P : α → Prop) : RowsOf encode P [] :=
  fun _ hr => absurd hr List.not_mem_nil

theorem mono (h : RowsOf encode P rows) (hP : ∀ a, P a → P' a) : RowsOf encode P' rows := by
  intro r hr
  obtain ⟨a, ha, rfl⟩ := h r hr
  exact ⟨a, hP a ha, rfl⟩

theorem filter (h : RowsOf encode P rows) (p : ρ → Bool) : RowsOf encode P (rows.filter p) :=
  fun r hr => h r (List.mem_of_mem_filter hr)

theorem append (h : RowsOf encode P rows) {l : List α} (hl : ∀ a ∈ l, P a) :
    RowsOf encode P (rows ++ l.map encode) := by
  intro r hr
  rcases List.mem_append.mp hr with hr | hr
  · exact h r hr
  · obtain ⟨a, ha, rfl⟩ := List.mem_map.mp hr
    exact ⟨a, hl a ha, rfl⟩

theorem append_singleton (h : RowsOf encode P rows) {a : α} (ha : P a) :
    RowsOf encode P (rows ++ [encode a]) :=
  h.append (l := [a]) fun _ hb => List.mem_singleton.mp hb ▸ ha

theorem of_decode? (h : RowsOf encode P rows) {decode? : ρ → Option α}
    (hread : ∀ a, P a → decode? (encode a) = some a) {r : ρ} (hr : r ∈ rows) {a : α}
    (ha : decode? r = some a) : P a ∧ r = encode a := by
  obtain ⟨a', hP, rfl⟩ := h r hr
  rw [hread a' hP] at ha
  obtain rfl := Option.some.inj ha
  exact ⟨hP, rfl⟩

theorem replace (h : RowsOf encode P rows) (p : ρ → Prop) [DecidablePred p] {f : ρ → ρ}
    (hf : ∀ r ∈ rows, p r → ∃ a, P a ∧ f r = encode a) :
    RowsOf encode P (rows.map fun r => if p r then f r else r) := by
  intro r' hr'
  obtain ⟨r, hr, rfl⟩ := List.mem_map.mp hr'
  split_ifs with hp
  · exact hf r hr hp
  · exact h r hr

end RowsOf

/-- Every entity of a store satisfies a law. -/
structure Obeys (s : Store) (law : Law) : Prop where
  queues : RowsOf QueueRow.ofQueue law.queue s.queues
  messages : RowsOf MessageRow.ofMessage law.message s.messages
  topics : RowsOf TopicRow.ofTopic law.topic s.topics
  subscriptions : RowsOf SubscriptionRow.ofSubscription law.subscription s.subscriptions

theorem obeys_empty (law : Law) : empty.Obeys law := by
  constructor <;> exact RowsOf.nil _ _

namespace Obeys

variable {s : Store} {law law' : Law}

theorem of_queue (h : s.Obeys law) {q : Queue} (hq : s.HasQueue q) : law.queue q := by
  obtain ⟨r, hr, hdecode⟩ := hq
  exact (h.queues.of_decode? (fun _ => law.readQueue) hr hdecode).1

theorem of_message (h : s.Obeys law) {r : MessageRow} (hr : r ∈ s.messages) {m : Message}
    (hm : r.decode? = some m) : law.message m ∧ r = .ofMessage m :=
  h.messages.of_decode? (fun _ => law.readMessage) hr hm

theorem mono (h : s.Obeys law) (himplies : law.Implies law') : s.Obeys law' where
  queues := h.queues.mono fun _ => himplies.queue
  messages := h.messages.mono fun _ => himplies.message
  topics := h.topics.mono fun _ => himplies.topic
  subscriptions := h.subscriptions.mono fun _ => himplies.subscription

end Obeys

end Store

namespace Broker

/-! ### Consistent brokers -/

/-- Nothing disturbs the store, no two rows of a table share an identifier, and all identifiers of
messages were issued. -/
structure Consistent (b : Broker) : Prop extends b.store.Keyed where
  queueIds : (b.store.queues.map Store.QueueRow.id).Nodup
  topicIds : (b.store.topics.map Store.TopicRow.id).Nodup
  subscriptionIds : (b.store.subscriptions.map Store.SubscriptionRow.id).Nodup
  serials : ∀ r ∈ b.store.messages, ∃ k < b.issued, r.id = b.source.issue k

theorem consistent_of_empty {b : Broker} (h : b.store = .empty) : b.Consistent := by
  obtain ⟨s, source, issued, metrics, maxLease⟩ := b
  obtain rfl : s = .empty := h
  exact ⟨Store.keyed_empty, List.nodup_nil, List.nodup_nil, List.nodup_nil,
    fun _ hr => absurd hr List.not_mem_nil⟩

theorem consistent_start (source : Identifier.Source) (maxLease : UInt32) :
    (start source .empty maxLease).Consistent :=
  consistent_of_empty rfl

namespace Consistent

variable {b : Broker}

/-- The identifiers to be issued are those of no message. -/
theorem fresh (h : b.Consistent) :
    ∀ n ≥ b.issued, ∀ r ∈ b.store.messages, r.id ≠ b.source.issue n := by
  intro n hn r hr hid
  obtain ⟨k, hk, hserial⟩ := h.serials r hr
  have hsame : k = n := b.source.injective (hserial.symm.trans hid)
  omega

theorem issue (h : b.Consistent) (n : Nat) : (b.issue n).Consistent := by
  refine ⟨h.toKeyed, h.queueIds, h.topicIds, h.subscriptionIds, fun r hr => ?_⟩
  obtain ⟨k, hk, hid⟩ := h.serials r hr
  exact ⟨k, Nat.lt_add_right n hk, hid⟩

end Consistent

/-- A consistent broker all of whose entities satisfy a law. -/
structure Lawful (b : Broker) (law : Law) : Prop extends b.Consistent where
  obeys : b.store.Obeys law

theorem Lawful.issue {b : Broker} {law : Law} (h : b.Lawful law) (n : Nat) :
    (b.issue n).Lawful law := ⟨h.toConsistent.issue n, h.obeys⟩

theorem lawful_start (source : Identifier.Source) (maxLease : UInt32) (law : Law) :
    (start source .empty maxLease).Lawful law :=
  ⟨consistent_start source maxLease, Store.obeys_empty law⟩

section Effects

variable {b b' : Broker} {now : Instant} {call : Call} {result : Store.Result}

theorem serials_addMessages (h : b.Consistent) {m : Message} {ms : List Message}
    (hms : Enqueues m now b ms) : ∀ r ∈ (b.store.addMessages ms).messages,
      ∃ k < b.issued + ms.length, r.id = b.source.issue k := by
  intro r hr
  rcases List.mem_append.mp hr with hr | hr
  · obtain ⟨k, hk, hid⟩ := h.serials r hr
    exact ⟨k, Nat.lt_add_right _ hk, hid⟩
  · obtain ⟨copy, hcopy, rfl⟩ := List.mem_map.mp hr
    have hid : copy.id ∈ ms.map Message.id := List.mem_map_of_mem hcopy
    rw [hms.ids] at hid
    obtain ⟨k, hk, hserial⟩ := List.mem_map.mp hid
    exact ⟨k, (List.mem_range'_1.mp hk).2, hserial.symm⟩

/-- Messages may be changed and removed, but keep their identifiers. -/
theorem Consistent.of_messages (h : b.Consistent) {rows : List Store.MessageRow}
    (hstore : b'.store = { b.store with messages := rows }) (hsource : b'.source = b.source)
    (hissued : b'.issued = b.issued)
    (hids : (rows.map Store.MessageRow.id).Sublist (b.store.messages.map Store.MessageRow.id)) :
    b'.Consistent := by
  obtain ⟨s, source, issued, metrics, maxLease⟩ := b'
  obtain rfl : s = { b.store with messages := rows } := hstore
  obtain rfl : source = b.source := hsource
  obtain rfl : issued = b.issued := hissued
  refine ⟨h.replace (h.ids.sublist hids), h.queueIds, h.topicIds, h.subscriptionIds, ?_⟩
  intro r hr
  obtain ⟨r', hr', hid⟩ := List.mem_map.mp (hids.subset (List.mem_map_of_mem hr))
  obtain ⟨k, hk, hserial⟩ := h.serials r' hr'
  exact ⟨k, hk, hid.symm.trans hserial⟩

theorem sublist_replace {ρ : Type} {id : ρ → String} (rows : List ρ) {p : ρ → Prop}
    [DecidablePred p] {f : ρ → ρ} (hf : ∀ r, p r → id (f r) = id r) :
    ((rows.map fun r => if p r then f r else r).map id).Sublist (rows.map id) := by
  have hids : (rows.map fun r => if p r then f r else r).map id = rows.map id := by
    rw [List.map_map]
    refine List.map_congr_left fun r _ => ?_
    rw [Function.comp_apply]
    split_ifs with hp
    · exact hf r hp
    · rfl
  rw [hids]

/-- **A call that succeeds leaves a consistent broker consistent.** -/
theorem Effect.consistent (h : Effect now b call result b') (hb : b.Consistent) :
    b'.Consistent := by
  cases h with
  | read => exact hb
  | createQueue hvalid hfresh =>
    exact { hb with queueIds := Store.nodup_ids_append hb.queueIds hfresh }
  | updateQueue hvalid hstored hid =>
    exact { hb with queueIds := hb.queueIds.sublist (sublist_replace _ fun r hr => Eq.symm hr) }
  | deleteQueue id =>
    exact { hb with queueIds := hb.queueIds.sublist (List.filter_sublist.map _) }
  | purge id => exact hb.of_messages rfl rfl rfl (List.filter_sublist.map _)
  | cleanup id => exact hb.of_messages rfl rfl rfl (List.filter_sublist.map _)
  | createMessage hbody hm hid hkeyed =>
    exact ⟨hkeyed, hb.queueIds, hb.topicIds, hb.subscriptionIds, serials_addMessages hb hm⟩
  | publish hbody hms hkeyed =>
    exact ⟨hkeyed, hb.queueIds, hb.topicIds, hb.subscriptionIds, serials_addMessages hb hms⟩
  | lease hq hids hread =>
    refine hb.of_messages rfl rfl rfl ?_
    rw [Store.map_id_claimedRows]
  | ack hr₀ hdecode =>
    exact hb.of_messages rfl rfl rfl (sublist_replace _ fun _ _ => rfl)
  | nack hr₀ hdecode timeout =>
    exact hb.of_messages rfl rfl rfl (sublist_replace _ fun _ _ => rfl)
  | createTopic hvalid hfresh =>
    exact { hb with topicIds := Store.nodup_ids_append hb.topicIds hfresh }
  | deleteTopic id =>
    exact { hb with topicIds := hb.topicIds.sublist (List.filter_sublist.map _) }
  | createSubscription hvalid hfresh =>
    exact { hb with subscriptionIds := Store.nodup_ids_append hb.subscriptionIds hfresh }
  | deleteSubscription id =>
    exact { hb with subscriptionIds := hb.subscriptionIds.sublist (List.filter_sublist.map _) }

theorem rowsOf_addMessages {law law' : Law} (hlaw : b.store.Obeys law)
    (hcarries : law.Carries law' now) {c : MessageContent} (hbody : c.body ≠ "")
    {ms : List Message} (hms : Enqueues (.ofContent c) now b ms) :
    Store.RowsOf Store.MessageRow.ofMessage law'.message (b.store.addMessages ms).messages := by
  refine (hlaw.mono hcarries.toImplies).messages.append fun copy hcopy => ?_
  obtain ⟨q, hq, henqueued⟩ := hms.enqueued copy hcopy
  rw [henqueued]
  exact hcarries.enqueue hbody (hlaw.of_queue hq) copy.id

theorem rowsOf_claimedRows {law law' : Law} (hb : b.store.Keyed) (hlaw : b.store.Obeys law)
    (hcarries : law.Carries law' now) {q : Queue} (hq : b.store.HasQueue q) {ms : List Message}
    (hids : (ms.map Message.id).Nodup)
    (hread : ∀ m ∈ ms, ∃ r ∈ b.store.messages, r.decode? = some m ∧ r.queueId = q.id ∧
      r.isVisible now = true) :
    Store.RowsOf Store.MessageRow.ofMessage law'.message
      (Store.claimedRows q now ms b.store.messages) := by
  intro r' hr'
  rcases Store.mem_claimedRows hids hr' with ⟨hr, -⟩ | ⟨m, hm, r, hr, hclaimable, rfl⟩
  · exact (hlaw.mono hcarries.toImplies).messages r' hr
  · -- the row that is renewed is the one that the message was read from
    obtain ⟨r₀, hr₀, hdecode, -, -⟩ := hread m hm
    have hid : r.id = r₀.id := by
      rw [(Store.MessageRow.isClaimable_iff.mp hclaimable).1,
        (Store.MessageRow.decode?_eq_some hdecode).1]
    obtain ⟨hlawm, hr₀m⟩ := hlaw.of_message hr₀ hdecode
    rw [hb.eq_of_id hr₀ hr hid, hr₀m]
    exact ⟨_, hcarries.leaseRenew hlawm (hlaw.of_queue hq), rfl⟩

/-- **What a call leaves satisfies the law** if what the call does to entities does. -/
theorem Effect.obeys (h : Effect now b call result b') (hb : b.store.Keyed) {law law' : Law}
    (hcarries : law.Carries law' now) (hlaw : b.store.Obeys law) : b'.store.Obeys law' := by
  have hlaw' := hlaw.mono hcarries.toImplies
  cases h with
  | read => exact hlaw'
  | createQueue hvalid =>
    exact { hlaw' with queues := hlaw'.queues.append_singleton (hcarries.createQueue hvalid) }
  | updateQueue hvalid hstored hid =>
    refine { hlaw' with queues := hlaw'.queues.replace _ fun r hr hrid => ?_ }
    exact ⟨_, hcarries.updateQueue hvalid (hlaw.of_queue hstored), rfl⟩
  | deleteQueue id => exact { hlaw' with queues := hlaw'.queues.filter _ }
  | purge id => exact { hlaw' with messages := hlaw'.messages.filter _ }
  | cleanup id => exact { hlaw' with messages := hlaw'.messages.filter _ }
  | createMessage hbody hm =>
    exact { hlaw' with messages := rowsOf_addMessages hlaw hcarries hbody hm }
  | publish hbody hms =>
    exact { hlaw' with messages := rowsOf_addMessages hlaw hcarries hbody hms }
  | lease hq hids hread =>
    exact { hlaw' with messages := rowsOf_claimedRows hb hlaw hcarries hq hids hread }
  | ack hr₀ hdecode =>
    obtain ⟨hm, hr₀m⟩ := hlaw.of_message hr₀ hdecode
    refine { hlaw' with messages := hlaw'.messages.replace _ fun r hr hid => ?_ }
    rw [hb.eq_of_id hr₀ hr hid, hr₀m]
    exact ⟨_, hcarries.ack hm, rfl⟩
  | nack hr₀ hdecode timeout =>
    obtain ⟨hm, hr₀m⟩ := hlaw.of_message hr₀ hdecode
    refine { hlaw' with messages := hlaw'.messages.replace _ fun r hr hid => ?_ }
    rw [hb.eq_of_id hr₀ hr hid, hr₀m]
    exact ⟨_, hcarries.nack hm timeout, rfl⟩
  | createTopic hvalid =>
    exact { hlaw' with topics := hlaw'.topics.append_singleton (hcarries.createTopic hvalid) }
  | deleteTopic id => exact { hlaw' with topics := hlaw'.topics.filter _ }
  | createSubscription hvalid =>
    exact { hlaw' with subscriptions :=
      hlaw'.subscriptions.append_singleton (hcarries.createSubscription hvalid) }
  | deleteSubscription id => exact { hlaw' with subscriptions := hlaw'.subscriptions.filter _ }

end Effects

end Broker

end MessageBroker

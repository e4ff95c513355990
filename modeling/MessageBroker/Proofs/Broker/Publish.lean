import MessageBroker.Proofs.Broker.Atomicity
import MessageBroker.Proofs.Store.Keyed
import MessageBroker.Proofs.Store.Table

/-! # A published message reaches every queue once

The pages that a publication reads hold every subscription of the topic once, in ascending order of
identifiers, so reading page after page makes the copies that reading all at once would
(`copies_eq`). These are either all there are, or the first queue that is missing ends the
publication (`copiesFor_ok`, `copiesFor_missing`). As the copies are stored at the end and together,
a publication stores all of them or none (`publication_is_complete`). -/

namespace MessageBroker.Broker

open Fallible

/-- A message with given content, enqueued on a queue at an instant and not leased yet. -/
structure IsCopy (c : MessageContent) (q : Queue) (now : Instant) (m : Message) : Prop where
  queueId : m.queueId = q.id
  label : m.label = c.label
  body : m.body = c.body
  attributes : m.attributes = c.attributes
  deliveryAttempts : m.deliveryAttempts = 0
  scheduledAt : m.scheduledAt = now.addSeconds q.deliveryDelaySeconds.toNat
  expiredAt : m.expiredAt = now.addSeconds q.messageRetentionSeconds.toNat
  createdAt : m.createdAt = now
  updatedAt : m.updatedAt = now

theorem isCopy_enqueue (c : MessageContent) (id : String) (q : Queue) (now : Instant) :
    IsCopy c q now ((Message.ofContent c).enqueue id q now) :=
  ⟨rfl, rfl, rfl, rfl, rfl, rfl, rfl, rfl, rfl⟩

/-- The subscriptions that accept a content. -/
def accepting (c : MessageContent) (l : List Subscription) : List Subscription :=
  l.filter fun s => Subscription.accepts s.messageFilters c.attributes

theorem access_ok {α : Type} {a : Store.Access α} {b : Broker} {v : α}
    (h : a b.store = (.ok v, b.store)) : access a b = (.ok v, b) := by
  unfold access Store.Access.on
  rw [h]

theorem access_error {α : Type} {a : Store.Access α} {b : Broker} {e : Error}
    (h : a b.store = (.error e, b.store)) : access a b = (.error e, b) := by
  unfold access Store.Access.on
  rw [h]

/-! ### Copies for subscriptions -/

theorem copiesFor_append (m : Message) (now : Instant) (l l' : List Subscription) :
    copiesFor m now (l ++ l') = do
      return (← copiesFor m now l) ++ (← copiesFor m now l') := by
  induction l with
  | nil => simp [copiesFor]
  | cons s l ih =>
    rw [List.cons_append, copiesFor, copiesFor, ih]
    split_ifs <;> simp

section Copies

variable {topics : List Topic} {subscriptions : List Subscription} {queues : List Queue}
  {b : Broker} {c : MessageContent} {now : Instant}

theorem getQueue_ok (h : b.store.Catalogue topics subscriptions queues) {q : Queue}
    (hq : q ∈ queues) : access (Store.getQueue q.id) b = (.ok q, b) :=
  access_ok (h.tabulates_queues.get_eq .queue hq)

theorem getQueue_missing (h : b.store.Catalogue topics subscriptions queues) {id : String}
    (hid : ∀ q ∈ queues, q.id ≠ id) :
    access (Store.getQueue id) b = (.error (.notFound .queue id), b) :=
  access_error (h.tabulates_queues.get_missing .queue hid)

theorem copiesFor_cons (h : b.store.Catalogue topics subscriptions queues) {s : Subscription}
    (haccepts : Subscription.accepts s.messageFilters c.attributes = true) {q : Queue}
    (hq : q ∈ queues) (hid : q.id = s.queueId) (l : List Subscription) :
    copiesFor (.ofContent c) now (s :: l) b =
      (copiesFor (.ofContent c) now l >>= fun ms =>
        pure ((Message.ofContent c).enqueue (b.source.issue b.issued) q now :: ms))
        (b.issue 1) := by
  have henqueued : enqueued (.ofContent c) q now b =
      (.ok ((Message.ofContent c).enqueue (b.source.issue b.issued) q now), b.issue 1) := rfl
  have hqueue := getQueue_ok h hq
  rw [hid] at hqueue
  rw [copiesFor, if_pos (show s.acceptsMessage (.ofContent c) = true from haccepts),
    bind_ok hqueue, bind_ok henqueued]

/-- If all queues exist, there is one copy for each subscription that accepts the content. -/
theorem copiesFor_ok (h : b.store.Catalogue topics subscriptions queues) (now : Instant)
    {l : List Subscription} (hqueues : ∀ s ∈ accepting c l, ∃ q ∈ queues, q.id = s.queueId) :
    ∃ ms, copiesFor (.ofContent c) now l b = (.ok ms, b.issue ms.length) ∧
      List.Forall₂ (fun s m => ∃ q ∈ queues, q.id = s.queueId ∧ IsCopy c q now m)
        (accepting c l) ms ∧
      ms.map Message.id = (List.range' b.issued ms.length).map b.source.issue := by
  induction l generalizing b with
  | nil => exact ⟨[], rfl, List.Forall₂.nil, rfl⟩
  | cons s l ih =>
    by_cases haccepts : Subscription.accepts s.messageFilters c.attributes = true
    · have haccepting : accepting c (s :: l) = s :: accepting c l :=
        List.filter_cons_of_pos haccepts
      rw [haccepting] at hqueues ⊢
      obtain ⟨⟨q, hq, hid⟩, hqueues⟩ := List.forall_mem_cons.mp hqueues
      obtain ⟨ms, hms, hcopies, hids⟩ := ih (b := b.issue 1) h hqueues
      have hcopy := isCopy_enqueue c (b.source.issue b.issued) q now
      refine ⟨_, ?_, List.Forall₂.cons ⟨q, hq, hid, hcopy⟩ hcopies, ?_⟩
      · rw [copiesFor_cons h haccepts hq hid l, bind_ok hms, issue_issue, Nat.add_comm 1]
        rfl
      · rw [List.map_cons, hids, List.length_cons, List.range'_succ, List.map_cons]
        rfl
    · have hrejects : copiesFor (.ofContent c) now (s :: l) = copiesFor (.ofContent c) now l :=
        if_neg haccepts
      have haccepting : accepting c (s :: l) = accepting c l := List.filter_cons_of_neg haccepts
      rw [haccepting] at hqueues ⊢
      rw [hrejects]
      exact ih h hqueues

/-- The first subscription that accepts the content and whose queue is missing ends it all. -/
theorem copiesFor_missing (h : b.store.Catalogue topics subscriptions queues) (now : Instant)
    {l before after : List Subscription} {s : Subscription}
    (hl : accepting c l = before ++ s :: after)
    (hbefore : ∀ x ∈ before, ∃ q ∈ queues, q.id = x.queueId)
    (hmissing : ∀ q ∈ queues, q.id ≠ s.queueId) :
    ∃ n, copiesFor (.ofContent c) now l b =
      (.error (.notFound .queue s.queueId), b.issue n) := by
  induction l generalizing b before with
  | nil => cases before <;> cases hl
  | cons x l ih =>
    by_cases haccepts : Subscription.accepts x.messageFilters c.attributes = true
    · have haccepting : accepting c (x :: l) = x :: accepting c l :=
        List.filter_cons_of_pos haccepts
      rw [haccepting] at hl
      cases before with
      | nil =>
        obtain ⟨rfl, -⟩ := List.cons.inj hl
        refine ⟨0, ?_⟩
        rw [copiesFor, if_pos (show x.acceptsMessage (.ofContent c) = true from haccepts),
          bind_error (getQueue_missing h hmissing)]
        rfl
      | cons y before =>
        obtain ⟨rfl, hrest⟩ := List.cons.inj hl
        obtain ⟨⟨q, hq, hid⟩, hbefore⟩ := List.forall_mem_cons.mp hbefore
        obtain ⟨n, hn⟩ := ih (b := b.issue 1) h hrest hbefore
        refine ⟨1 + n, ?_⟩
        rw [copiesFor_cons h haccepts hq hid l, bind_error hn, issue_issue]
    · have hrejects : copiesFor (.ofContent c) now (x :: l) = copiesFor (.ofContent c) now l :=
        if_neg haccepts
      have haccepting : accepting c (x :: l) = accepting c l := List.filter_cons_of_neg haccepts
      rw [haccepting] at hl
      rw [hrejects]
      exact ih h hl hbefore

end Copies

/-! ### Page after page -/

section Pages

variable {topics : List Topic} {subscriptions : List Subscription} {queues : List Queue}
  {b : Broker} {topicId : String} {l : List Subscription}

theorem listTopicSubscriptions_ok (h : b.store.Catalogue topics subscriptions queues)
    (hperm : l.Perm (subscriptions.filter (·.topicId = topicId)))
    (hsorted : l.Pairwise fun a b => Text.lt a.id b.id = true) (offset limit : UInt32) :
    access (Store.listTopicSubscriptions topicId offset limit) b =
      (.ok (Store.page offset limit l), b) :=
  access_ok (h.tabulates_subscriptions.listPage_eq hperm
    (hsorted.imp fun hlt => Text.le_of_lt hlt) offset limit)

/-- The pages from an offset on hold the subscriptions from there on, each once. -/
theorem copiesFrom_eq (h : b.store.Catalogue topics subscriptions queues)
    (hperm : l.Perm (subscriptions.filter (·.topicId = topicId)))
    (hsorted : l.Pairwise fun a b => Text.lt a.id b.id = true) (hlength : l.length + 50 < 2 ^ 32)
    (m : Message) (now : Instant) {pages : Nat} {offset : UInt32}
    (hpages : l.length ≤ offset.toNat + 50 * pages) :
    copiesFrom topicId m now pages offset b = copiesFor m now (l.drop offset.toNat) b := by
  induction pages generalizing b offset with
  | zero =>
    rw [List.drop_eq_nil_of_le (by omega)]
    rfl
  | succ pages ih =>
    have hpage : Store.page offset subscriptionPage l = (l.drop offset.toNat).take 50 := rfl
    rw [copiesFrom, bind_ok (listTopicSubscriptions_ok h hperm hsorted _ _), hpage]
    by_cases hend : l.length ≤ offset.toNat
    · rw [List.drop_eq_nil_of_le hend]
      rfl
    · have hnext : (offset + subscriptionPage).toNat = offset.toNat + 50 := by
        rw [UInt32.toNat_add]
        exact Nat.mod_eq_of_lt (by simp [subscriptionPage]; omega)
      have hnonempty : ((l.drop offset.toNat).take 50).isEmpty = false := by
        rw [List.isEmpty_eq_false_iff]
        intro hnil
        have hlen := congrArg List.length hnil
        simp at hlen
        omega
      have hsplit : l.drop offset.toNat =
          (l.drop offset.toNat).take 50 ++ l.drop (offset + subscriptionPage).toNat := by
        rw [hnext, ← List.drop_drop, List.take_append_drop]
      rw [hnonempty, if_neg (by simp)]
      conv_rhs => rw [hsplit, copiesFor_append]
      have hstore := (onlyIssues_copiesFor m now ((l.drop offset.toNat).take 50)).preserves b
      rcases hcopies : copiesFor m now ((l.drop offset.toNat).take 50) b with ⟨e | ms, b'⟩
      · rw [bind_error hcopies, bind_error hcopies]
      · rw [hcopies] at hstore
        have hstore : b'.store = b.store := hstore
        have hrest : copiesFrom topicId m now pages (offset + subscriptionPage) b' =
            copiesFor m now (l.drop (offset + subscriptionPage).toNat) b' :=
          ih (hstore ▸ h) (by omega)
        rw [bind_ok hcopies, bind_ok hcopies, bind_apply, hrest, ← bind_apply]

theorem copies_eq (h : b.store.Catalogue topics subscriptions queues)
    (hperm : l.Perm (subscriptions.filter (·.topicId = topicId)))
    (hsorted : l.Pairwise fun a b => Text.lt a.id b.id = true) (hlength : l.length + 50 < 2 ^ 32)
    (m : Message) (now : Instant) : copies topicId m now b = copiesFor m now l b := by
  refine copiesFrom_eq h hperm hsorted hlength m now ?_
  have hle := hperm.length_eq.trans_le (List.length_filter_le _ _)
  rw [h.subscriptionRows, List.length_map]
  omega

end Pages

/-! ### Publications -/

section Publications

variable {topics : List Topic} {subscriptions : List Subscription} {queues : List Queue}
  {b : Broker} {topicId : String} {l : List Subscription}

theorem validate_ofContent (c : MessageContent) : (Message.ofContent c).validate =
    if c.body = "" then .error (.validationFailed ⟨Dict.empty.insertNew "body" .blank⟩)
    else .ok () := by
  have hchecks : (Message.ofContent c).checks = [.text "body" c.body] := rfl
  unfold Message.validate
  rw [hchecks, ValidationErrors.ofChecks, List.foldl_cons, List.foldl_nil, ValidationErrors.add,
    Check.violation?]
  split_ifs <;> rfl

theorem publish_blank (topicId : String) {c : MessageContent} (hbody : c.body = "") (now : Instant)
    (b : Broker) : publish topicId c now b =
      (.error (.validationFailed ⟨Dict.empty.insertNew "body" .blank⟩), b) := by
  have hcheck : check (Message.ofContent c).validate b =
      (.error (.validationFailed ⟨Dict.empty.insertNew "body" .blank⟩), b) := by
    rw [validate_ofContent, if_pos hbody]
    rfl
  exact bind_error hcheck _

theorem check_validate {c : MessageContent} (hbody : c.body ≠ "") (b : Broker) :
    check (Message.ofContent c).validate b = (.ok (), b) := by
  rw [validate_ofContent, if_neg hbody]
  rfl

theorem publish_missing (h : b.store.Catalogue topics subscriptions queues)
    (htopic : ∀ t ∈ topics, t.id ≠ topicId) {c : MessageContent} (hbody : c.body ≠ "")
    (now : Instant) : publish topicId c now b = (.error (.notFound .topic topicId), b) := by
  have hget : access (Store.getTopic topicId) b = (.error (.notFound .topic topicId), b) :=
    access_error (h.tabulates_topics.get_missing .topic htopic)
  exact (bind_ok (check_validate hbody b) _).trans (bind_error hget _)

theorem publish_eq (h : b.store.Catalogue topics subscriptions queues) {t : Topic} (ht : t ∈ topics)
    {c : MessageContent} (hbody : c.body ≠ "") (now : Instant) :
    publish t.id c now b = (do
      let ms ← copies t.id (.ofContent c) now
      access (Store.createMessages ms)
      count fun metrics => ms.foldl (fun metrics copy => metrics.addEnqueued copy.queueId) metrics
      return ms : Action (List Message)) b := by
  have hget : access (Store.getTopic t.id) b = (.ok t, b) :=
    access_ok (h.tabulates_topics.get_eq .topic ht)
  exact (bind_ok (check_validate hbody b) _).trans (bind_ok hget _)

theorem nodup_of_issued {source : Identifier.Source} {ms : List Message} {n : Nat}
    (hids : ms.map Message.id = (List.range' n ms.length).map source.issue) :
    (ms.map Message.id).Nodup := by
  rw [hids]
  exact List.Nodup.map (fun _ _ h => source.injective h) List.nodup_range'

theorem fresh_of_issued {source : Identifier.Source} {ms : List Message}
    {rows : List Store.MessageRow} {n : Nat}
    (hids : ms.map Message.id = (List.range' n ms.length).map source.issue)
    (hfresh : ∀ k ≥ n, ∀ r ∈ rows, r.id ≠ source.issue k) :
    ∀ m ∈ ms, ∀ r ∈ rows, r.id ≠ m.id := by
  intro m hm r hr
  have hid : m.id ∈ ms.map Message.id := List.mem_map_of_mem hm
  rw [hids] at hid
  obtain ⟨k, hk, he⟩ := List.mem_map.mp hid
  rw [← he]
  exact hfresh k (List.mem_range'_1.mp hk).1 r hr

/-- **A publication is complete, exact, and all or nothing.** Without a body or a topic it fails.
Otherwise the first subscription that accepts the content but whose queue is missing makes it fail,
and nothing is stored; if there is none, every subscription that accepts the content has exactly one
copy, in ascending order of identifiers, and these copies are all that the store gains. -/
theorem publication_is_complete (h : b.store.Catalogue topics subscriptions queues)
    (hfresh : ∀ n ≥ b.issued, ∀ r ∈ b.store.messages, r.id ≠ b.source.issue n)
    (hperm : l.Perm (subscriptions.filter (·.topicId = topicId)))
    (hsorted : l.Pairwise fun a b => Text.lt a.id b.id = true) (hlength : l.length + 50 < 2 ^ 32)
    (c : MessageContent) (now : Instant) :
    (c.body = "" → (publish topicId c now).on b =
      (.error (.validationFailed ⟨Dict.empty.insertNew "body" .blank⟩), b)) ∧
    (c.body ≠ "" → (∀ t ∈ topics, t.id ≠ topicId) →
      (publish topicId c now).on b = (.error (.notFound .topic topicId), b)) ∧
    (c.body ≠ "" → (∃ t ∈ topics, t.id = topicId) →
      (∀ before s after, accepting c l = before ++ s :: after →
        (∀ x ∈ before, ∃ q ∈ queues, q.id = x.queueId) → (∀ q ∈ queues, q.id ≠ s.queueId) →
          ((publish topicId c now).on b).1 = .error (.notFound .queue s.queueId) ∧
            ((publish topicId c now).on b).2.store = b.store) ∧
      ((∀ s ∈ accepting c l, ∃ q ∈ queues, q.id = s.queueId) →
        ∃ ms, ((publish topicId c now).on b).1 = .ok ms ∧
          List.Forall₂ (fun s m => ∃ q ∈ queues, q.id = s.queueId ∧ IsCopy c q now m)
            (accepting c l) ms ∧
          (ms.map Message.id).Nodup ∧ (∀ m ∈ ms, ∀ r ∈ b.store.messages, r.id ≠ m.id) ∧
          ((publish topicId c now).on b).2.store = b.store.addMessages ms)) := by
  refine ⟨fun hbody => publish_blank topicId hbody now b,
    fun hbody htopic => publish_missing h htopic hbody now, ?_⟩
  rintro hbody ⟨t, ht, rfl⟩
  have hpublish := publish_eq h ht hbody now
  have hcopies := copies_eq h hperm hsorted hlength (.ofContent c) now
  constructor
  · intro before s after hl hbefore hmissing
    obtain ⟨n, hn⟩ := copiesFor_missing h now hl hbefore hmissing
    rw [bind_error (hcopies.trans hn)] at hpublish
    unfold Action.on
    rw [hpublish]
    exact ⟨rfl, rfl⟩
  · intro hqueues
    obtain ⟨ms, hms, hforall, hids⟩ := copiesFor_ok h now hqueues
    have hnodup := nodup_of_issued hids
    have hnew := fresh_of_issued hids hfresh
    have hstored : access (Store.createMessages ms) (b.issue ms.length) =
        (.ok (), { b.issue ms.length with store := b.store.addMessages ms }) := by
      unfold access Store.Access.on
      rw [show (b.issue ms.length).store = b.store from rfl,
        Store.createMessages_fresh h.toUndisturbed hnodup hnew]
    rw [bind_ok (hcopies.trans hms), bind_ok hstored] at hpublish
    refine ⟨ms, ?_, hforall, hnodup, hnew, ?_⟩
    · unfold Action.on
      rw [hpublish]
      rfl
    · unfold Action.on
      rw [hpublish]
      rfl

end Publications

/-- Three subscriptions of a topic. The queue of the second is missing, but it accepts only messages
of another kind. -/
def forkSubscriptions : List Subscription :=
  [⟨"a", "t", "q", ∅, .epoch⟩, ⟨"b", "t", "gone", Dict.empty.insert "kind" ["other"], .epoch⟩,
    ⟨"c", "t", "q", ∅, .epoch⟩]

/-- A broker with the topic and the queue of the others, and the subscriptions in another order. -/
def forkBroker : Broker :=
  .start .serials { Store.empty with
    topics := [.ofTopic ⟨"t", .epoch⟩]
    subscriptions := forkSubscriptions.reverse.map .ofSubscription
    queues := [.ofQueue ⟨"q", 30, 60, 5, .epoch, .epoch⟩] } 10

/-- Both subscriptions that accept a message have a copy of it. -/
theorem forkBroker_copies : ∃ ms,
    ((publish "t" ⟨none, "body", ∅⟩ .epoch).on forkBroker).1 = .ok ms ∧ ms.length = 2 := by
  have hcatalogue : forkBroker.store.Catalogue [⟨"t", .epoch⟩] forkSubscriptions.reverse
      [⟨"q", 30, 60, 5, .epoch, .epoch⟩] :=
    ⟨⟨rfl, rfl, rfl⟩, rfl, rfl, rfl, by decide, by decide, by decide, by decide, by decide,
      by decide⟩
  have hfresh : ∀ n ≥ forkBroker.issued, ∀ r ∈ forkBroker.store.messages,
      r.id ≠ forkBroker.source.issue n := by
    intro n _ r hr
    exact absurd hr List.not_mem_nil
  have hperm : forkSubscriptions.Perm
      (forkSubscriptions.reverse.filter (·.topicId = "t")) := by decide +kernel
  have hsorted : forkSubscriptions.Pairwise fun a b => Text.lt a.id b.id = true := by
    decide +kernel
  have hqueues : ∀ s ∈ accepting ⟨none, "body", ∅⟩ forkSubscriptions,
      ∃ q ∈ [(⟨"q", 30, 60, 5, .epoch, .epoch⟩ : Queue)], q.id = s.queueId := by decide +kernel
  obtain ⟨ms, hms, hcopies, -⟩ := ((publication_is_complete hcatalogue hfresh hperm hsorted
    (by decide) ⟨none, "body", ∅⟩ .epoch).2.2 (by decide) ⟨_, List.mem_singleton_self _, rfl⟩).2
    hqueues
  exact ⟨ms, hms, hcopies.length_eq.symm⟩

end MessageBroker.Broker

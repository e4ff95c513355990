import MessageBroker.Proofs.Http.Run
import MessageBroker.Proofs.Store.Refusal
import MessageBroker.Proofs.Validation

/-! # What calls refuse

`Call.refusal? s` is the error that a call answers in a state, if it answers one: first that what it
is given is not valid, then that what it refers to does not exist, or that what it makes exists
already. It is read off the identifiers of the rows alone. If every row can be read back, calls
refuse this and nothing else (`Lawful.answers_perform`), except that a publication is also refused
if the queue of a subscription that accepts it does not exist (`Misses`). After a run within the
years 0 to 9999 every row can be read back; hence `errors_are_exact`. -/

namespace MessageBroker

/-- The error tells the caller about the call, not about the storage or the form of a request. -/
def Error.ConcernsCall : Error → Prop
  | .validationFailed _ | .notFound .. | .alreadyExists .. => True
  | .storageUnavailable | .unknown | .migration | .malformedRequest _ => False

namespace Broker

open Fallible
open Store (missing? taken?)

/-! ### Refusals -/

/-- The refusal of what is not valid. -/
def invalid? : Except Error Unit → Option Error
  | .ok () => none
  | .error e => some e

/-- The refusal of a message without a body. -/
def blank? (c : MessageContent) : Option Error :=
  if c.body = "" then some (.validationFailed ⟨Dict.empty.insertNew "body" .blank⟩) else none

/-- The error that a call answers in a state, if it answers one. -/
def Call.refusal? (s : Store) : Call → Option Error
  | .createQueue q => (invalid? q.validate).or (taken? Store.QueueRow s .queue q.id)
  | .updateQueue q => (invalid? q.validate).or (missing? Store.QueueRow s .queue q.id)
  | .getQueue id | .deleteQueue id | .queueStats id | .purge id | .cleanup id | .lease id _ _ =>
    missing? Store.QueueRow s .queue id
  | .createMessage queueId c => (blank? c).or (missing? Store.QueueRow s .queue queueId)
  | .getMessage id | .ack id | .nack id _ => missing? Store.MessageRow s .message id
  | .createTopic t => (invalid? t.validate).or (taken? Store.TopicRow s .topic t.id)
  | .getTopic id | .deleteTopic id => missing? Store.TopicRow s .topic id
  | .publish topicId c => (blank? c).or (missing? Store.TopicRow s .topic topicId)
  | .createSubscription x =>
    (invalid? x.validate).or (taken? Store.SubscriptionRow s .subscription x.id)
  | .getSubscription id | .deleteSubscription id =>
    missing? Store.SubscriptionRow s .subscription id
  | .listQueues .. | .listTopics .. | .listSubscriptions .. | .health => none

/-- The error that a subscription of a topic accepts a message, but its queue does not exist. -/
def Misses (s : Store) (topicId : String) (c : MessageContent) (e : Error) : Prop :=
  ∃ x, s.HasSubscription x ∧ x.topicId = topicId ∧ x.acceptsMessage (.ofContent c) = true ∧
    (∀ r ∈ s.queues, r.id ≠ x.queueId) ∧ e = .notFound .queue x.queueId

section Kinds

theorem concernsCall_of_invalid? {checks : List Check} {e : Error}
    (h : invalid? (ValidationErrors.ofChecks checks).toResult = some e) : e.ConcernsCall := by
  unfold invalid? at h
  split at h
  · cases h
  · next e' he' =>
    obtain rfl := Option.some.inj h
    obtain ⟨errors, rfl⟩ := ValidationErrors.exists_of_toResult_eq_error he'
    trivial

theorem concernsCall_of_blank? {c : MessageContent} {e : Error} (h : blank? c = some e) :
    e.ConcernsCall := by
  unfold blank? at h
  split_ifs at h
  obtain rfl := Option.some.inj h
  trivial

variable {ρ : Type} [Store.TableRow ρ] {s : Store} {entity : Entity} {id : String} {e : Error}

theorem concernsCall_of_missing? (h : missing? ρ s entity id = some e) : e.ConcernsCall := by
  obtain ⟨-, rfl⟩ := Store.missing?_eq_some_iff.mp h
  trivial

theorem concernsCall_of_taken? (h : taken? ρ s entity id = some e) : e.ConcernsCall := by
  obtain ⟨-, rfl⟩ := Store.taken?_eq_some_iff.mp h
  trivial

/-- **Refusals are about the call.** -/
theorem Call.concernsCall_of_refusal? {call : Call} (h : call.refusal? s = some e) :
    e.ConcernsCall := by
  cases call with
  | createQueue | createTopic | createSubscription =>
    rcases Option.or_eq_some_iff.mp h with h | ⟨-, h⟩
    · exact concernsCall_of_invalid? h
    · exact concernsCall_of_taken? h
  | updateQueue =>
    rcases Option.or_eq_some_iff.mp h with h | ⟨-, h⟩
    · exact concernsCall_of_invalid? h
    · exact concernsCall_of_missing? h
  | createMessage | publish =>
    rcases Option.or_eq_some_iff.mp h with h | ⟨-, h⟩
    · exact concernsCall_of_blank? h
    · exact concernsCall_of_missing? h
  | listQueues | listTopics | listSubscriptions | health => cases h
  | _ => exact concernsCall_of_missing? h

end Kinds

/-! ### Parts of calls -/

section Parts

variable {α : Type} {b : Broker}

theorem answers_access {a : Store.Access α} {refusal : Option Error}
    (h : Answers a b.store refusal) : Answers (access a) b refusal := by
  cases refusal <;> exact h

theorem answers_check (result : Except Error Unit) (b : Broker) :
    Answers (check result) b (invalid? result) := by
  rcases result with e | _
  · exact answers_of_error rfl
  · exact answers_of_ok rfl

theorem answers_check_ofContent (c : MessageContent) (b : Broker) :
    Answers (check (Message.ofContent c).validate) b (blank? c) := by
  unfold blank?
  rw [validate_ofContent]
  split_ifs
  · exact answers_of_error rfl
  · exact answers_of_ok rfl

theorem answers_creation {ρ : Type} [Store.TableRow ρ] (h : b.store.Undisturbed)
    (result : Except Error Unit) (entity : Entity) (r : ρ) (v : α) :
    Answers (do check result; access (Store.insert entity r); return v : Action α) b
      ((invalid? result).or (taken? ρ b.store entity (Store.Row.id r))) := by
  refine (answers_check result b).bind fun _ _ b' hcheck => ?_
  obtain ⟨-, rfl⟩ := of_check hcheck
  exact (answers_access (Store.answers_insert h entity r)).bind_pure _

section Found

variable {ρ : Type} [Store.TableRow ρ] [Store.LawfulTableRow ρ] {decode? : ρ → Option α}

theorem answers_found {β : Type} (h : b.store.Undisturbed)
    (hrows : Store.Legible decode? (Store.TableRow.rows b.store)) (entity : Entity) (id : String)
    {f : α → Action β}
    (hf : ∀ r ∈ (Store.TableRow.rows b.store : List ρ), Store.Row.id r = id → ∀ v,
      decode? r = some v → Answers (f v) b none) :
    Answers (access (Store.get entity decode? id) >>= f) b (missing? ρ b.store entity id) := by
  have hget := answers_access (b := b) (Store.answers_get h hrows entity id)
  refine hget.bind_none fun _ v b' hv => ?_
  obtain ⟨rfl, r, hr, hid, hdecode⟩ := of_access_get h hv
  exact hf r hr hid v hdecode

theorem answers_deletion (h : b.store.Undisturbed)
    (hrows : Store.Legible decode? (Store.TableRow.rows b.store)) (entity : Entity)
    (idOf : α → String) (hdecode : ∀ r v, decode? r = some v → idOf v = Store.Row.id r)
    (id : String) :
    Answers (do access (Store.delete ρ entity (idOf (← access (Store.get entity decode? id)))) :
      Action Unit) b (missing? ρ b.store entity id) := by
  refine answers_found h hrows entity id fun r hr hid v hv => ?_
  exact answers_access (Store.answers_delete h entity ⟨r, hr, (hdecode r v hv).symm⟩)

end Found

end Parts

/-! ### Calls -/

theorem legible_of_rowsOf {ρ α : Type} {encode : α → ρ} {P : α → Prop} {rows : List ρ}
    (h : Store.RowsOf encode P rows) {decode? : ρ → Option α}
    (hread : ∀ a, P a → decode? (encode a) = some a) : Store.Legible decode? rows := by
  intro r hr
  obtain ⟨a, ha, rfl⟩ := h r hr
  exact ⟨a, hread a ha⟩

namespace Lawful

variable {b : Broker} {law : Law} (h : b.Lawful law)
include h

theorem legible_queues : Store.Legible Store.QueueRow.decode? b.store.queues :=
  legible_of_rowsOf h.obeys.queues fun _ => law.readQueue

theorem legible_messages : Store.Legible Store.MessageRow.decode? b.store.messages :=
  legible_of_rowsOf h.obeys.messages fun _ => law.readMessage

theorem legible_topics : Store.Legible Store.TopicRow.decode? b.store.topics :=
  legible_of_rowsOf h.obeys.topics fun _ => law.readTopic

theorem legible_subscriptions : Store.Legible Store.SubscriptionRow.decode? b.store.subscriptions :=
  legible_of_rowsOf h.obeys.subscriptions fun _ => law.readSubscription

theorem answers_onQueue {α : Type} (id : String) {f : String → Store.Access α}
    (hf : ∀ r ∈ b.store.queues, r.id = id → Answers (f id) b.store none) :
    Answers (onQueue id f) b (missing? Store.QueueRow b.store .queue id) := by
  refine answers_found h.toUndisturbed h.legible_queues .queue id fun r hr hid q hq => ?_
  have hqid : q.id = id := (Store.QueueRow.id_of_decode? hq).trans hid
  rw [hqid]
  exact answers_access (hf r hr hid)

theorem answers_updateQueue (q : Queue) (now : Instant) : Answers (updateQueue q now) b
    ((invalid? q.validate).or (missing? Store.QueueRow b.store .queue q.id)) := by
  refine (answers_check q.validate b).bind fun _ _ b' hcheck => ?_
  obtain ⟨-, rfl⟩ := of_check hcheck
  refine answers_found h.toUndisturbed h.legible_queues .queue q.id fun r hr hid stored _ => ?_
  have hupdate := Store.answers_updateQueue (s := b'.store) h.toUndisturbed
    (q := { q with createdAt := stored.createdAt, updatedAt := now }) ⟨r, hr, hid⟩
  exact (answers_access hupdate).bind_none fun _ _ _ _ => answers_of_ok rfl

theorem answers_createMessage (queueId : String) (c : MessageContent) (now : Instant) :
    Answers (createMessage queueId c now) b
      ((blank? c).or (missing? Store.QueueRow b.store .queue queueId)) := by
  refine (answers_check_ofContent c b).bind fun _ _ b' hcheck => ?_
  obtain ⟨-, rfl⟩ := of_check hcheck
  refine answers_found h.toUndisturbed h.legible_queues .queue queueId fun r hr hid q _ => ?_
  have henqueued : enqueued (.ofContent c) q now b' =
      (.ok ((Message.ofContent c).enqueue (b'.source.issue b'.issued) q now), b'.issue 1) := rfl
  refine (answers_of_ok henqueued).bind_none fun _ m b₁ hm => ?_
  obtain ⟨hanswer, rfl⟩ := Prod.mk.inj (henqueued.symm.trans hm)
  -- the identifier was just issued, so no stored message has it
  have hid : b'.source.issue b'.issued = m.id :=
    congrArg Message.id (Except.ok.inj hanswer)
  have hfresh : ∀ r ∈ b'.store.messages, r.id ≠ m.id := hid ▸ h.fresh b'.issued le_rfl
  have hcreated : Answers (access (Store.createMessage m)) (b'.issue 1) none :=
    answers_access (answers_of_ok (Store.createMessage_fresh h.toUndisturbed hfresh))
  exact hcreated.bind_none fun _ _ _ _ => answers_of_ok rfl

theorem answers_lease (queueId : String) (label : Option String) (limit : UInt32) (now : Instant) :
    Answers (lease queueId label limit now) b
      (missing? Store.QueueRow b.store .queue queueId) := by
  refine answers_found h.toUndisturbed h.legible_queues .queue queueId fun r hr hid q _ => ?_
  have hlease := answers_access (h.toKeyed.answers_lease h.legible_messages q label limit now)
  exact hlease.bind_none fun _ _ _ _ => answers_of_ok rfl

theorem answers_rewrite {f : Message → Message} (hid : ∀ m, (f m).id = m.id) (id : String) :
    Answers (access (Store.getMessage id >>= fun m => Store.updateMessage (f m))) b
      (missing? Store.MessageRow b.store .message id) :=
  answers_access (Store.answers_rewrite h.toUndisturbed h.legible_messages hid id)

/-! ### Publications -/

theorem failsOnly_copiesFor {topicId : String} (c : MessageContent) (now : Instant)
    {l : List Subscription} (hl : ∀ x ∈ l, b.store.HasSubscription x ∧ x.topicId = topicId) :
    FailsOnly (Misses b.store topicId c) (copiesFor (.ofContent c) now l) b := by
  induction l generalizing b with
  | nil => exact failsOnly_pure _ _ b
  | cons x l ih =>
    obtain ⟨⟨hx, htopic⟩, hl⟩ := List.forall_mem_cons.mp hl
    rw [copiesFor]
    split_ifs with haccepts
    · have hget := answers_access (b := b)
        (Store.answers_get h.toUndisturbed h.legible_queues .queue x.queueId)
      refine FailsOnly.bind (fun e he => ?_) fun q b₁ hq => ?_
      · obtain ⟨hmissing, rfl⟩ := Store.missing?_eq_some_iff.mp (hget.eq_some he)
        exact ⟨x, hx, htopic, haccepts, hmissing, rfl⟩
      · obtain ⟨rfl, -, -⟩ := of_access_getQueue h.toUndisturbed hq
        refine FailsOnly.bind ((answers_of_ok rfl).failsOnly _) fun copy b₂ henqueued => ?_
        -- the others find the same store, with one more identifier issued
        obtain rfl : b₁.issue 1 = b₂ := congrArg Prod.snd henqueued
        exact (ih (h.issue 1) hl).bind_pure _
    · exact ih h hl

theorem failsOnly_copiesFrom (topicId : String) (c : MessageContent) (now : Instant) (pages : Nat)
    (offset : UInt32) : FailsOnly (Misses b.store topicId c)
      (copiesFrom topicId (.ofContent c) now pages offset) b := by
  induction pages generalizing b offset with
  | zero => exact failsOnly_pure _ _ b
  | succ pages ih =>
    have hlist :
        Answers (access (Store.listTopicSubscriptions topicId offset subscriptionPage)) b none :=
      answers_access (Store.answers_listPage h.toUndisturbed h.legible_subscriptions _ _ _)
    rw [copiesFrom]
    refine FailsOnly.bind (hlist.failsOnly _) fun page b₁ hpage => ?_
    have hb : b₁ = b := of_access_reads (Store.reads_listPage _ _ _ _) hpage
    have hl : ∀ x ∈ page, b.store.HasSubscription x ∧ x.topicId = topicId := by
      intro x hx
      obtain ⟨r, hr, htopic, hdecode⟩ :=
        Store.of_listPage (congrArg Prod.fst (of_access hpage).1) x hx
      obtain ⟨-, rfl⟩ := h.obeys.subscriptions.of_decode? (fun _ => law.readSubscription) hr hdecode
      exact ⟨⟨_, hr, hdecode⟩, of_decide_eq_true htopic⟩
    rw [hb]
    split_ifs
    · exact failsOnly_pure _ _ b
    · refine FailsOnly.bind (h.failsOnly_copiesFor c now hl) fun copies b₂ hcopies => ?_
      obtain ⟨rfl, -⟩ := of_copiesFor h.toUndisturbed hcopies
      exact (ih (h.issue copies.length) (offset + subscriptionPage)).bind_pure _

theorem answers_createMessages {m : Message} {now : Instant} {ms : List Message}
    (hms : Enqueues m now b ms) :
    Answers (access (Store.createMessages ms)) (b.issue ms.length) none := by
  have hnodup := nodup_of_issued hms.ids
  have hfresh := fresh_of_issued hms.ids h.fresh
  exact answers_access (b := b.issue ms.length)
    (answers_of_ok (Store.createMessages_fresh h.toUndisturbed hnodup hfresh))

/-- Once the topic is found, a publication fails only for the queue of a subscription. -/
theorem failsOnly_delivery (topicId : String) (c : MessageContent) (now : Instant)
    (change : List Message → Metrics → Metrics) :
    FailsOnly (Misses b.store topicId c) (do
      let ms ← copies topicId (.ofContent c) now
      access (Store.createMessages ms)
      count (change ms)
      return ms : Action (List Message)) b := by
  have hcopies : FailsOnly (Misses b.store topicId c) (copies topicId (.ofContent c) now) b :=
    h.failsOnly_copiesFrom topicId c now _ 0
  refine hcopies.bind fun ms b₁ hms => ?_
  obtain ⟨rfl, henqueues⟩ := of_copiesFrom h.toUndisturbed hms
  refine FailsOnly.bind ((h.answers_createMessages henqueues).failsOnly _) fun _ _ _ => ?_
  exact (answers_of_ok rfl).failsOnly _

/-- A publication is refused without a body or a topic, and otherwise fails only for the queue of a
subscription. -/
theorem answers_publish (topicId : String) (c : MessageContent) (now : Instant) :
    ∃ more, Answers (publish topicId c now) b
      (((blank? c).or (missing? Store.TopicRow b.store .topic topicId)).or more) ∧
        ∀ e, more = some e → Misses b.store topicId c e := by
  -- what follows the look-up of the topic decides on further refusals
  obtain ⟨more, hmore⟩ := exists_answers (do
    let ms ← copies topicId (.ofContent c) now
    access (Store.createMessages ms)
    count fun metrics => ms.foldl (fun metrics copy => metrics.addEnqueued copy.queueId) metrics
    return ms : Action (List Message)) b
  refine ⟨more, ?_, fun e he => h.failsOnly_delivery topicId c now _ e (he ▸ hmore)⟩
  rw [Option.or_assoc]
  refine (answers_check_ofContent c b).bind fun _ _ b₁ hcheck => ?_
  obtain ⟨-, rfl⟩ := of_check hcheck
  have hget := answers_access (b := b₁)
    (Store.answers_get h.toUndisturbed h.legible_topics .topic topicId)
  refine hget.bind fun _ t b₂ ht => ?_
  obtain ⟨rfl, r, -, hid, hdecode⟩ := of_access_get h.toUndisturbed ht
  have htopic : t.id = topicId := (Store.TopicRow.id_of_decode? hdecode).trans hid
  rw [htopic]
  exact hmore

/-! ### All calls -/

theorem answers_perform_of_ne (now : Instant) {call : Call}
    (hcall : ∀ topicId c, call ≠ .publish topicId c) :
    Answers (perform now call) b (call.refusal? b.store) := by
  have hundisturbed := h.toUndisturbed
  cases call with
  | createQueue q => exact (answers_creation hundisturbed q.validate .queue _ _).bind_pure _
  | updateQueue q => exact (h.answers_updateQueue q now).bind_pure _
  | getQueue id =>
    have hget := Store.answers_get hundisturbed h.legible_queues .queue id
    exact (answers_access hget).bind_pure _
  | listQueues offset limit =>
    have hlist := Store.answers_listPage hundisturbed h.legible_queues (fun _ => true) offset limit
    exact (answers_access hlist).bind_pure _
  | deleteQueue id =>
    have hdelete := h.answers_onQueue id fun r hr hid =>
      Store.answers_delete hundisturbed .queue ⟨r, hr, hid⟩
    exact hdelete.bind_pure _
  | queueStats id =>
    have hstats := h.answers_onQueue (f := (Store.queueStats · now)) id fun _ _ _ =>
      Store.answers_queueStats hundisturbed h.legible_messages id now
    exact hstats.bind_pure _
  | purge id =>
    have hpurge := h.answers_onQueue (f := Store.purge) id fun _ _ _ =>
      Store.answers_removal hundisturbed _
    exact hpurge.bind_pure _
  | cleanup id =>
    have hcleanup := h.answers_onQueue (f := (Store.cleanup · now)) id fun _ _ _ =>
      Store.answers_removal hundisturbed _
    exact hcleanup.bind_pure _
  | createMessage queueId c => exact (h.answers_createMessage queueId c now).bind_pure _
  | getMessage id =>
    have hget := Store.answers_get hundisturbed h.legible_messages .message id
    exact (answers_access hget).bind_pure _
  | lease queueId label limit => exact (h.answers_lease queueId label limit now).bind_pure _
  | ack id => exact (h.answers_rewrite (f := (·.ack now)) (fun _ => rfl) id).bind_pure _
  | nack id timeout =>
    exact (h.answers_rewrite (f := (·.nack now timeout)) (fun _ => rfl) id).bind_pure _
  | createTopic t => exact (answers_creation hundisturbed t.validate .topic _ _).bind_pure _
  | getTopic id =>
    have hget := Store.answers_get hundisturbed h.legible_topics .topic id
    exact (answers_access hget).bind_pure _
  | listTopics offset limit =>
    have hlist := Store.answers_listPage hundisturbed h.legible_topics (fun _ => true) offset limit
    exact (answers_access hlist).bind_pure _
  | deleteTopic id =>
    have hdelete := answers_deletion hundisturbed h.legible_topics .topic Topic.id
      (fun _ _ => Store.TopicRow.id_of_decode?) id
    exact hdelete.bind_pure _
  | publish topicId c => exact absurd rfl (hcall topicId c)
  | createSubscription x =>
    exact (answers_creation hundisturbed x.validate .subscription _ _).bind_pure _
  | getSubscription id =>
    have hget := Store.answers_get hundisturbed h.legible_subscriptions .subscription id
    exact (answers_access hget).bind_pure _
  | listSubscriptions offset limit =>
    have hlist :=
      Store.answers_listPage hundisturbed h.legible_subscriptions (fun _ => true) offset limit
    exact (answers_access hlist).bind_pure _
  | deleteSubscription id =>
    have hdelete := answers_deletion hundisturbed h.legible_subscriptions .subscription
      Subscription.id (fun _ _ => Store.SubscriptionRow.id_of_decode?) id
    exact hdelete.bind_pure _
  | health =>
    have hhealth : Answers Store.health b.store none :=
      (answers_of_ok (Store.connect_ok hundisturbed)).bind_pure _
    exact (answers_access hhealth).bind_pure _

/-- **Calls refuse what `refusal?` says**, and publications also what misses a queue. -/
theorem answers_perform (now : Instant) (call : Call) :
    ∃ more, Answers (perform now call) b ((call.refusal? b.store).or more) ∧
      ∀ e, more = some e → ∃ topicId c, call = .publish topicId c ∧ Misses b.store topicId c e := by
  by_cases hcall : ∃ topicId c, call = .publish topicId c
  · obtain ⟨topicId, c, rfl⟩ := hcall
    obtain ⟨more, hanswers, hmore⟩ := h.answers_publish topicId c now
    exact ⟨more, hanswers.bind_pure _, fun e he => ⟨topicId, c, rfl, hmore e he⟩⟩
  · push Not at hcall
    refine ⟨none, ?_, fun e he => by cases he⟩
    rw [Option.or_none]
    exact h.answers_perform_of_ne now hcall

end Lawful

/-- **Errors are exact.** Whatever calls and requests a broker that was empty has had within the
years 0 to 9999, a call answers the error that `refusal?` reads off the stored identifiers, if there
is one, and succeeds otherwise; except that a publication may also answer that the queue of a
subscription that accepts it does not exist. No call answers an error of another kind. -/
theorem errors_are_exact (source : Identifier.Source) (maxLease : UInt32) {run : List Interaction}
    (hyears : ∀ i ∈ run, i.now.HasFourDigitYear) (now : Instant) (call : Call) :
    let b := (start source .empty maxLease).afterAll run
    let answer := ((perform now call).on b).1
    (∀ e, call.refusal? b.store = some e → answer = .error e) ∧
    (call.refusal? b.store = none → (∃ result, answer = .ok result) ∨
      ∃ topicId c e, call = .publish topicId c ∧ Misses b.store topicId c e ∧ answer = .error e) ∧
    ∀ e, answer = .error e → e.ConcernsCall := by
  intro b answer
  have hlawful := (lawful_start source maxLease readable).afterAll_readable hyears
  obtain ⟨more, hanswers, hmore⟩ := hlawful.answers_perform now call
  refine ⟨fun e he => ?_, fun hnone => ?_, fun e he => ?_⟩
  · rw [he, Option.some_or] at hanswers
    exact hanswers
  · rw [hnone, Option.none_or] at hanswers
    cases more with
    | none => exact Or.inl hanswers
    | some e =>
      obtain ⟨topicId, c, hcall, hmisses⟩ := hmore e rfl
      exact Or.inr ⟨topicId, c, e, hcall, hmisses, hanswers⟩
  · rcases Option.or_eq_some_iff.mp (hanswers.eq_some he) with hrefusal | ⟨-, hmissed⟩
    · exact Call.concernsCall_of_refusal? hrefusal
    · obtain ⟨_, _, -, _, -, -, -, -, rfl⟩ := hmore e hmissed
      trivial

/-- A queue is made, and a request reads its backlog. -/
def madeRun : List Interaction :=
  [.call ⟨1⟩ (.createQueue ⟨"q", 30, 60, 0, .epoch, .epoch⟩),
    .request ⟨2⟩ ⟨"GET", "/v1/queues/q/stats", []⟩]

/-- The queue is not made again, and nothing is leased from another, not even no message. -/
theorem madeRun_refusals : (∀ i ∈ madeRun, i.now.HasFourDigitYear) ∧
    let b := (start .serials .empty 2).afterAll madeRun
    ((perform ⟨3⟩ (.createQueue ⟨"q", 30, 60, 0, .epoch, .epoch⟩)).on b).1 =
      .error (.alreadyExists .queue "q") ∧
    ((perform ⟨3⟩ (.lease "other" none 0)).on b).1 = .error (.notFound .queue "other") := by
  have hyears : ∀ i ∈ madeRun, i.now.HasFourDigitYear := by decide
  have hrows : ((start .serials .empty 2).afterAll madeRun).store.queues =
      [.ofQueue ⟨"q", 30, 60, 0, ⟨1⟩, ⟨1⟩⟩] := by cbv
  have hexact := errors_are_exact .serials 2 hyears ⟨3⟩
  -- what follows needs the rows of the broker, not how it came by them
  generalize (start .serials .empty 2).afterAll madeRun = b at hrows hexact ⊢
  have htaken : taken? Store.QueueRow b.store .queue "q" = some (.alreadyExists .queue "q") :=
    Store.taken?_eq_some_iff.mpr ⟨⟨_, hrows ▸ List.mem_singleton_self _, rfl⟩, rfl⟩
  have hother : ∀ r ∈ b.store.queues, r.id ≠ "other" := by
    rw [hrows]
    decide
  refine ⟨hyears, ?_, ?_⟩
  · refine (hexact _).1 _ ?_
    have hvalid : Queue.validate ⟨"q", 30, 60, 0, .epoch, .epoch⟩ = .ok () := by decide
    simp only [Call.refusal?, hvalid, invalid?, Option.none_or, htaken]
  · refine (hexact _).1 _ ?_
    exact Store.missing?_eq_some_iff.mpr ⟨hother, rfl⟩

end Broker

end MessageBroker

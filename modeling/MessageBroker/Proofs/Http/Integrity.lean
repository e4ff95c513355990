import MessageBroker.Proofs.Broker.Readable
import MessageBroker.Proofs.Http.Run
import MessageBroker.Proofs.Validation

/-! # The state of a broker stays in order

A run within the years 0 to 9999, whose clock ascends from each interaction to the next, leaves an
empty broker with a state in order: no two entities of a kind share an identifier, and what is
stored is valid and was created before it was changed, and this no later than now. That a message
outlives its creation follows from the validity of its queue; that it does so after an
acknowledgement, from the ascent of the clock. The law `chronicle` says so of single entities, and
`carries_chronicle` that all calls carry it. Until they are deleted, topics and subscriptions stay
as they are, and queues keep the instant of their creation (`Effect.keepsQueue`). Together:
`state_stays_in_order`. -/

namespace MessageBroker

open Broker (Call Effect)

/-! ### Entities in order -/

/-- A valid queue that was changed no earlier than created, and no later than the clock says. -/
structure Queue.IsOrderly (q : Queue) (clock : Instant) : Prop where
  valid : q.validate = .ok ()
  created : q.createdAt ≤ q.updatedAt
  updated : q.updatedAt ≤ clock

/-- A valid message of a queue with a valid identifier. It was changed no earlier than created, and
no later than the clock says. It becomes visible no earlier, and expires later, than it was
created. -/
structure Message.IsOrderly (m : Message) (clock : Instant) : Prop where
  valid : m.validate = .ok ()
  queueId : isValidId m.queueId = true
  created : m.createdAt ≤ m.updatedAt
  updated : m.updatedAt ≤ clock
  scheduled : m.createdAt ≤ m.scheduledAt
  expired : m.createdAt < m.expiredAt

namespace Queue

variable {q stored : Queue} {clock now : Instant}

theorem IsOrderly.mono (h : q.IsOrderly clock) (hle : clock ≤ now) : q.IsOrderly now :=
  ⟨h.valid, h.created, Int.le_trans h.updated hle⟩

theorem isOrderly_new (h : q.validate = .ok ()) (now : Instant) :
    IsOrderly { q with createdAt := now, updatedAt := now } now :=
  ⟨h, Int.le_refl _, Int.le_refl _⟩

theorem IsOrderly.changed (hstored : stored.IsOrderly clock) (h : q.validate = .ok ())
    (hle : clock ≤ now) :
    IsOrderly { q with createdAt := stored.createdAt, updatedAt := now } now := by
  have hcreated := hstored.created
  have hupdated := hstored.updated
  exact ⟨h, Int.le_trans hcreated (Int.le_trans hupdated hle), Int.le_refl _⟩

end Queue

namespace Message

variable {m : Message} {q : Queue} {clock now : Instant}

theorem IsOrderly.mono (h : m.IsOrderly clock) (hle : clock ≤ now) : m.IsOrderly now :=
  { h with updated := Int.le_trans h.updated hle }

theorem isOrderly_enqueue {c : MessageContent} (hbody : c.body ≠ "") (hq : q.validate = .ok ())
    (id : String) (now : Instant) : ((ofContent c).enqueue id q now).IsOrderly now := by
  obtain ⟨hid, -, hretention⟩ := Queue.validate_eq_ok_iff.mp hq
  refine ⟨validate_eq_ok_iff.mpr hbody, hid, Int.le_refl _, Int.le_refl _,
    Instant.le_addSeconds now _, ?_⟩
  have hpositive : 0 < q.messageRetentionSeconds.toNat := by
    refine Nat.pos_of_ne_zero fun hzero => hretention ?_
    exact UInt32.toNat_inj.mp hzero
  show now.nanos < now.nanos + q.messageRetentionSeconds.toNat * 1000000000
  omega

theorem IsOrderly.rescheduled (h : m.IsOrderly clock) (hle : clock ≤ now) (n : Nat) :
    m.createdAt ≤ now ∧ m.createdAt ≤ now.addSeconds n := by
  have hnow : m.createdAt ≤ now := Int.le_trans h.created (Int.le_trans h.updated hle)
  exact ⟨hnow, Int.le_trans hnow (Instant.le_addSeconds now n)⟩

theorem IsOrderly.leaseRenew (h : m.IsOrderly clock) (hle : clock ≤ now) (q : Queue) :
    (m.leaseRenew q now).IsOrderly now := by
  obtain ⟨hnow, hscheduled⟩ := h.rescheduled hle q.ackDeadlineSeconds.toNat
  exact ⟨h.valid, h.queueId, hnow, Int.le_refl _, hscheduled, h.expired⟩

theorem IsOrderly.nack (h : m.IsOrderly clock) (hle : clock ≤ now) (timeout : UInt32) :
    (m.nack now timeout).IsOrderly now := by
  obtain ⟨hnow, hscheduled⟩ := h.rescheduled hle timeout.toNat
  exact ⟨h.valid, h.queueId, hnow, Int.le_refl _, hscheduled, h.expired⟩

theorem IsOrderly.ack (h : m.IsOrderly clock) (hlt : clock < now) : (m.ack now).IsOrderly now := by
  have hnow : m.createdAt < now := Int.lt_of_le_of_lt (Int.le_trans h.created h.updated) hlt
  exact ⟨h.valid, h.queueId, Int.le_of_lt hnow, Int.le_refl _, h.scheduled, hnow⟩

end Message

/-! ### The law of a clock -/

/-- Entities are in order and readable. -/
def chronicle (clock : Instant) : Law where
  queue q := q.IsOrderly clock ∧ readable.queue q
  message m := m.IsOrderly clock ∧ readable.message m
  topic t := t.validate = .ok () ∧ readable.topic t
  subscription x := x.validate = .ok () ∧ readable.subscription x
  readQueue h := readable.readQueue h.2
  readMessage h := readable.readMessage h.2
  readTopic h := readable.readTopic h.2
  readSubscription h := readable.readSubscription h.2

theorem chronicle_implies {clock now : Instant} (hle : clock ≤ now) :
    (chronicle clock).Implies (chronicle now) where
  queue h := ⟨h.1.mono hle, h.2⟩
  message h := ⟨h.1.mono hle, h.2⟩
  topic h := h
  subscription h := h

/-- **Later calls keep entities in order.** -/
theorem carries_chronicle {clock now : Instant} (hlt : clock < now) (hnow : now.HasFourDigitYear) :
    (chronicle clock).Carries (chronicle now) now := by
  have hle : clock ≤ now := Int.le_of_lt hlt
  have hreadable := carries_readable hnow
  exact {
    toImplies := chronicle_implies hle
    createQueue := fun h => ⟨Queue.isOrderly_new h now, hreadable.createQueue h⟩
    updateQueue := fun h hstored =>
      ⟨hstored.1.changed h hle, hreadable.updateQueue h hstored.2⟩
    createTopic := fun h => ⟨h, hreadable.createTopic h⟩
    createSubscription := fun h => ⟨h, hreadable.createSubscription h⟩
    enqueue := fun hbody _ hq id =>
      ⟨Message.isOrderly_enqueue hbody hq.1.valid id now, hreadable.enqueue hbody hq.2 id⟩
    leaseRenew := fun h _ hq => ⟨h.1.leaseRenew hle _, hreadable.leaseRenew h.2 hq.2⟩
    ack := fun h => ⟨h.1.ack hlt, hreadable.ack h.2⟩
    nack := fun h timeout => ⟨h.1.nack hle timeout, hreadable.nack h.2 timeout⟩ }

/-! ### What stays until it is deleted -/

namespace Broker

section Effects

variable {b b' : Broker} {now : Instant} {call : Call} {result : Store.Result}

theorem Consistent.eq_of_queueId (h : b.Consistent) {q q' : Queue} (hq : b.store.HasQueue q)
    (hq' : b.store.HasQueue q') (hid : q'.id = q.id) : q' = q := by
  obtain ⟨r, hr, hdecode⟩ := hq
  obtain ⟨r', hr', hdecode'⟩ := hq'
  have hrid : r'.id = r.id := by
    rw [← Store.QueueRow.id_of_decode? hdecode', ← Store.QueueRow.id_of_decode? hdecode, hid]
  have hrow : r' = r := List.inj_on_of_nodup_map h.queueIds hr' hr hrid
  rw [hrow, hdecode] at hdecode'
  exact (Option.some.inj hdecode').symm

/-- **A queue keeps the instant of its creation** under every call but its deletion. -/
theorem Effect.keepsQueue (h : Effect now b call result b') (hb : b.Consistent) {law law' : Law}
    (hcarries : law.Carries law' now) (hlaw : b.store.Obeys law) {q : Queue}
    (hq : b.store.HasQueue q) (hcall : call ≠ .deleteQueue q.id) :
    ∃ q', b'.store.HasQueue q' ∧ q'.id = q.id ∧ q'.createdAt = q.createdAt := by
  obtain ⟨r, hr, hdecode⟩ := hq
  cases h with
  | createQueue hvalid hfresh =>
    exact ⟨q, ⟨r, List.mem_append_left _ hr, hdecode⟩, rfl, rfl⟩
  | @updateQueue x stored hvalid hstored hid =>
    by_cases hrid : r.id = x.id
    · have hqid : stored.id = q.id := by
        rw [hid, ← hrid, Store.QueueRow.id_of_decode? hdecode]
      obtain rfl := hb.eq_of_queueId ⟨r, hr, hdecode⟩ hstored hqid
      have hread := law'.readQueue (hcarries.updateQueue hvalid (hlaw.of_queue hstored))
      refine ⟨_, ⟨_, List.mem_map.mpr ⟨r, hr, if_pos hrid⟩, hread⟩, hid.symm, rfl⟩
    · exact ⟨q, ⟨r, List.mem_map.mpr ⟨r, hr, if_neg hrid⟩, hdecode⟩, rfl, rfl⟩
  | deleteQueue id =>
    have hne : r.id ≠ id := by
      rintro rfl
      exact hcall (congrArg Call.deleteQueue (Store.QueueRow.id_of_decode? hdecode).symm)
    refine ⟨q, ⟨r, List.mem_filter.mpr ⟨hr, ?_⟩, hdecode⟩, rfl, rfl⟩
    simpa using hne
  | _ => exact ⟨q, ⟨r, hr, hdecode⟩, rfl, rfl⟩

/-- **A topic stays as it is** under every call but its deletion. -/
theorem Effect.keepsTopic (h : Effect now b call result b') {t : Topic} (ht : b.store.HasTopic t)
    (hcall : call ≠ .deleteTopic t.id) : b'.store.HasTopic t := by
  obtain ⟨r, hr, hdecode⟩ := ht
  cases h with
  | createTopic hvalid hfresh => exact ⟨r, List.mem_append_left _ hr, hdecode⟩
  | deleteTopic id =>
    have hne : r.id ≠ id := by
      rintro rfl
      exact hcall (congrArg Call.deleteTopic (Store.TopicRow.id_of_decode? hdecode).symm)
    refine ⟨r, List.mem_filter.mpr ⟨hr, ?_⟩, hdecode⟩
    simpa using hne
  | _ => exact ⟨r, hr, hdecode⟩

/-- **A subscription stays as it is** under every call but its deletion. -/
theorem Effect.keepsSubscription (h : Effect now b call result b') {x : Subscription}
    (hx : b.store.HasSubscription x) (hcall : call ≠ .deleteSubscription x.id) :
    b'.store.HasSubscription x := by
  obtain ⟨r, hr, hdecode⟩ := hx
  cases h with
  | createSubscription hvalid hfresh => exact ⟨r, List.mem_append_left _ hr, hdecode⟩
  | deleteSubscription id =>
    have hne : r.id ≠ id := by
      rintro rfl
      exact hcall (congrArg Call.deleteSubscription
        (Store.SubscriptionRow.id_of_decode? hdecode).symm)
    refine ⟨r, List.mem_filter.mpr ⟨hr, ?_⟩, hdecode⟩
    simpa using hne
  | _ => exact ⟨r, hr, hdecode⟩

end Effects

/-! ### Runs -/

/-- Interactions take place one after the other, within the years 0 to 9999. -/
structure Ascends (run : List Interaction) : Prop where
  years : ∀ i ∈ run, i.now.HasFourDigitYear
  clock : run.Pairwise fun i j => i.now < j.now

theorem Ascends.rest {i : Interaction} {run : List Interaction} (h : Ascends (i :: run)) :
    Ascends run :=
  ⟨fun j hj => h.years j (List.mem_cons_of_mem i hj), (List.pairwise_cons.mp h.clock).2⟩

theorem Ascends.exists_before {run : List Interaction} (h : Ascends run) :
    ∃ clock : Instant, ∀ i ∈ run, clock < i.now := by
  cases run with
  | nil => exact ⟨.epoch, fun _ hi => absurd hi List.not_mem_nil⟩
  | cons i run =>
    have hbefore : (⟨i.now.nanos - 1⟩ : Instant) < i.now := by
      show i.now.nanos - 1 < i.now.nanos
      omega
    refine ⟨⟨i.now.nanos - 1⟩, List.forall_mem_cons.mpr ⟨hbefore, fun j hj => ?_⟩⟩
    exact Int.lt_trans hbefore ((List.pairwise_cons.mp h.clock).1 j hj)

namespace Lawful

variable {b : Broker}

/-- **A run keeps entities in order.** -/
theorem afterAll_chronicle {clock : Instant} (h : b.Lawful (chronicle clock))
    {run : List Interaction} (hrun : Ascends run) (hlater : ∀ i ∈ run, clock < i.now)
    {last : Instant} (hclock : clock ≤ last) (hlast : ∀ i ∈ run, i.now ≤ last) :
    (b.afterAll run).Lawful (chronicle last) := by
  induction run generalizing b clock with
  | nil => exact ⟨h.toConsistent, h.obeys.mono (chronicle_implies hclock)⟩
  | cons i run ih =>
    obtain ⟨hlt, -⟩ := List.forall_mem_cons.mp hlater
    obtain ⟨hi, hlast⟩ := List.forall_mem_cons.mp hlast
    have hstep := h.after (carries_chronicle hlt (hrun.years i List.mem_cons_self))
    exact ih hstep hrun.rest (List.pairwise_cons.mp hrun.clock).1 hi hlast

theorem keepsQueue (h : b.Lawful readable) {run : List Interaction}
    (hyears : ∀ i ∈ run, i.now.HasFourDigitYear) {q : Queue} (hq : b.store.HasQueue q)
    (hcalls : ∀ i ∈ run, i.call? b.maxLease ≠ some (.deleteQueue q.id)) :
    ∃ q', (b.afterAll run).store.HasQueue q' ∧ q'.id = q.id ∧ q'.createdAt = q.createdAt := by
  induction run generalizing b q with
  | nil => exact ⟨q, hq, rfl, rfl⟩
  | cons i run ih =>
    obtain ⟨hcall, hcalls⟩ := List.forall_mem_cons.mp hcalls
    obtain ⟨hi, hyears⟩ := List.forall_mem_cons.mp hyears
    have hstep : ∃ q', (i.after b).store.HasQueue q' ∧ q'.id = q.id ∧
        q'.createdAt = q.createdAt := by
      rcases i.after_cases h.toKeyed with
        ⟨c, result, b', requests, hc, -, heffect, hafter⟩ | ⟨n, requests, -, hafter⟩
      · rw [hafter]
        refine heffect.keepsQueue h.toConsistent (carries_readable hi) h.obeys hq ?_
        exact fun he => hcall (he ▸ hc)
      · rw [hafter]
        exact ⟨q, hq, rfl, rfl⟩
    obtain ⟨q₁, hq₁, hid, hcreated⟩ := hstep
    have hrest : ∀ j ∈ run, j.call? (i.after b).maxLease ≠ some (.deleteQueue q₁.id) := by
      rw [h.maxLease_after, hid]
      exact hcalls
    obtain ⟨q', hq', hid', hcreated'⟩ := ih (h.after (carries_readable hi)) hyears hq₁ hrest
    exact ⟨q', hq', hid'.trans hid, hcreated'.trans hcreated⟩

end Lawful

/-- What every call keeps but a certain one, runs keep in which this one is not made. -/
theorem Consistent.keeps {b : Broker} (h : b.Consistent) {P : Store → Prop} {deletion : Call}
    (hkeeps : ∀ {b b' : Broker} {now : Instant} {call : Call} {result : Store.Result},
      Effect now b call result b' → P b.store → call ≠ deletion → P b'.store)
    {run : List Interaction} (hP : P b.store)
    (hcalls : ∀ i ∈ run, i.call? b.maxLease ≠ some deletion) : P (b.afterAll run).store := by
  induction run generalizing b with
  | nil => exact hP
  | cons i run ih =>
    obtain ⟨hcall, hcalls⟩ := List.forall_mem_cons.mp hcalls
    have hrest : ∀ j ∈ run, j.call? (i.after b).maxLease ≠ some deletion := by
      rw [h.maxLease_after]
      exact hcalls
    refine ih (h.after i) ?_ hrest
    rcases i.after_cases h.toKeyed with
      ⟨c, result, b', requests, hc, -, heffect, hafter⟩ | ⟨n, requests, -, hafter⟩
    · have hkept : P b'.store := hkeeps heffect hP fun he => hcall (he ▸ hc)
      rw [hafter]
      exact hkept
    · rw [hafter]
      exact hP

end Broker

/-! ### All of it -/

/-- The state of a broker at a clock is in order: identifiers are unique, and all that is stored is
readable, valid, and has instants in order. -/
structure Store.IsOrderly (s : Store) (clock : Instant) : Prop where
  queueIds : (s.queues.map QueueRow.id).Nodup
  messageIds : (s.messages.map MessageRow.id).Nodup
  topicIds : (s.topics.map TopicRow.id).Nodup
  subscriptionIds : (s.subscriptions.map SubscriptionRow.id).Nodup
  queues : ∀ r ∈ s.queues, ∃ q, r.decode? = some q ∧ q.IsOrderly clock
  messages : ∀ r ∈ s.messages, ∃ m, r.decode? = some m ∧ m.IsOrderly clock
  topics : ∀ r ∈ s.topics, ∃ t, r.decode? = some t ∧ t.validate = .ok ()
  subscriptions : ∀ r ∈ s.subscriptions, ∃ x, r.decode? = some x ∧ x.validate = .ok ()

theorem Broker.Lawful.isOrderly {b : Broker} {clock : Instant} (h : b.Lawful (chronicle clock)) :
    b.store.IsOrderly clock where
  queueIds := h.queueIds
  messageIds := h.ids
  topicIds := h.topicIds
  subscriptionIds := h.subscriptionIds
  queues := by
    intro r hr
    obtain ⟨q, hq, rfl⟩ := h.obeys.queues r hr
    exact ⟨q, (chronicle clock).readQueue hq, hq.1⟩
  messages := by
    intro r hr
    obtain ⟨m, hm, rfl⟩ := h.obeys.messages r hr
    exact ⟨m, (chronicle clock).readMessage hm, hm.1⟩
  topics := by
    intro r hr
    obtain ⟨t, ht, rfl⟩ := h.obeys.topics r hr
    exact ⟨t, (chronicle clock).readTopic ht, ht.1⟩
  subscriptions := by
    intro r hr
    obtain ⟨x, hx, rfl⟩ := h.obeys.subscriptions r hr
    exact ⟨x, (chronicle clock).readSubscription hx, hx.1⟩

/-- **The state of a broker stays in order.** After any run of calls and requests, one after the
other within the years 0 to 9999, the store of a broker that was empty is in order at any clock
that is not behind the run. A queue keeps the instant of its creation until it is deleted, whatever
updates supply; a topic or subscription stays as it is until it is deleted. -/
theorem state_stays_in_order (source : Identifier.Source) (maxLease : UInt32)
    {run : List Interaction} (hrun : Broker.Ascends run) :
    (∀ clock, (∀ i ∈ run, i.now ≤ clock) →
      ((Broker.start source .empty maxLease).afterAll run).store.IsOrderly clock) ∧
    ∀ earlier later, run = earlier ++ later →
      let s := ((Broker.start source .empty maxLease).afterAll earlier).store
      let s' := ((Broker.start source .empty maxLease).afterAll run).store
      (∀ q, s.HasQueue q → (∀ i ∈ later, i.call? maxLease ≠ some (.deleteQueue q.id)) →
        ∃ q', s'.HasQueue q' ∧ q'.id = q.id ∧ q'.createdAt = q.createdAt) ∧
      (∀ t, s.HasTopic t → (∀ i ∈ later, i.call? maxLease ≠ some (.deleteTopic t.id)) →
        s'.HasTopic t) ∧
      ∀ x, s.HasSubscription x →
        (∀ i ∈ later, i.call? maxLease ≠ some (.deleteSubscription x.id)) →
          s'.HasSubscription x := by
  constructor
  · intro clock hclock
    obtain ⟨first, hfirst⟩ := hrun.exists_before
    cases run with
    | nil => exact (Broker.lawful_start source maxLease (chronicle clock)).isOrderly
    | cons i run =>
      have hlt : first < i.now := hfirst i List.mem_cons_self
      have hlast : i.now ≤ clock := hclock i List.mem_cons_self
      have hle : first ≤ clock := Int.le_of_lt (Int.lt_of_lt_of_le hlt hlast)
      have hstart := Broker.lawful_start source maxLease (chronicle first)
      exact (hstart.afterAll_chronicle hrun hfirst hle hclock).isOrderly
  · rintro earlier later rfl
    have hyears := List.forall_mem_append.mp hrun.years
    have hlawful := (Broker.lawful_start source maxLease readable).afterAll_readable hyears.1
    have hmost := (Broker.consistent_start source maxLease).maxLease_afterAll earlier
    rw [Broker.afterAll_append]
    refine ⟨fun q hq hcalls => ?_, fun t ht hcalls => ?_, fun x hx hcalls => ?_⟩
    · exact hlawful.keepsQueue hyears.2 hq (hmost ▸ hcalls)
    · refine hlawful.keeps (P := (·.HasTopic t)) (fun h => h.keepsTopic) ht (hmost ▸ hcalls)
    · exact hlawful.keeps (P := (·.HasSubscription x)) (fun h => h.keepsSubscription) hx
        (hmost ▸ hcalls)

/-- A queue is created, changed by an update that supplies another creation, and read. -/
def editedRun : List Interaction :=
  [.call ⟨1⟩ (.createQueue ⟨"q", 30, 60, 0, .epoch, .epoch⟩),
    .call ⟨2⟩ (.updateQueue ⟨"q", 15, 60, 5, ⟨9⟩, ⟨9⟩⟩),
    .request ⟨3⟩ ⟨"GET", "/v1/queues/q", []⟩]

/-- The queue was created when it was, whatever the update says. -/
theorem editedRun_createdAt : Broker.Ascends editedRun ∧
    ∃ q, ((Broker.start .serials .empty 2).afterAll editedRun).store.HasQueue q ∧ q.id = "q" ∧
      q.createdAt = ⟨1⟩ := by
  have hrun : Broker.Ascends editedRun := ⟨by decide, by decide⟩
  have hrows : ((Broker.start .serials .empty 2).afterAll (editedRun.take 1)).store.queues =
      [.ofQueue ⟨"q", 30, 60, 0, ⟨1⟩, ⟨1⟩⟩] := by cbv
  have hcreated : ((Broker.start .serials .empty 2).afterAll (editedRun.take 1)).store.HasQueue
      ⟨"q", 30, 60, 0, ⟨1⟩, ⟨1⟩⟩ :=
    ⟨_, hrows ▸ List.mem_singleton_self _, Store.QueueRow.readBack _ (by decide)⟩
  have hread : (⟨"GET", "/v1/queues/q", []⟩ : Http.Request).call? 2 = some (.getQueue "q") := by cbv
  have hcalls : ∀ i ∈ editedRun.drop 1, i.call? 2 ≠ some (.deleteQueue "q") := by
    intro i hi
    rcases List.mem_pair.mp hi with rfl | rfl
    · simp [Interaction.call?]
    · simp [Interaction.call?, hread]
  have hkept := (state_stays_in_order .serials 2 hrun).2 (editedRun.take 1) (editedRun.drop 1) rfl
  exact ⟨hrun, hkept.1 _ hcreated hcalls⟩

end MessageBroker

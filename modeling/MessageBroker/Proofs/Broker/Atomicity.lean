import MessageBroker.Http.Gateway
import MessageBroker.Proofs.Store.Atomicity

/-! # A failed call leaves the rows as they were

A call of the broker validates and reads before it changes anything, and its one change is an
operation of the store. So a call that fails leaves the broker as it was, except for identifiers
that it issued on the way (`failsClean_perform`), and a request that is answered with an error
status leaves all rows as they were (`store_serve`). `failure_changes_nothing` says so at once of
the rows under operations, calls and requests. -/

namespace MessageBroker

open Fallible

namespace Broker

/-- The broker after it has issued some identifiers. -/
def issue (b : Broker) (n : Nat) : Broker := { b with issued := b.issued + n }

theorem source_issue (b : Broker) (n : Nat) : (b.issue n).source = b.source := rfl

theorem issue_issue (b : Broker) (m n : Nat) : (b.issue m).issue n = b.issue (m + n) := by
  simp only [issue, Nat.add_assoc]

variable {α β : Type} {a : Action α} {f : α → Action β}

/-! ### Actions that only issue identifiers -/

/-- The action leaves the broker as it was, except for identifiers that it issues. -/
def OnlyIssues (a : Action α) : Prop := ∀ b, ∃ n, (a b).2 = b.issue n

/-- The action does so whenever it fails. -/
def FailsClean (a : Action α) : Prop := ∀ b e, (a b).1 = .error e → ∃ n, (a b).2 = b.issue n

theorem onlyIssues_of_preserves (h : Preserves id a) : OnlyIssues a := fun b => ⟨0, h b⟩

theorem OnlyIssues.failsClean (h : OnlyIssues a) : FailsClean a := fun b _ _ => h b

theorem OnlyIssues.preserves (h : OnlyIssues a) : Preserves Broker.store a := fun b => by
  obtain ⟨n, hn⟩ := h b
  rw [hn, issue]

theorem FailsClean.atomic (h : FailsClean a) : Atomic Broker.store a := fun b e he => by
  obtain ⟨n, hn⟩ := h b e he
  rw [hn, issue]

theorem onlyIssues_pure (v : α) : OnlyIssues (pure v : Action α) := fun _ => ⟨0, rfl⟩

theorem OnlyIssues.bind (ha : OnlyIssues a) (hf : ∀ v, OnlyIssues (f v)) :
    OnlyIssues (a >>= f) := by
  intro b
  obtain ⟨m, hm⟩ := ha b
  rw [bind_apply]
  rcases h : a b with ⟨e | v, b'⟩ <;> rw [h] at hm
  · exact ⟨m, hm⟩
  · obtain ⟨n, hn⟩ := hf v b'
    obtain rfl : b' = b.issue m := hm
    exact ⟨m + n, hn.trans (issue_issue b m n)⟩

/-- What only issues identifiers may precede what fails clean. -/
theorem OnlyIssues.bind_failsClean (ha : OnlyIssues a) (hf : ∀ v, FailsClean (f v)) :
    FailsClean (a >>= f) := by
  intro b e he
  obtain ⟨m, hm⟩ := ha b
  rw [bind_apply] at he ⊢
  rcases h : a b with ⟨e' | v, b'⟩ <;> rw [h] at hm he
  · exact ⟨m, hm⟩
  · obtain ⟨n, hn⟩ := hf v b' e he
    obtain rfl : b' = b.issue m := hm
    exact ⟨m + n, hn.trans (issue_issue b m n)⟩

theorem FailsClean.bind (ha : FailsClean a) (hf : ∀ v b e, (f v b).1 ≠ .error e) :
    FailsClean (a >>= f) := by
  intro b e he
  have hb := ha b
  rw [bind_apply] at he ⊢
  rcases h : a b with ⟨e' | v, b'⟩ <;> rw [h] at hb he
  · exact hb e' rfl
  · exact absurd he (hf v b' e)

theorem FailsClean.bind_pure (ha : FailsClean a) (g : α → β) :
    FailsClean (a >>= fun v => pure (g v)) := ha.bind fun v b e he => by
  rw [pure_apply] at he
  simp at he

/-! ### Parts of calls -/

theorem preserves_access {a : Store.Access α} (h : Store.Reads a) : Preserves id (access a) := by
  intro b
  have hstore : (a b.store).2 = b.store := h b.store
  change { b with store := (a b.store).2 } = b
  rw [hstore]

theorem onlyIssues_access {a : Store.Access α} (h : Store.Reads a) : OnlyIssues (access a) :=
  onlyIssues_of_preserves (preserves_access h)

theorem failsClean_access {a : Store.Access α} (h : Store.FailsClean a) :
    FailsClean (access a) := by
  intro b e he
  have hstore : (a b.store).2 = b.store := h b.store e he
  refine ⟨0, ?_⟩
  change { b with store := (a b.store).2 } = b
  rw [hstore]

theorem onlyIssues_check (result : Except Error Unit) : OnlyIssues (check result) :=
  fun _ => ⟨0, rfl⟩

theorem onlyIssues_newId : OnlyIssues newId := fun _ => ⟨1, rfl⟩

theorem onlyIssues_enqueued (m : Message) (q : Queue) (now : Instant) :
    OnlyIssues (enqueued m q now) :=
  onlyIssues_newId.bind fun id => onlyIssues_pure (m.enqueue id q now)

theorem FailsClean.count (h : FailsClean a) (change : α → Metrics → Metrics) (g : α → β) :
    FailsClean (a >>= fun v => Broker.count (change v) >>= fun _ => pure (g v)) :=
  h.bind fun v b e he => by
    have hcount : Broker.count (change v) b =
      (.ok (), { b with metrics := change v b.metrics }) := rfl
    rw [bind_ok hcount] at he
    cases he

/-! ### Publishing -/

theorem onlyIssues_copiesFor (m : Message) (now : Instant) (l : List Subscription) :
    OnlyIssues (copiesFor m now l) := by
  induction l with
  | nil => exact onlyIssues_pure []
  | cons s rest ih =>
    unfold copiesFor
    split
    · refine (onlyIssues_access (Store.reads_get _ _ _)).bind fun q => ?_
      refine (onlyIssues_enqueued m q now).bind fun copy => ?_
      exact ih.bind fun copies => onlyIssues_pure (copy :: copies)
    · exact ih

theorem onlyIssues_copiesFrom (topicId : String) (m : Message) (now : Instant) (pages : Nat)
    (offset : UInt32) : OnlyIssues (copiesFrom topicId m now pages offset) := by
  induction pages generalizing offset with
  | zero => exact onlyIssues_pure []
  | succ pages ih =>
    unfold copiesFrom
    refine (onlyIssues_access (Store.reads_listPage _ _ _ _)).bind fun page => ?_
    split
    · exact onlyIssues_pure []
    · refine (onlyIssues_copiesFor m now page).bind fun copies => ?_
      exact (ih _).bind fun more => onlyIssues_pure (copies ++ more)

theorem onlyIssues_copies (topicId : String) (m : Message) (now : Instant) :
    OnlyIssues (copies topicId m now) :=
  fun b => onlyIssues_copiesFrom topicId m now (b.store.subscriptions.length + 1) 0 b

/-- Whatever copy cannot be stored, the copies before it are not stored either. -/
theorem failsClean_publish (topicId : String) (c : MessageContent) (now : Instant) :
    FailsClean (publish topicId c now) := by
  refine (onlyIssues_check _).bind_failsClean fun _ => ?_
  refine (onlyIssues_access (Store.reads_get _ _ _)).bind_failsClean fun topic => ?_
  refine (onlyIssues_copies _ _ _).bind_failsClean fun ms => ?_
  exact (failsClean_access (Store.failsClean_createMessages ms)).count _ fun _ => ms

/-! ### Calls -/

theorem failsClean_checked (result : Except Error Unit) {a : Store.Access Unit}
    (h : Store.FailsClean a) (v : α) : FailsClean (do check result; access a; return v) :=
  (onlyIssues_check result).bind_failsClean fun _ => (failsClean_access h).bind_pure fun _ => v

theorem failsClean_updateQueue (q : Queue) (now : Instant) : FailsClean (updateQueue q now) := by
  refine (onlyIssues_check _).bind_failsClean fun _ => ?_
  refine (onlyIssues_access (Store.reads_get _ _ _)).bind_failsClean fun stored => ?_
  exact (failsClean_access (Store.failsClean_updateQueue _)).bind_pure _

theorem failsClean_onQueue (id : String) {f : String → Store.Access α}
    (h : ∀ id, Store.FailsClean (f id)) : FailsClean (onQueue id f) :=
  (onlyIssues_access (Store.reads_get _ _ _)).bind_failsClean fun q => failsClean_access (h q.id)

theorem failsClean_createMessage (queueId : String) (c : MessageContent) (now : Instant) :
    FailsClean (createMessage queueId c now) := by
  refine (onlyIssues_check _).bind_failsClean fun _ => ?_
  refine (onlyIssues_access (Store.reads_get _ _ _)).bind_failsClean fun q => ?_
  refine (onlyIssues_enqueued _ q now).bind_failsClean fun m => ?_
  exact (failsClean_access (Store.failsClean_createMessage m)).count _ fun _ => m

theorem failsClean_lease (queueId : String) (label : Option String) (limit : UInt32)
    (now : Instant) : FailsClean (lease queueId label limit now) := by
  refine (onlyIssues_access (Store.reads_get _ _ _)).bind_failsClean fun q => ?_
  exact (failsClean_access (Store.failsClean_lease q label limit now)).count _ fun ms => ms

theorem failsClean_deleteTopic (id : String) : FailsClean (deleteTopic id) :=
  (onlyIssues_access (Store.reads_get _ _ _)).bind_failsClean fun _ =>
    failsClean_access (Store.failsClean_delete _ _)

theorem failsClean_deleteSubscription (id : String) : FailsClean (deleteSubscription id) :=
  (onlyIssues_access (Store.reads_get _ _ _)).bind_failsClean fun _ =>
    failsClean_access (Store.failsClean_delete _ _)

/-- Whether a call only reads. -/
def Call.onlyReads : Call → Bool
  | .getQueue _ | .listQueues .. | .queueStats _ | .getMessage _ | .getTopic _ | .listTopics ..
  | .getSubscription _ | .listSubscriptions .. | .health => true
  | _ => false

theorem preserves_perform (now : Instant) {call : Call} (h : call.onlyReads = true) :
    Preserves id (perform now call) := by
  cases call with
  | getQueue id => exact (preserves_access (Store.reads_get _ _ _)).bind_pure _
  | listQueues offset limit => exact (preserves_access (Store.reads_listPage _ _ _ _)).bind_pure _
  | queueStats queueId =>
    have hstats : Preserves id (onQueue queueId (Store.queueStats · now)) :=
      (preserves_access (Store.reads_get _ _ _)).bind fun q =>
        preserves_access (Store.reads_queueStats q.id now)
    exact hstats.bind_pure _
  | getMessage id => exact (preserves_access (Store.reads_get _ _ _)).bind_pure _
  | getTopic id => exact (preserves_access (Store.reads_get _ _ _)).bind_pure _
  | listTopics offset limit => exact (preserves_access (Store.reads_listPage _ _ _ _)).bind_pure _
  | getSubscription id => exact (preserves_access (Store.reads_get _ _ _)).bind_pure _
  | listSubscriptions offset limit =>
    exact (preserves_access (Store.reads_listPage _ _ _ _)).bind_pure _
  | health => exact (preserves_access Store.reads_health).bind_pure _
  | _ => cases h

/-- **A call that fails changes nothing**, except for identifiers that it issues. -/
theorem failsClean_perform (now : Instant) (call : Call) : FailsClean (perform now call) := by
  by_cases hreads : call.onlyReads = true
  · exact (onlyIssues_of_preserves (preserves_perform now hreads)).failsClean
  cases call with
  | createQueue q => exact (failsClean_checked _ (Store.failsClean_insert _ _) _).bind_pure _
  | updateQueue q => exact (failsClean_updateQueue q now).bind_pure _
  | deleteQueue id =>
    exact (failsClean_onQueue id fun id => Store.failsClean_delete _ id).bind_pure _
  | purge id => exact (failsClean_onQueue id fun id => Store.failsClean_statement _ _).bind_pure _
  | cleanup id =>
    exact (failsClean_onQueue id fun id => Store.failsClean_statement _ _).bind_pure _
  | createMessage queueId c => exact (failsClean_createMessage queueId c now).bind_pure _
  | lease queueId label limit => exact (failsClean_lease queueId label limit now).bind_pure _
  | ack id => exact (failsClean_access (Store.failsClean_ack id now)).bind_pure _
  | nack id timeout => exact (failsClean_access (Store.failsClean_nack id timeout now)).bind_pure _
  | createTopic t => exact (failsClean_checked _ (Store.failsClean_insert _ _) _).bind_pure _
  | deleteTopic id => exact (failsClean_deleteTopic id).bind_pure _
  | publish topicId c => exact (failsClean_publish topicId c now).bind_pure _
  | createSubscription s =>
    exact (failsClean_checked _ (Store.failsClean_insert _ _) _).bind_pure _
  | deleteSubscription id => exact (failsClean_deleteSubscription id).bind_pure _
  | _ => exact absurd rfl hreads

/-- **A call that fails leaves the rows as they were.** -/
theorem atomic_perform (now : Instant) (call : Call) : Atomic Broker.store (perform now call) :=
  (failsClean_perform now call).atomic

end Broker

/-! ### Requests -/

namespace Http

/-- Only a health check that succeeds is answered with an error status. -/
theorem eq_health_of_statusOf {call : Broker.Call} {result : Store.Result}
    (h : 400 ≤ Response.statusOf call result) : call = .health := by
  cases call <;> first | rfl | simp [Response.statusOf] at h

theorem store_respond (r : Request) (now : Instant) (b : Broker)
    (h : 400 ≤ (respond r now b).1.status) : (respond r now b).2.store = b.store := by
  unfold respond at h ⊢
  split
  · rfl
  · next endpoint parameters hendpoint =>
    split
    · rfl
    · next call hcall =>
      rw [hendpoint] at h
      simp only [hcall] at h
      have happly : (answer call now).on b = (Broker.perform now call >>= fun result =>
          pure (Response.ofResult call result)) b := rfl
      rw [happly, bind_apply] at h ⊢
      have hatomic := Broker.atomic_perform now call b
      rcases hperform : Broker.perform now call b with ⟨e | result, b'⟩ <;>
        rw [hperform] at h hatomic
      · exact hatomic e rfl
      · have hhealth : call = .health := eq_health_of_statusOf h
        have hreads : call.onlyReads = true := by rw [hhealth]; rfl
        have hbroker : b' = b := by
          have hsame := Broker.preserves_perform now hreads b
          rw [hperform] at hsame
          exact hsame
        exact congrArg Broker.store hbroker

/-- **A request answered with an error status leaves the rows as they were.** -/
theorem store_serve (r : Request) (now : Instant) (b : Broker)
    (h : 400 ≤ (serve r now b).1.status) : (serve r now b).2.store = b.store :=
  store_respond r now b h

theorem store_receive (a : Arrival) (now : Instant) (b : Broker)
    (h : 400 ≤ (receive a now b).1.response.status) : (receive a now b).2.store = b.store := by
  unfold receive at h ⊢
  split
  · rfl
  · next hinquiry =>
    rw [if_neg hinquiry] at h
    exact store_serve _ now b h

end Http

/-! ### All that can fail -/

/-- **What fails changes nothing**: an operation of any store, a call of any broker, a request, or
a request from outside. -/
theorem failure_changes_nothing :
    (∀ (op : Store.Operation) (s : Store) (e : Error),
      ((Store.perform op).on s).1 = .error e → ((Store.perform op).on s).2 = s) ∧
    (∀ (call : Broker.Call) (now : Instant) (b : Broker) (e : Error),
      ((Broker.perform now call).on b).1 = .error e →
        ((Broker.perform now call).on b).2.store = b.store) ∧
    (∀ (r : Http.Request) (now : Instant) (b : Broker),
      400 ≤ (Http.serve r now b).1.status → (Http.serve r now b).2.store = b.store) ∧
    (∀ (a : Http.Arrival) (now : Instant) (b : Broker),
      400 ≤ (Http.receive a now b).1.response.status →
        (Http.receive a now b).2.store = b.store) := by
  refine ⟨fun op => ?_, fun call now => ?_, Http.store_serve, Http.store_receive⟩
  · exact Store.failsClean_perform op
  · exact Broker.atomic_perform now call

/-- A queue whose messages are hidden for 30 seconds by a lease, and kept for 60. -/
def refusedQueue : Queue := ⟨"q", 30, 60, 0, .epoch, .epoch⟩

/-- Two messages, of which the second refuses to be updated. -/
def refusingStore : Store :=
  let m (id : String) := (Message.ofContent ⟨none, "body", ∅⟩).enqueue id refusedQueue .epoch
  { Store.empty with
    messages := [.ofMessage (m "a"), .ofMessage (m "b")]
    rules := ⟨[⟨.messages, .update, "id", "b", some "refused"⟩], []⟩ }

/-- A lease of which the second claim is refused does not renew the first message either. -/
theorem refused_lease_changes_nothing :
    ((Store.perform (.lease refusedQueue none 2 .epoch)).on refusingStore).1 = .error .unknown ∧
      ((Store.perform (.lease refusedQueue none 2 .epoch)).on refusingStore).2 = refusingStore := by
  have herror : ((Store.perform (.lease refusedQueue none 2 .epoch)).on refusingStore).1 =
      .error .unknown := by cbv
  exact ⟨herror, failure_changes_nothing.1 _ _ _ herror⟩

end MessageBroker

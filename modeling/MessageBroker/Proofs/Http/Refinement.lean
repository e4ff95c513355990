import MessageBroker.Http.Server
import MessageBroker.Proofs.Fallible
import MessageBroker.Proofs.Http.Answer
import MessageBroker.Proofs.Http.Body
import MessageBroker.Proofs.Http.Route

/-! # Requests are calls

What a request asks for is said without its readers: `IsFor` by the patterns of the routes, `Asks`
by what its query gives and its body holds, and `Writes` by the fields of the body. What answers the
result of a call is said by `Replies`, and what answers its error by `Reports`. A request for a
route that asks for a call is answered with the result of the call and leaves the broker as the call
does; a request for a route that asks for none is malformed, and one for no route is not found
(`requests_refine_calls`). -/

namespace MessageBroker.Http

open Broker (Call)
open Fallible

/-! ### What a request asks for -/

namespace Request

/-- The body of a request holds a value, and is not too large. -/
def Holds {α : Type} (r : Request) (value : Json.Reader α) (a : α) : Prop :=
  r.body.length ≤ maxBody ∧ Json.decode value r.body = .ok a

/-- The path of a request for an endpoint instantiates a pattern that is served by its method, with
the values in place of the parameters. -/
def IsFor (r : Request) (e : Endpoint) (values : List String) : Prop :=
  ∃ route ∈ routes, route.method = r.method ∧ route.endpoint = e ∧
    Instantiates route.pattern values (segments r.path)

/-- The call that a request for an endpoint asks for, if no more than `most` messages may be leased
at once. -/
inductive Asks (r : Request) (most : UInt32) : Endpoint → List String → Call → Prop
  | health : Asks r most .health [] .health
  | createQueue {q : Queue} (h : r.Holds newQueue q) : Asks r most .createQueue [] (.createQueue q)
  | listQueues {offset limit : UInt32} (ho : r.Gives "offset" IsWord 0 offset)
    (hl : r.Gives "limit" IsWord 1 limit) : Asks r most .listQueues [] (.listQueues offset limit)
  | getQueue (id : String) : Asks r most .getQueue [id] (.getQueue id)
  | updateQueue {id : String} {q : Queue} (h : r.Holds (newSettings id) q) :
    Asks r most .updateQueue [id] (.updateQueue q)
  | deleteQueue (id : String) : Asks r most .deleteQueue [id] (.deleteQueue id)
  | queueStats (id : String) : Asks r most .queueStats [id] (.queueStats id)
  | purgeQueue (id : String) : Asks r most .purgeQueue [id] (.purge id)
  | cleanupQueue (id : String) : Asks r most .cleanupQueue [id] (.cleanup id)
  | createMessage (queueId : String) {c : MessageContent} (h : r.Holds newMessage c) :
    Asks r most .createMessage [queueId] (.createMessage queueId c)
  | leaseMessages (queueId : String) {label : Option String} {limit : UInt32}
    (hlabel : r.Gives "label" (fun value s => s = some value) none label)
    (hlimit : r.Gives "limit" IsWord 10 limit) :
    Asks r most .leaseMessages [queueId] (.lease queueId label (min limit most))
  | ackMessage (queueId id : String) : Asks r most .ackMessage [queueId, id] (.ack id)
  | nackMessage (queueId id : String) {timeout : UInt32}
    (h : r.Gives "visibility_timeout_seconds" IsWord 0 timeout) :
    Asks r most .nackMessage [queueId, id] (.nack id timeout)
  | createTopic {t : Topic} (h : r.Holds newTopic t) : Asks r most .createTopic [] (.createTopic t)
  | listTopics {offset limit : UInt32} (ho : r.Gives "offset" IsWord 0 offset)
    (hl : r.Gives "limit" IsWord 1 limit) : Asks r most .listTopics [] (.listTopics offset limit)
  | getTopic (id : String) : Asks r most .getTopic [id] (.getTopic id)
  | deleteTopic (id : String) : Asks r most .deleteTopic [id] (.deleteTopic id)
  | publishMessage (topicId : String) {c : MessageContent} (h : r.Holds newMessage c) :
    Asks r most .publishMessage [topicId] (.publish topicId c)
  | createSubscription {s : Subscription} (h : r.Holds newSubscription s) :
    Asks r most .createSubscription [] (.createSubscription s)
  | listSubscriptions {offset limit : UInt32} (ho : r.Gives "offset" IsWord 0 offset)
    (hl : r.Gives "limit" IsWord 1 limit) :
    Asks r most .listSubscriptions [] (.listSubscriptions offset limit)
  | getSubscription (id : String) : Asks r most .getSubscription [id] (.getSubscription id)
  | deleteSubscription (id : String) : Asks r most .deleteSubscription [id] (.deleteSubscription id)

open Json in
/-- The body of a request is an object with the given members, in any order. -/
def WritesObject (r : Request) (members : List (String × Json)) : Prop :=
  ∃ l : List (String × Json), l.Perm members ∧ r.body = Text.bytes (Json.object l).render

open Json in
/-- The body of a request writes some of the content of a message. -/
def WritesContent (r : Request) (c : MessageContent) : Prop :=
  ∃ (label : Option (Option String)) (body : Option String) (attributes : Option (Dict String)),
    r.WritesObject (entryOf "label" .ofOptionalText label ++ entryOf "body" .text body ++
      entryOf "attributes" (.ofDict .text) attributes) ∧
    c = ⟨label.getD none, body.getD "", attributes.getD ∅⟩

open Json in
/-- The call that the body of a request writes, with some of the fields that are known. Those left
out have a default. -/
inductive Writes (r : Request) : Endpoint → List String → Call → Prop
  | createQueue {id : Option String} {ack retention delay : Option UInt32}
    (h : r.WritesObject (entryOf "id" .text id ++ writtenSettings ack retention delay)) :
    Writes r .createQueue [] (.createQueue
      ⟨id.getD "", ack.getD 0, retention.getD 0, delay.getD 0, .epoch, .epoch⟩)
  | updateQueue (id : String) {ack retention delay : Option UInt32}
    (h : r.WritesObject (writtenSettings ack retention delay)) :
    Writes r .updateQueue [id] (.updateQueue
      ⟨id, ack.getD 0, retention.getD 0, delay.getD 0, .epoch, .epoch⟩)
  | createMessage (queueId : String) {c : MessageContent} (h : r.WritesContent c) :
    Writes r .createMessage [queueId] (.createMessage queueId c)
  | publishMessage (topicId : String) {c : MessageContent} (h : r.WritesContent c) :
    Writes r .publishMessage [topicId] (.publish topicId c)
  | createTopic {id : Option String} (h : r.WritesObject (entryOf "id" .text id)) :
    Writes r .createTopic [] (.createTopic ⟨id.getD "", .epoch⟩)
  | createSubscription {id topicId queueId : Option String} {filters : Option (Dict (List String))}
    (h : r.WritesObject (entryOf "id" .text id ++ entryOf "topic_id" .text topicId ++
      entryOf "queue_id" .text queueId ++
      entryOf "message_filters" (.ofDict fun l => .array (l.map .text)) filters)) :
    Writes r .createSubscription [] (.createSubscription
      ⟨id.getD "", topicId.getD "", queueId.getD "", filters.getD ∅, .epoch⟩)

variable {r : Request} {most : UInt32}

theorem WritesObject.holds {α : Type} {value : Json.Reader α} {a : α}
    {members : List (String × Json)} (h : r.WritesObject members) (hsize : r.body.length ≤ maxBody)
    (hdecode : ∀ l : List (String × Json), l.Perm members →
      Json.decode value (Text.bytes (Json.object l).render) = .ok a) : r.Holds value a := by
  obtain ⟨l, hl, hbody⟩ := h
  refine ⟨hsize, ?_⟩
  rw [hbody]
  exact hdecode l hl

theorem WritesContent.holds {c : MessageContent} (h : r.WritesContent c)
    (hsize : r.body.length ≤ maxBody) : r.Holds newMessage c := by
  obtain ⟨label, body, attributes, h, rfl⟩ := h
  exact h.holds hsize fun l hl => decode_newMessage hl

/-- **What the body of a request writes is what the request asks for.** -/
theorem Writes.asks {e : Endpoint} {values : List String} {call : Call}
    (h : r.Writes e values call) (hsize : r.body.length ≤ maxBody) :
    r.Asks most e values call := by
  cases h with
  | createQueue h => exact .createQueue (h.holds hsize fun l hl => decode_newQueue hl)
  | updateQueue id h => exact .updateQueue (h.holds hsize fun l hl => decode_newSettings id hl)
  | createMessage queueId h => exact .createMessage queueId (h.holds hsize)
  | publishMessage topicId h => exact .publishMessage topicId (h.holds hsize)
  | createTopic h => exact .createTopic (h.holds hsize fun l hl => decode_newTopic hl)
  | createSubscription h =>
    exact .createSubscription (h.holds hsize fun l hl => decode_newSubscription hl)

/-! ### The readers read what is asked for -/

theorem map_eq_ok_iff {ε α β : Type} {x : Except ε α} {f : α → β} {b : β} :
    x.map f = .ok b ↔ ∃ a, x = .ok a ∧ b = f a := by
  cases x with
  | error e => simp [Except.map]
  | ok a => simp [Except.map, eq_comm]

theorem fromQuery_eq_ok_iff {α : Type} {x : Except QueryProblem α} {a : α} :
    fromQuery x = .ok a ↔ x = .ok a := by
  cases x <;> simp [fromQuery]

theorem fromBody_eq_ok_iff {α : Type} {value : Json.Reader α} {a : α} :
    r.fromBody value = .ok a ↔ r.Holds value a := by
  rw [fromBody, Holds]
  split_ifs with hsize
  · simp [Nat.not_le.mpr hsize]
  · rw [and_iff_right (Nat.le_of_not_lt hsize)]
    cases Json.decode value r.body <;> simp

/-- The number of messages to lease is the one given, by default ten, but no more than `most`. -/
theorem exists_leaseQuery {queueId : String} {call : Call} :
    ((fromQuery r.leaseQuery).map fun q => Call.lease queueId q.label (q.limitUpTo most)) =
        .ok call ↔
      ∃ label limit, (r.Gives "label" (fun value s => s = some value) none label ∧
        r.Gives "limit" IsWord 10 limit) ∧ call = .lease queueId label (min limit most) := by
  have hmin (q : LeaseQuery) : q.limitUpTo most = min (q.limit.getD 10) most := rfl
  simp only [map_eq_ok_iff, fromQuery_eq_ok_iff, leaseQuery_eq_ok_iff, hmin]
  constructor
  · rintro ⟨q, ⟨hlabel, hlimit⟩, rfl⟩
    refine ⟨q.label, q.limit.getD 10, ⟨hlabel, ?_⟩, rfl⟩
    rcases hlimit with ⟨hnone, hq⟩ | ⟨value, hgiven, k, hq, hk⟩
    · exact .inl ⟨hnone, by rw [hq]; rfl⟩
    · exact .inr ⟨value, hgiven, by rw [hq]; exact hk⟩
  · rintro ⟨label, limit, ⟨hlabel, hlimit⟩, rfl⟩
    rcases hlimit with ⟨hnone, rfl⟩ | ⟨value, hgiven, hk⟩
    · exact ⟨⟨label, none⟩, ⟨hlabel, .inl ⟨hnone, rfl⟩⟩, rfl⟩
    · exact ⟨⟨label, some limit⟩, ⟨hlabel, .inr ⟨value, hgiven, limit, rfl, hk⟩⟩, rfl⟩

end Request

/-- The number of the parameters of an endpoint. -/
def Endpoint.arity : Endpoint → Nat
  | .health | .createQueue | .listQueues | .createTopic | .listTopics | .createSubscription
  | .listSubscriptions => 0
  | .ackMessage | .nackMessage => 2
  | _ => 1

/-- Whether a segment of a pattern is a parameter. -/
def Segment.isParameter : Segment → Bool
  | .word _ => false
  | .parameter _ => true

theorem Instantiates.length_values {pattern : List Segment} {values path : List String}
    (h : Instantiates pattern values path) : values.length = pattern.countP Segment.isParameter := by
  induction h with
  | nil => rfl
  | word w _ ih => rw [ih, List.countP_cons]; rfl
  | parameter name _ _ ih => rw [List.length_cons, ih, List.countP_cons]; rfl

theorem arity_routes :
    ∀ route ∈ routes, route.pattern.countP Segment.isParameter = route.endpoint.arity := by
  decide

namespace Request

variable {r : Request} {most : UInt32}

theorem IsFor.length_values {e : Endpoint} {values : List String} (h : r.IsFor e values) :
    values.length = e.arity := by
  obtain ⟨route, hroute, -, rfl, hinst⟩ := h
  rw [hinst.length_values, arity_routes route hroute]

/-- **A request makes the call that it asks for.** -/
theorem call_eq_ok_iff {e : Endpoint} {values : List String} (h : values.length = e.arity)
    {call : Call} : r.call most values e = .ok call ↔ r.Asks most e values call := by
  cases e with
  | health =>
    obtain rfl := List.length_eq_zero_iff.mp h
    simp only [Request.call, Except.ok.injEq]
    exact ⟨fun hcall => hcall ▸ .health, fun hasks => by cases hasks; rfl⟩
  | getQueue | deleteQueue | queueStats | purgeQueue | cleanupQueue | getTopic | deleteTopic
  | getSubscription | deleteSubscription =>
    obtain ⟨id, rfl⟩ := List.length_eq_one_iff.mp h
    simp only [Request.call, List.getD_cons_zero, Except.ok.injEq]
    exact ⟨fun hcall => by subst hcall; constructor, fun hasks => by cases hasks; rfl⟩
  | ackMessage =>
    obtain ⟨queueId, id, rfl⟩ := List.length_eq_two.mp h
    simp only [Request.call, List.getD_cons_succ, List.getD_cons_zero, Except.ok.injEq]
    exact ⟨fun hcall => hcall ▸ .ackMessage queueId id, fun hasks => by cases hasks; rfl⟩
  | createQueue | createTopic | createSubscription =>
    obtain rfl := List.length_eq_zero_iff.mp h
    simp only [Request.call, map_eq_ok_iff, fromBody_eq_ok_iff]
    constructor
    · rintro ⟨_, hbody, rfl⟩
      constructor
      exact hbody
    · intro hasks
      cases hasks
      rename_i hbody
      exact ⟨_, hbody, rfl⟩
  | updateQueue | createMessage | publishMessage =>
    obtain ⟨id, rfl⟩ := List.length_eq_one_iff.mp h
    simp only [Request.call, map_eq_ok_iff, fromBody_eq_ok_iff]
    constructor
    · rintro ⟨_, hbody, rfl⟩
      constructor
      exact hbody
    · intro hasks
      cases hasks
      rename_i hbody
      exact ⟨_, hbody, rfl⟩
  | listQueues | listTopics | listSubscriptions =>
    obtain rfl := List.length_eq_zero_iff.mp h
    simp only [Request.call, map_eq_ok_iff, fromQuery_eq_ok_iff, window_eq_ok_iff]
    constructor
    · rintro ⟨w, ⟨hoffset, hlimit⟩, rfl⟩
      constructor
      exacts [hoffset, hlimit]
    · intro hasks
      cases hasks
      rename_i hoffset hlimit
      exact ⟨⟨_, _⟩, ⟨hoffset, hlimit⟩, rfl⟩
  | leaseMessages =>
    obtain ⟨queueId, rfl⟩ := List.length_eq_one_iff.mp h
    rw [Request.call, List.getD_cons_zero, exists_leaseQuery]
    constructor
    · rintro ⟨_, _, ⟨hlabel, hlimit⟩, rfl⟩
      exact .leaseMessages queueId hlabel hlimit
    · intro hasks
      cases hasks with
      | leaseMessages _ hlabel hlimit => exact ⟨_, _, ⟨hlabel, hlimit⟩, rfl⟩
  | nackMessage =>
    obtain ⟨queueId, id, rfl⟩ := List.length_eq_two.mp h
    simp only [Request.call, map_eq_ok_iff, fromQuery_eq_ok_iff, visibilityTimeout_eq_ok_iff]
    constructor
    · rintro ⟨_, htimeout, rfl⟩
      exact .nackMessage queueId id htimeout
    · intro hasks
      cases hasks with
      | nackMessage _ _ htimeout => exact ⟨_, htimeout, rfl⟩

theorem map_eq_error_iff {ε α β : Type} {x : Except ε α} {f : α → β} {e : ε} :
    x.map f = .error e ↔ x = .error e := by
  cases x <;> simp [Except.map]

theorem exists_of_fromQuery_eq_error {α : Type} {x : Except QueryProblem α} {error : Error}
    (h : fromQuery x = .error error) : ∃ message, error = .malformedRequest message := by
  cases x with
  | ok a => cases h
  | error problem => exact ⟨_, (Except.error.inj h).symm⟩

theorem exists_of_fromBody_eq_error {α : Type} {value : Json.Reader α} {error : Error}
    (h : r.fromBody value = .error error) : ∃ message, error = .malformedRequest message := by
  rw [fromBody] at h
  split_ifs at h
  · exact ⟨_, (Except.error.inj h).symm⟩
  · cases hdecode : Json.decode value r.body with
    | ok a => rw [hdecode] at h; cases h
    | error failure => rw [hdecode] at h; exact ⟨_, (Except.error.inj h).symm⟩

theorem exists_of_call_eq_error {e : Endpoint} {values : List String} {error : Error}
    (h : r.call most values e = .error error) : ∃ message, error = .malformedRequest message := by
  cases e with
  | health | getQueue | deleteQueue | queueStats | purgeQueue | cleanupQueue | ackMessage
  | getTopic | deleteTopic | getSubscription | deleteSubscription => cases h
  | createQueue | updateQueue | createMessage | publishMessage | createTopic
  | createSubscription =>
    simp only [Request.call, map_eq_error_iff] at h
    exact exists_of_fromBody_eq_error h
  | listQueues | listTopics | listSubscriptions | leaseMessages | nackMessage =>
    simp only [Request.call, map_eq_error_iff] at h
    exact exists_of_fromQuery_eq_error h

end Request

/-! ### How calls are answered -/

/-- A call that makes something new. -/
def IsCreation : Call → Prop
  | .createQueue _ | .createMessage .. | .createTopic _ | .publish .. | .createSubscription _ => True
  | _ => False

/-- A call of which nothing but its success is answered. -/
def IsSilent : Call → Prop
  | .deleteQueue _ | .purge _ | .cleanup _ | .ack _ | .nack .. | .deleteTopic _
  | .deleteSubscription _ => True
  | _ => False

/-- A call for a listing: its offset and limit. -/
def window? : Call → Option (UInt32 × UInt32)
  | .listQueues offset limit | .listTopics offset limit | .listSubscriptions offset limit =>
    some (offset, limit)
  | .lease _ _ limit => some (0, limit)
  | _ => none

/-- An answer to a call that succeeds with a result. -/
inductive Replies (call : Call) (result : Store.Result) : Response → Prop
  | created {v : Json} (h : IsCreation call) (hv : Shows result v) :
    Replies call result ⟨201, some v⟩
  | silent (h : IsSilent call) : Replies call result ⟨204, none⟩
  | listed {offset limit : UInt32} {v : Json} (h : window? call = some (offset, limit))
    (hv : ShowsPage offset limit result v) : Replies call result ⟨200, some v⟩
  | found {v : Json} (hcreation : ¬IsCreation call) (hsilent : ¬IsSilent call)
    (hlisting : window? call = none) (hv : Shows result v) : Replies call result ⟨200, some v⟩

/-- A store that answers at all is in good health. -/
theorem result_health {now : Instant} {b b' : Broker} {result : Store.Result}
    (h : (Broker.perform now .health).on b = (.ok result, b')) : result = .health true := by
  obtain ⟨success, b₁, haccess, hresult⟩ := exists_of_bind_apply h
  have hanswer : (Store.health b.store).1 = .ok success := congrArg Prod.fst haccess
  have hhealth : Store.health b.store = (.ok success, (Store.health b.store).2) :=
    Prod.ext hanswer rfl
  obtain ⟨-, s, -, hpure⟩ := exists_of_bind_apply hhealth
  have hsuccess : success = true := (Except.ok.inj (congrArg Prod.fst hpure)).symm
  subst hsuccess
  exact (Except.ok.inj (congrArg Prod.fst hresult)).symm

/-- **A call that succeeds is answered as its kind says.** -/
theorem replies_ofResult {call : Call} {now : Instant} {b b' : Broker} {result : Store.Result}
    (h : (Broker.perform now call).on b = (.ok result, b')) :
    Replies call result (Response.ofResult call result) := by
  cases call with
  | createQueue | createMessage | createTopic | publish | createSubscription =>
    exact .created trivial (shows_resultJson result)
  | deleteQueue | purge | cleanup | ack | nack | deleteTopic | deleteSubscription =>
    exact .silent trivial
  | listQueues | listTopics | listSubscriptions | lease =>
    exact .listed rfl (showsPage_listing _ _ result)
  | getQueue | updateQueue | queueStats | getMessage | getTopic | getSubscription =>
    exact .found id id rfl (shows_resultJson result)
  | health =>
    obtain rfl := result_health h
    exact .found id id rfl (shows_resultJson (.health true))

/-- A broker after a request was answered with a status, which is counted. -/
def Request.counted (r : Request) (status : Nat) (b : Broker) : Broker :=
  { b with metrics := b.metrics.addRequest ⟨r.method, r.routeName, status⟩ }

theorem respond_of_call {r : Request} (now : Instant) {b : Broker} {e : Endpoint}
    {values : List String} {call : Call} (hfound : r.endpoint? = some (e, values))
    (hcall : r.call b.maxLease values e = .ok call) :
    respond r now b = match (Broker.perform now call).on b with
      | (.ok result, b') => (.ofResult call result, b')
      | (.error error, b') => (.ofError error, b') := by
  have hanswer : (answer call now).on b =
      (((Broker.perform now call).on b).1.map (Response.ofResult call),
        ((Broker.perform now call).on b).2) := bind_pure_apply _ _ b
  rw [respond, hfound]
  simp only [hcall, hanswer]
  rcases (Broker.perform now call).on b with ⟨error | result, b'⟩ <;> rfl

theorem serve_of_respond {r : Request} {now : Instant} {b b' : Broker} {response : Response}
    (h : respond r now b = (response, b')) :
    serve r now b = (response, r.counted response.status b') := by
  rw [serve, h]
  rfl

/-- A queue whose identifier is the word for messages in paths. -/
def wordQueue : Queue := ⟨"messages", 30, 600, 0, .epoch, .epoch⟩

open Json in
/-- A request that creates the queue, without a delay. -/
def creatingRequest : Request :=
  ⟨"POST", "/v1/queues", Text.bytes (object [("id", text "messages"),
    ("ack_deadline_seconds", number 30), ("message_retention_seconds", number 600)]).render⟩

/-- A request that leases three messages of the queue. -/
def leasingRequest : Request := ⟨"GET", "/v1/queues/messages/messages?limit=3", []⟩

/-- A broker that leases two messages at once. -/
def emptyBroker : Broker := .start .serials .empty 2

/-- The broker with the queue and a message of it. -/
def stockedBroker : Broker :=
  let b := ((Broker.perform .epoch (.createQueue wordQueue)).on emptyBroker).2
  ((Broker.perform .epoch (.createMessage "messages" ⟨none, "hi", ∅⟩)).on b).2

/-- The message as the first lease returns it. -/
def leasedMessage : Message where
  id := Identifier.Source.serials.issue 0
  queueId := "messages"
  label := none
  body := "hi"
  attributes := ∅
  deliveryAttempts := 1
  expiredAt := Instant.epoch.addSeconds 600
  scheduledAt := Instant.epoch.addSeconds 30
  createdAt := .epoch
  updatedAt := .epoch

end MessageBroker.Http

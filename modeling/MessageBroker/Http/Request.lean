import MessageBroker.Broker.Call
import MessageBroker.Http.Query
import MessageBroker.Http.Route
import MessageBroker.Json.Reader

/-! # Requests

What a request asks of the broker: its path and method choose an endpoint, whose parameters, query
and body make a call. A query or body that cannot be read makes the request malformed. -/

namespace MessageBroker.Http

open MessageBroker.Text

/-- A request. -/
structure Request where
  method : String
  /-- The path, and the query after a question mark. -/
  target : String
  body : List UInt8

namespace Request

/-- The target without a fragment. -/
def reference (r : Request) : List Char := r.target.toList.takeWhile (· ≠ '#')

/-- The path as it was sent. -/
def path (r : Request) : String := String.ofList (r.reference.takeWhile (· ≠ '?'))

/-- The text after the question mark. -/
def query (r : Request) : String := String.ofList ((r.reference.dropWhile (· ≠ '?')).drop 1)

/-- Whether an escape stays in a path while its segments are found: that of a slash, which is no end
of a segment, of a percent sign, and of a plus sign. -/
def keepsEscape (b : UInt8) : Bool := b == 0x2F || b == 0x25 || b == 0x2B

/-- The path with most escapes decoded, by which the endpoint is found. -/
def decodedPath (r : Request) : String := Percent.decodeText keepsEscape r.path

/-- The endpoint that a request asks for, with its parameters. -/
def endpoint? (r : Request) : Option (Endpoint × List String) :=
  (Http.endpoint? r.method r.decodedPath).map fun (e, parameters) =>
    (e, parameters.map (Percent.decodeText fun _ => false))

/-- The name of the route under which a request is counted. -/
def routeName (r : Request) : String := (patternOf? r.path).getD "unmatched"

/-! ### Queries -/

/-- The part of a listing asked for. -/
structure Window where
  offset : UInt32
  limit : UInt32

/-- The part of a listing that a request asks for, by default one entry. -/
def window (r : Request) : Except QueryProblem Window :=
  readQuery [.word "offset" fun w n => { w with offset := n },
    .word "limit" fun w n => { w with limit := n }] ⟨0, 1⟩ r.query

/-- The messages asked for. -/
structure LeaseQuery where
  label : Option String
  limit : Option UInt32

/-- The messages that a request asks for. -/
def leaseQuery (r : Request) : Except QueryProblem LeaseQuery :=
  readQuery [.text "label" fun q s => { q with label := some s },
    .word "limit" fun q n => { q with limit := some n }] ⟨none, none⟩ r.query

/-- The number of messages leased if a request names none. -/
def defaultLease : UInt32 := 10

/-- The number of messages that a lease is limited to. -/
def LeaseQuery.limitUpTo (q : LeaseQuery) (most : UInt32) : UInt32 :=
  let n := q.limit.getD defaultLease
  if n ≤ most then n else most

/-- The timeout that a request gives, by default none. -/
def visibilityTimeout (r : Request) : Except QueryProblem UInt32 :=
  readQuery [.word "visibility_timeout_seconds" fun _ n => n] 0 r.query

/-! ### Bodies -/

/-- The size that no body exceeds. -/
def maxBody : Nat := 2097152

/-- A queue without settings. -/
def blankQueue : Queue := ⟨"", 0, 0, 0, .epoch, .epoch⟩

/-- The fields that hold the settings of a queue. -/
def settings : List (Json.Field Queue) :=
  [.ofReader "ack_deadline_seconds" .word fun q n => { q with ackDeadlineSeconds := n },
    .ofReader "message_retention_seconds" .word fun q n => { q with messageRetentionSeconds := n },
    .ofReader "delivery_delay_seconds" .word fun q n => { q with deliveryDelaySeconds := n }]

/-- A queue to create. -/
def newQueue : Json.Reader Queue :=
  .record "CreateQueueRequest" (.ofReader "id" .text (fun q s => { q with id := s }) :: settings)
    blankQueue

/-- The settings of a queue to update. -/
def newSettings (id : String) : Json.Reader Queue :=
  .record "UpdateQueueRequest" settings { blankQueue with id }

/-- The content of a message. -/
def newMessage : Json.Reader MessageContent :=
  .record "CreateMessageRequest"
    [.ofReader "label" .optionalText fun c s => { c with label := s },
      .ofReader "body" .text fun c s => { c with body := s },
      .ofReader "attributes" (.dict .text) fun c d => { c with attributes := d }]
    ⟨none, "", ∅⟩

/-- A topic to create. -/
def newTopic : Json.Reader Topic :=
  .record "CreateTopicRequest" [.ofReader "id" .text fun t s => { t with id := s }] ⟨"", .epoch⟩

/-- A subscription to create. -/
def newSubscription : Json.Reader Subscription :=
  .record "CreateSubscriptionRequest"
    [.ofReader "id" .text fun x s => { x with id := s },
      .ofReader "topic_id" .text fun x s => { x with topicId := s },
      .ofReader "queue_id" .text fun x s => { x with queueId := s },
      .ofReader "message_filters" (.dict (.list .text)) fun x d => { x with messageFilters := d }]
    ⟨"", "", "", ∅, .epoch⟩

/-! ### Calls -/

/-- What was read from a query, or that the request is malformed. -/
def fromQuery {α : Type} : Except QueryProblem α → Except Error α
  | .ok a => .ok a
  | .error problem => .error (.malformedRequest ("Query deserialize error: " ++ problem.message))

/-- What a body holds, unless it is too large or the request is malformed. -/
def fromBody {α : Type} (r : Request) (value : Json.Reader α) : Except Error α :=
  if maxBody < r.body.length then
    .error (.malformedRequest ("JSON payload (" ++ Decimal.ofInt r.body.length
      ++ " bytes) is larger than allowed (limit: " ++ Decimal.ofInt maxBody ++ " bytes)."))
  else
    match Json.decode value r.body with
    | .ok a => .ok a
    | .error f => .error (.malformedRequest ("Json deserialize error: " ++ f.message r.body))

/-- The call that a request to an endpoint makes. -/
def call (r : Request) (maxLease : UInt32) (parameters : List String) :
    Endpoint → Except Error Broker.Call :=
  let id := parameters.getD 0 ""
  let messageId := parameters.getD 1 ""
  let list (f : UInt32 → UInt32 → Broker.Call) : Except Error Broker.Call :=
    (fromQuery r.window).map fun w => f w.offset w.limit
  fun
  | .health => .ok .health
  | .createQueue => (r.fromBody newQueue).map .createQueue
  | .listQueues => list .listQueues
  | .getQueue => .ok (.getQueue id)
  | .updateQueue => (r.fromBody (newSettings id)).map .updateQueue
  | .deleteQueue => .ok (.deleteQueue id)
  | .queueStats => .ok (.queueStats id)
  | .purgeQueue => .ok (.purge id)
  | .cleanupQueue => .ok (.cleanup id)
  | .createMessage => (r.fromBody newMessage).map (.createMessage id)
  | .leaseMessages =>
    (fromQuery r.leaseQuery).map fun q => .lease id q.label (q.limitUpTo maxLease)
  | .ackMessage => .ok (.ack messageId)
  | .nackMessage => (fromQuery r.visibilityTimeout).map (.nack messageId)
  | .createTopic => (r.fromBody newTopic).map .createTopic
  | .listTopics => list .listTopics
  | .getTopic => .ok (.getTopic id)
  | .deleteTopic => .ok (.deleteTopic id)
  | .publishMessage => (r.fromBody newMessage).map (.publish id)
  | .createSubscription => (r.fromBody newSubscription).map .createSubscription
  | .listSubscriptions => list .listSubscriptions
  | .getSubscription => .ok (.getSubscription id)
  | .deleteSubscription => .ok (.deleteSubscription id)

end Request

end MessageBroker.Http

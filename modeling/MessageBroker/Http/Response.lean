import MessageBroker.Broker.Call
import MessageBroker.Json.Value

/-! # Responses

What a request is answered: a status and, for most of them, a JSON value. -/

namespace MessageBroker

open Json in
/-- The JSON form of an optional text. -/
def Json.ofOptionalText : Option String → Json
  | none => null
  | some s => text s

/-- The JSON form of a natural number. -/
def Json.ofNat (n : Nat) : Json := .number n

/-- The JSON form of a word. -/
def Json.ofWord (n : UInt32) : Json := .number n.toNat

/-- The JSON form of an instant. -/
def Json.ofInstant (t : Instant) : Json := .text t.shown

/-- The JSON form of a dictionary. -/
def Json.ofDict {α : Type} (f : α → Json) (d : Dict α) : Json :=
  .object (d.entries.map fun (k, v) => (k, f v))

def Queue.toJson (q : Queue) : Json :=
  .object [("id", .text q.id),
    ("ack_deadline_seconds", .ofWord q.ackDeadlineSeconds),
    ("message_retention_seconds", .ofWord q.messageRetentionSeconds),
    ("delivery_delay_seconds", .ofWord q.deliveryDelaySeconds),
    ("created_at", .ofInstant q.createdAt),
    ("updated_at", .ofInstant q.updatedAt)]

def QueueStats.toJson (s : QueueStats) : Json :=
  .object [("num_undelivered_messages", .ofNat s.numUndeliveredMessages),
    ("oldest_unacked_message_age_seconds", .ofNat s.oldestUnackedMessageAgeSeconds)]

/-- The part of a message that clients see. -/
def Message.toJson (m : Message) : Json :=
  .object [("id", .text m.id),
    ("queue_id", .text m.queueId),
    ("label", .ofOptionalText m.label),
    ("body", .text m.body),
    ("attributes", .ofDict .text m.attributes),
    ("delivery_attempts", .ofWord m.deliveryAttempts),
    ("created_at", .ofInstant m.createdAt)]

def Topic.toJson (t : Topic) : Json :=
  .object [("id", .text t.id), ("created_at", .ofInstant t.createdAt)]

def Subscription.toJson (s : Subscription) : Json :=
  .object [("id", .text s.id),
    ("topic_id", .text s.topicId),
    ("queue_id", .text s.queueId),
    ("message_filters", .ofDict (fun l => .array (l.map .text)) s.messageFilters),
    ("created_at", .ofInstant s.createdAt)]

def ValidationErrors.toJson (e : ValidationErrors) : Json :=
  .ofDict (fun v => .text v.message) e.violations

/-- What an error tells beyond its message. -/
def Error.details? : Error → Option Json
  | .validationFailed errors => some errors.toJson
  | .malformedRequest message => some (.text message)
  | _ => none

def Error.toJson (e : Error) : Json :=
  .object ([("code", .ofNat e.code), ("message", .text e.publicMessage)]
    ++ (e.details?.map fun d => ("details", d)).toList)

namespace Http

/-- The answer to a request. -/
structure Response where
  status : Nat
  body : Option Json

namespace Response

/-- The type of a response's content. -/
def contentType (r : Response) : Option String := r.body.map fun _ => "application/json"

/-- The answer to a request that no endpoint serves. -/
def unmatched : Response := ⟨404, none⟩

/-- The answer to a request that fails. -/
def ofError (e : Error) : Response := ⟨e.status, some e.toJson⟩

/-- The status of the answer to a call that succeeds. -/
def statusOf (call : Broker.Call) (result : Store.Result) : Nat :=
  match call with
  | .createQueue _ | .createMessage .. | .createTopic _ | .publish .. | .createSubscription _ => 201
  | .deleteQueue _ | .purge _ | .cleanup _ | .ack _ | .nack .. | .deleteTopic _
  | .deleteSubscription _ => 204
  | .health => if result = .health true then 200 else 503
  | _ => 200

/-- The JSON form of a result. -/
def resultJson : Store.Result → Json
  | .done => .null
  | .count n => .ofNat n
  | .health success => .object [("success", .bool success)]
  | .queue q => q.toJson
  | .queues qs => .array (qs.map Queue.toJson)
  | .stats s => s.toJson
  | .message m => m.toJson
  | .messages ms => .array (ms.map Message.toJson)
  | .topic t => t.toJson
  | .topics ts => .array (ts.map Topic.toJson)
  | .subscription s => s.toJson
  | .subscriptions ss => .array (ss.map Subscription.toJson)

/-- A part of a listing, with its place. -/
def listing (offset limit : UInt32) (data : Json) : Json :=
  .object [("data", data), ("offset", .ofWord offset), ("limit", .ofWord limit)]

/-- The body of the answer to a call that succeeds. -/
def bodyOf (call : Broker.Call) (result : Store.Result) : Json :=
  match call with
  | .listQueues offset limit | .listTopics offset limit | .listSubscriptions offset limit =>
    listing offset limit (resultJson result)
  | .lease _ _ limit => listing 0 limit (resultJson result)
  | _ => resultJson result

/-- The answer to a call that succeeds. -/
def ofResult (call : Broker.Call) (result : Store.Result) : Response :=
  let status := statusOf call result
  ⟨status, if status = 204 then none else some (bodyOf call result)⟩

end Response

end Http

end MessageBroker

import MessageBroker.Json.Reader
import MessageBroker.Json.Value
import MessageBroker.Instant.Text
import MessageBroker.Store.Cell
import MessageBroker.Subscription
import MessageBroker.Topic

/-! # Rows

The stored form of queues, messages, topics and subscriptions. Instants are stored as text, words as
integers, and dictionaries as the text of a JSON object. `ofQueue` and its like store an entity,
`decode?` reads it back; it fails if a column holds what no entity is stored as. `holds` compares a
column with a text, and `withColumn` overwrites one. Stored instants are compared as texts. -/

namespace MessageBroker.Store

/-! ### Dictionaries in columns -/

/-- The stored form of a dictionary of texts. -/
def storedTexts (d : Dict String) : String :=
  (Json.object (d.entries.map fun (k, v) => (k, .text v))).render

/-- The stored form of a dictionary of lists of texts. -/
def storedLists (d : Dict (List String)) : String :=
  (Json.object (d.entries.map fun (k, l) => (k, .array (l.map .text)))).render

/-- The dictionary of texts in a column. -/
def texts? (s : String) : Option (Dict String) :=
  (Json.decode (.dict .text) (Text.bytes s)).toOption

/-- The dictionary of lists of texts in a column. -/
def lists? (s : String) : Option (Dict (List String)) :=
  (Json.decode (.dict (.list .text)) (Text.bytes s)).toOption

/-! ### Queues -/

/-- A stored queue. -/
structure QueueRow where
  id : String
  ackDeadlineSeconds : Cell
  messageRetentionSeconds : Cell
  deliveryDelaySeconds : Cell
  createdAt : String
  updatedAt : String
  deriving DecidableEq

namespace QueueRow

def ofQueue (q : Queue) : QueueRow :=
  ⟨q.id, .ofWord q.ackDeadlineSeconds, .ofWord q.messageRetentionSeconds,
    .ofWord q.deliveryDelaySeconds, q.createdAt.stored, q.updatedAt.stored⟩

def decode? (r : QueueRow) : Option Queue := do
  return {
    id := r.id
    ackDeadlineSeconds := ← r.ackDeadlineSeconds.word?
    messageRetentionSeconds := ← r.messageRetentionSeconds.word?
    deliveryDelaySeconds := ← r.deliveryDelaySeconds.word?
    createdAt := ← Instant.read? r.createdAt
    updatedAt := ← Instant.read? r.updatedAt }

def holds (r : QueueRow) (column value : String) : Bool :=
  match column with
  | "id" => r.id = value
  | "ack_deadline_seconds" => r.ackDeadlineSeconds = .ofText value
  | "message_retention_seconds" => r.messageRetentionSeconds = .ofText value
  | "delivery_delay_seconds" => r.deliveryDelaySeconds = .ofText value
  | "created_at" => r.createdAt = value
  | "updated_at" => r.updatedAt = value
  | _ => false

def withColumn (r : QueueRow) (column value : String) : QueueRow :=
  match column with
  | "id" => { r with id := value }
  | "ack_deadline_seconds" => { r with ackDeadlineSeconds := .ofText value }
  | "message_retention_seconds" => { r with messageRetentionSeconds := .ofText value }
  | "delivery_delay_seconds" => { r with deliveryDelaySeconds := .ofText value }
  | "created_at" => { r with createdAt := value }
  | "updated_at" => { r with updatedAt := value }
  | _ => r

end QueueRow

/-! ### Messages -/

/-- A stored message. -/
structure MessageRow where
  id : String
  queueId : String
  label : Option String
  body : String
  attributes : String
  deliveryAttempts : Cell
  expiredAt : String
  scheduledAt : String
  createdAt : String
  updatedAt : String
  deriving DecidableEq

namespace MessageRow

def ofMessage (m : Message) : MessageRow :=
  ⟨m.id, m.queueId, m.label, m.body, storedTexts m.attributes, .ofWord m.deliveryAttempts,
    m.expiredAt.stored, m.scheduledAt.stored, m.createdAt.stored, m.updatedAt.stored⟩

def decode? (r : MessageRow) : Option Message := do
  return {
    id := r.id
    queueId := r.queueId
    label := r.label
    body := r.body
    attributes := ← texts? r.attributes
    deliveryAttempts := ← r.deliveryAttempts.word?
    expiredAt := ← Instant.read? r.expiredAt
    scheduledAt := ← Instant.read? r.scheduledAt
    createdAt := ← Instant.read? r.createdAt
    updatedAt := ← Instant.read? r.updatedAt }

/-- Whether a lease at an instant may take the message of a row. -/
def isVisible (r : MessageRow) (now : Instant) : Bool :=
  Text.le r.scheduledAt now.stored && Text.lt now.stored r.expiredAt

/-- Whether a cleanup at an instant deletes the row. -/
def isExpired (r : MessageRow) (now : Instant) : Bool :=
  Text.le r.expiredAt now.stored

def holds (r : MessageRow) (column value : String) : Bool :=
  match column with
  | "id" => r.id = value
  | "queue_id" => r.queueId = value
  | "label" => r.label = some value
  | "body" => r.body = value
  | "attributes" => r.attributes = value
  | "delivery_attempts" => r.deliveryAttempts = .ofText value
  | "expired_at" => r.expiredAt = value
  | "scheduled_at" => r.scheduledAt = value
  | "created_at" => r.createdAt = value
  | "updated_at" => r.updatedAt = value
  | _ => false

def withColumn (r : MessageRow) (column value : String) : MessageRow :=
  match column with
  | "id" => { r with id := value }
  | "queue_id" => { r with queueId := value }
  | "label" => { r with label := some value }
  | "body" => { r with body := value }
  | "attributes" => { r with attributes := value }
  | "delivery_attempts" => { r with deliveryAttempts := .ofText value }
  | "expired_at" => { r with expiredAt := value }
  | "scheduled_at" => { r with scheduledAt := value }
  | "created_at" => { r with createdAt := value }
  | "updated_at" => { r with updatedAt := value }
  | _ => r

end MessageRow

/-! ### Topics -/

/-- A stored topic. -/
structure TopicRow where
  id : String
  createdAt : String
  deriving DecidableEq

namespace TopicRow

def ofTopic (t : Topic) : TopicRow := ⟨t.id, t.createdAt.stored⟩

def decode? (r : TopicRow) : Option Topic := do
  return { id := r.id, createdAt := ← Instant.read? r.createdAt }

def holds (r : TopicRow) (column value : String) : Bool :=
  match column with
  | "id" => r.id = value
  | "created_at" => r.createdAt = value
  | _ => false

def withColumn (r : TopicRow) (column value : String) : TopicRow :=
  match column with
  | "id" => { r with id := value }
  | "created_at" => { r with createdAt := value }
  | _ => r

end TopicRow

/-! ### Subscriptions -/

/-- A stored subscription. -/
structure SubscriptionRow where
  id : String
  topicId : String
  queueId : String
  messageFilters : String
  createdAt : String
  deriving DecidableEq

namespace SubscriptionRow

def ofSubscription (s : Subscription) : SubscriptionRow :=
  ⟨s.id, s.topicId, s.queueId, storedLists s.messageFilters, s.createdAt.stored⟩

def decode? (r : SubscriptionRow) : Option Subscription := do
  return {
    id := r.id
    topicId := r.topicId
    queueId := r.queueId
    messageFilters := ← lists? r.messageFilters
    createdAt := ← Instant.read? r.createdAt }

def holds (r : SubscriptionRow) (column value : String) : Bool :=
  match column with
  | "id" => r.id = value
  | "topic_id" => r.topicId = value
  | "queue_id" => r.queueId = value
  | "message_filters" => r.messageFilters = value
  | "created_at" => r.createdAt = value
  | _ => false

def withColumn (r : SubscriptionRow) (column value : String) : SubscriptionRow :=
  match column with
  | "id" => { r with id := value }
  | "topic_id" => { r with topicId := value }
  | "queue_id" => { r with queueId := value }
  | "message_filters" => { r with messageFilters := value }
  | "created_at" => { r with createdAt := value }
  | _ => r

end SubscriptionRow

end MessageBroker.Store

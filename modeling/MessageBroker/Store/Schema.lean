import MessageBroker.Store.Rule

/-! # The schema

The tables of a store with their columns, the indexes on them, and the script that creates both.
Each statement of the script creates what it names unless that exists. The types of the columns are
those of the fields of rows. -/

namespace MessageBroker.Store

/-- The columns of a table, of which the first is its key. -/
def Table.columns : Table → List String
  | queues => ["id", "ack_deadline_seconds", "message_retention_seconds", "delivery_delay_seconds",
    "created_at", "updated_at"]
  | messages => ["id", "queue_id", "label", "body", "attributes", "delivery_attempts", "expired_at",
    "scheduled_at", "created_at", "updated_at"]
  | topics => ["id", "created_at"]
  | subscriptions => ["id", "topic_id", "queue_id", "message_filters", "created_at"]

/-- An index on columns of a table. -/
structure Index where
  name : String
  table : Table
  columns : List String
  deriving DecidableEq

namespace Index

/-- The index by which messages due are found. -/
def visibility : Index :=
  ⟨"messages_visibility_idx", .messages, ["queue_id", "scheduled_at", "expired_at"]⟩

/-- The index by which messages with a label are found. -/
def label : Index := ⟨"messages_label_idx", .messages, ["queue_id", "label"]⟩

/-- The index by which the subscriptions of a topic are found. -/
def topic : Index := ⟨"subscriptions_topic_idx", .subscriptions, ["topic_id", "id"]⟩

def all : List Index := [visibility, label, topic]

end Index

/-- A statement that creates a table with its columns, or an index. With `ifNotExists` it does
nothing if there is one of the name, and otherwise fails then. -/
inductive Definition
  | table (ifNotExists : Bool) (t : Table)
  | index (ifNotExists : Bool) (i : Index)
  deriving DecidableEq

/-- The statements that create all tables and indexes, in order. -/
def script : List Definition :=
  [.table true .queues, .table true .messages, .index true .visibility, .index true .label,
    .table true .topics, .table true .subscriptions, .index true .topic]

end MessageBroker.Store

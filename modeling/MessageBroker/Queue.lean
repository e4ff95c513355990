import MessageBroker.Error
import MessageBroker.Instant.Basic

/-! # Queues -/

namespace MessageBroker

/-- A queue: its settings, and when it was created and last changed. -/
structure Queue where
  id : String
  /-- How long a lease hides a message. -/
  ackDeadlineSeconds : UInt32
  /-- How long after it was enqueued a message expires. -/
  messageRetentionSeconds : UInt32
  /-- How long after it was enqueued a message becomes visible. -/
  deliveryDelaySeconds : UInt32
  createdAt : Instant
  updatedAt : Instant
  deriving DecidableEq

/-- The conditions on a queue. -/
def Queue.checks (q : Queue) : List Check :=
  [.id "id" q.id, .nonzero "ack_deadline_seconds" q.ackDeadlineSeconds,
    .nonzero "message_retention_seconds" q.messageRetentionSeconds]

def Queue.validate (q : Queue) : Except Error Unit := (ValidationErrors.ofChecks q.checks).toResult

/-- The backlog of a queue. -/
structure QueueStats where
  numUndeliveredMessages : Nat
  /-- Whole seconds since the oldest visible message was created. -/
  oldestUnackedMessageAgeSeconds : Nat
  deriving DecidableEq

/-- The backlog of a queue without visible messages. -/
def QueueStats.zero : QueueStats := ⟨0, 0⟩

end MessageBroker

import MessageBroker.Queue

/-! # Messages

A message has no status. What may happen to it follows from two instants: before `scheduledAt` it is
hidden (delayed, leased, or put back with a timeout), from then until `expiredAt` it is visible and
the next lease may take it, and from `expiredAt` on it is expired and will be deleted. The
transitions below are functions of the message, its queue and the present instant. -/

namespace MessageBroker

structure Message where
  id : String
  queueId : String
  /-- Free classification, by which leases can choose. -/
  label : Option String
  body : String
  /-- Attributes, by which subscriptions choose. -/
  attributes : Dict String
  /-- Number of leases granted. -/
  deliveryAttempts : UInt32
  expiredAt : Instant
  scheduledAt : Instant
  createdAt : Instant
  updatedAt : Instant
  deriving DecidableEq

/-- The content of a message, which its sender determines. -/
structure MessageContent where
  label : Option String
  body : String
  attributes : Dict String
  deriving DecidableEq

namespace Message

/-- A message that is not enqueued yet. -/
def ofContent (c : MessageContent) : Message :=
  ⟨"", "", c.label, c.body, c.attributes, 0, .epoch, .epoch, .epoch, .epoch⟩

/-- The conditions on a message. -/
def checks (m : Message) : List Check := [.text "body" m.body]

def validate (m : Message) : Except Error Unit := (ValidationErrors.ofChecks m.checks).toResult

/-- The message placed on a queue under a new identifier. -/
def enqueue (m : Message) (id : String) (q : Queue) (now : Instant) : Message :=
  { m with
    id
    queueId := q.id
    deliveryAttempts := 0
    expiredAt := now.addSeconds q.messageRetentionSeconds.toNat
    scheduledAt := now.addSeconds q.deliveryDelaySeconds.toNat
    createdAt := now
    updatedAt := now }

/-- The message leased: hidden for the queue's ack deadline. -/
def leaseRenew (m : Message) (q : Queue) (now : Instant) : Message :=
  { m with
    deliveryAttempts := m.deliveryAttempts + 1
    scheduledAt := now.addSeconds q.ackDeadlineSeconds.toNat
    updatedAt := now }

/-- The message acknowledged: expired. -/
def ack (m : Message) (now : Instant) : Message := { m with expiredAt := now, updatedAt := now }

/-- The message put back, visible again after a timeout. -/
def nack (m : Message) (now : Instant) (visibilityTimeoutSeconds : UInt32) : Message :=
  { m with scheduledAt := now.addSeconds visibilityTimeoutSeconds.toNat, updatedAt := now }

/-- A lease may take the message. -/
def IsVisible (m : Message) (now : Instant) : Prop := m.scheduledAt ≤ now ∧ now < m.expiredAt

/-- A cleanup deletes the message. -/
def IsExpired (m : Message) (now : Instant) : Prop := m.expiredAt ≤ now

instance (m : Message) (now : Instant) : Decidable (m.IsVisible now) :=
  inferInstanceAs (Decidable (_ ∧ _))

instance (m : Message) (now : Instant) : Decidable (m.IsExpired now) :=
  inferInstanceAs (Decidable (m.expiredAt ≤ now))

end Message

end MessageBroker

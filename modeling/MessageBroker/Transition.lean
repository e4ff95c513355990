import MessageBroker.Message

/-! # Transitions of messages

The changes that a message can undergo, as values. `Transition.apply` makes one; `applied?`
refuses it if an instant that it computes is not representable. -/

namespace MessageBroker

/-- A change of a message. -/
inductive Transition
  | enqueue (id : String) (q : Queue) (now : Instant)
  | leaseRenew (q : Queue) (now : Instant)
  | ack (now : Instant)
  | nack (now : Instant) (visibilityTimeoutSeconds : UInt32)

namespace Transition

/-- The changed message. -/
def apply : Transition → Message → Message
  | enqueue id q now, m => m.enqueue id q now
  | leaseRenew q now, m => m.leaseRenew q now
  | ack now, m => m.ack now
  | nack now timeout, m => m.nack now timeout

/-- The instants that a change computes. -/
def computed : Transition → List Instant
  | enqueue _ q now =>
    [now.addSeconds q.messageRetentionSeconds.toNat, now.addSeconds q.deliveryDelaySeconds.toNat]
  | leaseRenew q now => [now.addSeconds q.ackDeadlineSeconds.toNat]
  | ack _ => []
  | nack now timeout => [now.addSeconds timeout.toNat]

/-- The changed message, if every computed instant is representable. -/
def applied? (t : Transition) (m : Message) : Option Message :=
  if ∀ i ∈ t.computed, i.IsRepresentable then some (t.apply m) else none

/-- The wording of a refused change. -/
def overflowMessage : String := "`DateTime + TimeDelta` overflowed"

end Transition

end MessageBroker

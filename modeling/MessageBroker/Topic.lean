import MessageBroker.Error
import MessageBroker.Instant.Basic

/-! # Topics -/

namespace MessageBroker

/-- A name to publish under. A message published to a topic is copied to the queue of every
subscription that accepts it. -/
structure Topic where
  id : String
  createdAt : Instant
  deriving DecidableEq

/-- The conditions on a topic. -/
def Topic.checks (t : Topic) : List Check := [.id "id" t.id]

def Topic.validate (t : Topic) : Except Error Unit := (ValidationErrors.ofChecks t.checks).toResult

end MessageBroker

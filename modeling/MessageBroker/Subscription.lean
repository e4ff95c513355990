import MessageBroker.Message

/-! # Subscriptions -/

namespace MessageBroker

/-- A route from a topic to a queue. -/
structure Subscription where
  id : String
  topicId : String
  queueId : String
  /-- For each attribute that is looked at, the values accepted. -/
  messageFilters : Dict (List String)
  createdAt : Instant
  deriving DecidableEq

namespace Subscription

/-- The conditions on a subscription. -/
def checks (s : Subscription) : List Check :=
  [.id "id" s.id, .id "topic_id" s.topicId, .id "queue_id" s.queueId]

def validate (s : Subscription) : Except Error Unit := (ValidationErrors.ofChecks s.checks).toResult

/-- Whether attributes have, for every filter, one of the values accepted. -/
def accepts (filters : Dict (List String)) (attributes : Dict String) : Bool :=
  filters.entries.all fun (key, accepted) =>
    match attributes.get? key with
    | none => false
    | some value => accepted.contains value

/-- Whether a message is copied to the subscription's queue. -/
def acceptsMessage (s : Subscription) (m : Message) : Bool := accepts s.messageFilters m.attributes

end Subscription

end MessageBroker

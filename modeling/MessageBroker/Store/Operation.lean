import MessageBroker.Store.Messages
import MessageBroker.Store.Topics

/-! # Operations

The accesses to a store as values, so that a run of a store is a list of operations. `perform` makes
an operation; `run` makes several, one after the other, whether or not one of them fails. -/

namespace MessageBroker.Store

/-- An operation on the store. -/
inductive Operation
  | createQueue (q : Queue)
  | updateQueue (q : Queue)
  | getQueue (id : String)
  | listQueues (offset limit : UInt32)
  | deleteQueue (id : String)
  | queueStats (id : String) (now : Instant)
  | purge (id : String)
  | cleanup (id : String) (now : Instant)
  | createMessage (m : Message)
  | createMessages (ms : List Message)
  | getMessage (id : String)
  | allMessages
  | lease (q : Queue) (label : Option String) (limit : UInt32) (now : Instant)
  | ack (id : String) (now : Instant)
  | nack (id : String) (visibilityTimeoutSeconds : UInt32) (now : Instant)
  | createTopic (t : Topic)
  | getTopic (id : String)
  | listTopics (offset limit : UInt32)
  | deleteTopic (id : String)
  | createSubscription (s : Subscription)
  | getSubscription (id : String)
  | listSubscriptions (offset limit : UInt32)
  | listTopicSubscriptions (topicId : String) (offset limit : UInt32)
  | deleteSubscription (id : String)
  | health

/-- What an operation answers. -/
inductive Result
  | done
  | count (n : Nat)
  | health (success : Bool)
  | queue (q : Queue)
  | queues (qs : List Queue)
  | stats (s : QueueStats)
  | message (m : Message)
  | messages (ms : List Message)
  | topic (t : Topic)
  | topics (ts : List Topic)
  | subscription (s : Subscription)
  | subscriptions (ss : List Subscription)
  deriving DecidableEq

/-- The access that an operation makes. -/
def perform : Operation → Access Result
  | .createQueue q => do createQueue q; return .done
  | .updateQueue q => do updateQueue q; return .done
  | .getQueue id => return .queue (← getQueue id)
  | .listQueues offset limit => return .queues (← listQueues offset limit)
  | .deleteQueue id => do deleteQueue id; return .done
  | .queueStats id now => return .stats (← queueStats id now)
  | .purge id => return .count (← purge id)
  | .cleanup id now => return .count (← cleanup id now)
  | .createMessage m => do createMessage m; return .message m
  | .createMessages ms => do createMessages ms; return .done
  | .getMessage id => return .message (← getMessage id)
  | .allMessages => return .messages (← allMessages)
  | .lease q label limit now => return .messages (← lease q label limit now)
  | .ack id now => do ack id now; return .done
  | .nack id timeout now => do nack id timeout now; return .done
  | .createTopic t => do createTopic t; return .done
  | .getTopic id => return .topic (← getTopic id)
  | .listTopics offset limit => return .topics (← listTopics offset limit)
  | .deleteTopic id => do deleteTopic id; return .done
  | .createSubscription s => do createSubscription s; return .done
  | .getSubscription id => return .subscription (← getSubscription id)
  | .listSubscriptions offset limit => return .subscriptions (← listSubscriptions offset limit)
  | .listTopicSubscriptions topicId offset limit =>
    return .subscriptions (← listTopicSubscriptions topicId offset limit)
  | .deleteSubscription id => do deleteSubscription id; return .done
  | .health => return .health (← health)

/-- The answers of operations made in order, and the store after them. -/
def run : List Operation → Store → List (Except Error Result) × Store
  | [], s => ([], s)
  | op :: ops, s =>
    let (answer, s) := (perform op).on s
    let (answers, s) := run ops s
    (answer :: answers, s)

end MessageBroker.Store

import MessageBroker.Broker.Publish

/-! # Calls

What clients ask of a broker. A call validates what it is given, sets the instants of what it
creates, and looks up what it refers to before it changes it. `perform` is the action of a call made
at an instant; a call that fails counts nothing. -/

namespace MessageBroker.Broker

/-- A call of a broker. -/
inductive Call
  | createQueue (q : Queue)
  | updateQueue (q : Queue)
  | getQueue (id : String)
  | listQueues (offset limit : UInt32)
  | deleteQueue (id : String)
  | queueStats (id : String)
  | purge (id : String)
  | cleanup (id : String)
  | createMessage (queueId : String) (c : MessageContent)
  | getMessage (id : String)
  | lease (queueId : String) (label : Option String) (limit : UInt32)
  | ack (id : String)
  | nack (id : String) (visibilityTimeoutSeconds : UInt32)
  | createTopic (t : Topic)
  | getTopic (id : String)
  | listTopics (offset limit : UInt32)
  | deleteTopic (id : String)
  | publish (topicId : String) (c : MessageContent)
  | createSubscription (s : Subscription)
  | getSubscription (id : String)
  | listSubscriptions (offset limit : UInt32)
  | deleteSubscription (id : String)
  | health
  deriving DecidableEq

/-! ### Queues -/

/-- A new queue, created now. -/
def createQueue (q : Queue) (now : Instant) : Action Queue := do
  check q.validate
  let q := { q with createdAt := now, updatedAt := now }
  access (Store.createQueue q)
  return q

/-- The queue with new settings. Its creation stays when it was. -/
def updateQueue (q : Queue) (now : Instant) : Action Queue := do
  check q.validate
  let stored ← access (Store.getQueue q.id)
  let q := { q with createdAt := stored.createdAt, updatedAt := now }
  access (Store.updateQueue q)
  return q

/-- What `f` does to a queue, if it exists. -/
def onQueue {α : Type} (id : String) (f : String → Store.Access α) : Action α := do
  let q ← access (Store.getQueue id)
  access (f q.id)

/-! ### Messages -/

/-- A new message on a queue. -/
def createMessage (queueId : String) (c : MessageContent) (now : Instant) : Action Message := do
  let m := Message.ofContent c
  check m.validate
  let q ← access (Store.getQueue queueId)
  let m ← enqueued m q now
  access (Store.createMessage m)
  count (·.addEnqueued q.id)
  return m

/-- Messages of a queue, leased. -/
def lease (queueId : String) (label : Option String) (limit : UInt32) (now : Instant) :
    Action (List Message) := do
  let q ← access (Store.getQueue queueId)
  let ms ← access (Store.lease q label limit now)
  count (·.addLeased q.id ms.length)
  return ms

/-! ### Topics and subscriptions -/

/-- A new topic, created now. -/
def createTopic (t : Topic) (now : Instant) : Action Topic := do
  check t.validate
  let t := { t with createdAt := now }
  access (Store.createTopic t)
  return t

/-- The removal of a topic, if it exists. -/
def deleteTopic (id : String) : Action Unit := do
  let t ← access (Store.getTopic id)
  access (Store.deleteTopic t.id)

/-- A new subscription, created now. -/
def createSubscription (s : Subscription) (now : Instant) : Action Subscription := do
  check s.validate
  let s := { s with createdAt := now }
  access (Store.createSubscription s)
  return s

/-- The removal of a subscription, if it exists. -/
def deleteSubscription (id : String) : Action Unit := do
  let s ← access (Store.getSubscription id)
  access (Store.deleteSubscription s.id)

/-! ### All calls -/

/-- The action of a call made at an instant. -/
def perform (now : Instant) : Call → Action Store.Result
  | .createQueue q => return .queue (← createQueue q now)
  | .updateQueue q => return .queue (← updateQueue q now)
  | .getQueue id => return .queue (← access (Store.getQueue id))
  | .listQueues offset limit => return .queues (← access (Store.listQueues offset limit))
  | .deleteQueue id => do onQueue id Store.deleteQueue; return .done
  | .queueStats id => return .stats (← onQueue id (Store.queueStats · now))
  | .purge id => return .count (← onQueue id Store.purge)
  | .cleanup id => return .count (← onQueue id (Store.cleanup · now))
  | .createMessage queueId c => return .message (← createMessage queueId c now)
  | .getMessage id => return .message (← access (Store.getMessage id))
  | .lease queueId label limit => return .messages (← lease queueId label limit now)
  | .ack id => do access (Store.ack id now); return .done
  | .nack id timeout => do access (Store.nack id timeout now); return .done
  | .createTopic t => return .topic (← createTopic t now)
  | .getTopic id => return .topic (← access (Store.getTopic id))
  | .listTopics offset limit => return .topics (← access (Store.listTopics offset limit))
  | .deleteTopic id => do deleteTopic id; return .done
  | .publish topicId c => return .messages (← publish topicId c now)
  | .createSubscription s => return .subscription (← createSubscription s now)
  | .getSubscription id => return .subscription (← access (Store.getSubscription id))
  | .listSubscriptions offset limit =>
    return .subscriptions (← access (Store.listSubscriptions offset limit))
  | .deleteSubscription id => do deleteSubscription id; return .done
  | .health => return .health (← access Store.health)

end MessageBroker.Broker

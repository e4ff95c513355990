import MessageBroker.Broker.Basic

/-! # Publishing

A message published to a topic is copied once for every subscription that accepts it. The
subscriptions are read in pages, in ascending order of identifiers, and all copies are stored in one
transaction. -/

namespace MessageBroker.Broker

/-- The number of subscriptions read at once. -/
def subscriptionPage : UInt32 := 50

/-- A message enqueued under a new identifier. -/
def enqueued (m : Message) (q : Queue) (now : Instant) : Action Message := do
  return m.enqueue (← newId) q now

/-- The copies of a message for those of the subscriptions that accept it. -/
def copiesFor (m : Message) (now : Instant) : List Subscription → Action (List Message)
  | [] => return []
  | s :: rest => do
    if s.acceptsMessage m then
      let q ← access (Store.getQueue s.queueId)
      let copy ← enqueued m q now
      return copy :: (← copiesFor m now rest)
    else copiesFor m now rest

/-- The copies of a message for the subscriptions of a topic from an offset on, in at most as many
pages as `pages` says. -/
def copiesFrom (topicId : String) (m : Message) (now : Instant) :
    Nat → UInt32 → Action (List Message)
  | 0, _ => return []
  | pages + 1, offset => do
    let page ← access (Store.listTopicSubscriptions topicId offset subscriptionPage)
    if page.isEmpty then return []
    else
      let copies ← copiesFor m now page
      return copies ++ (← copiesFrom topicId m now pages (offset + subscriptionPage))

/-- The copies of a message for all subscriptions of a topic. No more pages than subscriptions hold
any. -/
def copies (topicId : String) (m : Message) (now : Instant) : Action (List Message) := fun b =>
  copiesFrom topicId m now (b.store.subscriptions.length + 1) 0 b

/-- The copies of a message published to a topic, enqueued. -/
def publish (topicId : String) (c : MessageContent) (now : Instant) : Action (List Message) := do
  let m := Message.ofContent c
  check m.validate
  let topic ← access (Store.getTopic topicId)
  let ms ← copies topic.id m now
  access (Store.createMessages ms)
  count fun metrics => ms.foldl (fun metrics copy => metrics.addEnqueued copy.queueId) metrics
  return ms

end MessageBroker.Broker

import MessageBroker.Store.Basic

/-! # Stored topics and subscriptions -/

namespace MessageBroker.Store

def createTopic (t : Topic) : Access Unit := insert .topic (TopicRow.ofTopic t)

/-- The topic with an identifier. -/
def getTopic (id : String) : Access Topic := get .topic TopicRow.decode? id

/-- A page of the topics, in ascending order of identifiers. -/
def listTopics (offset limit : UInt32) : Access (List Topic) :=
  listPage TopicRow.decode? (fun _ => true) offset limit

def deleteTopic (id : String) : Access Unit := delete TopicRow .topic id

def createSubscription (s : Subscription) : Access Unit :=
  insert .subscription (SubscriptionRow.ofSubscription s)

/-- The subscription with an identifier. -/
def getSubscription (id : String) : Access Subscription :=
  get .subscription SubscriptionRow.decode? id

/-- A page of the subscriptions, in ascending order of identifiers. -/
def listSubscriptions (offset limit : UInt32) : Access (List Subscription) :=
  listPage SubscriptionRow.decode? (fun _ => true) offset limit

/-- A page of the subscriptions of a topic, in ascending order of identifiers. -/
def listTopicSubscriptions (topicId : String) (offset limit : UInt32) :
    Access (List Subscription) :=
  listPage SubscriptionRow.decode? (fun s => s.topicId = topicId) offset limit

def deleteSubscription (id : String) : Access Unit := delete SubscriptionRow .subscription id

end MessageBroker.Store

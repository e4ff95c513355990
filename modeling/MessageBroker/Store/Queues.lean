import MessageBroker.Store.Basic

/-! # Stored queues

Access to queues and to their backlogs. A queue and its messages are independent: deleting a queue
leaves its messages, `purge` and `cleanup` delete messages and leave the queue. -/

namespace MessageBroker.Store

def createQueue (q : Queue) : Access Unit := insert .queue (QueueRow.ofQueue q)

/-- The queue with an identifier. -/
def getQueue (id : String) : Access Queue := get .queue QueueRow.decode? id

/-- A page of the queues, in ascending order of identifiers. -/
def listQueues (offset limit : UInt32) : Access (List Queue) :=
  listPage QueueRow.decode? (fun _ => true) offset limit

/-- The replacement of everything but the identifier of a queue. -/
def updateQueue (q : Queue) : Access Unit := do
  let affected ← statement (.ofRecord .queue q.id) fun rules rows =>
    updateRows rules (fun r : QueueRow => r.id = q.id) (fun _ => .ofQueue q) rows
  requireAffected (.notFound .queue q.id) affected

def deleteQueue (id : String) : Access Unit := delete QueueRow .queue id

/-- The visible rows of a queue. -/
def visibleRows (id : String) (now : Instant) (rows : List MessageRow) : List MessageRow :=
  rows.filter fun r => r.queueId = id && r.isVisible now

/-- The backlog of a queue: how many of its messages are visible, and the age of the oldest. -/
def queueStats (id : String) (now : Instant) : Access QueueStats := do
  let count ← select .plain fun rows => .ok (visibleRows id now rows).length
  if count = 0 then return .zero
  else
    let oldest ← select .plain fun rows =>
      match (visibleRows id now rows).mergeSort fun a b => Text.le a.createdAt b.createdAt with
      | [] => .ok none
      | r :: _ => (decoded (Instant.read? r.createdAt)).map some
    return ⟨count, (oldest.map now.secondsSince).getD 0⟩

/-- The removal of all messages of a queue, and how many they were. -/
def purge (id : String) : Access Nat :=
  statement .plain fun rules rows => deleteRows rules (fun r : MessageRow => r.queueId = id) rows

/-- The removal of the expired messages of a queue, and how many they were. -/
def cleanup (id : String) (now : Instant) : Access Nat :=
  statement .plain fun rules rows =>
    deleteRows rules (fun r : MessageRow => r.queueId = id && r.isExpired now) rows

end MessageBroker.Store

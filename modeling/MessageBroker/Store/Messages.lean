import MessageBroker.Store.Queues

/-! # Stored messages

Access to single messages, and the lease. A lease has two steps, between which others may change the
store: it reads candidates, and it claims them in one transaction. A claim succeeds only if the
message is still visible and has the number of attempts that was read, so no two leases are granted
the same attempt. -/

namespace MessageBroker.Store

def createMessage (m : Message) : Access Unit := do
  connect
  insert .message (MessageRow.ofMessage m)

/-- New messages, all of them or none. -/
def createMessages (ms : List Message) : Access Unit :=
  if ms.isEmpty then pure ()
  else transaction (ms.forM fun m => insert .message (MessageRow.ofMessage m))

/-- The message with an identifier. -/
def getMessage (id : String) : Access Message := get .message MessageRow.decode? id

/-- All messages, in ascending order of identifiers. -/
def allMessages : Access (List Message) :=
  select .plain fun rows => (sortedById rows).mapM fun r => decoded (MessageRow.decode? r)

/-! ### Leases -/

/-- The order in which messages are leased: those first that became visible first. -/
def leaseOrder (a b : MessageRow) : Bool :=
  if a.scheduledAt = b.scheduledAt then Text.le a.id b.id else Text.le a.scheduledAt b.scheduledAt

/-- Whether a message has the label asked for, if one is. -/
def MessageRow.hasLabel (r : MessageRow) : Option String → Bool
  | none => true
  | some label => r.label = some label

/-- The messages that a lease may take, as they are stored. -/
def candidates (queueId : String) (label : Option String) (limit : UInt32) (now : Instant) :
    Access (List Message) :=
  select .plain fun rows =>
    let visible := (visibleRows queueId now rows).filter fun r => r.hasLabel label
    ((visible.mergeSort leaseOrder).take limit.toNat).mapM fun r => decoded r.decode?

/-- The claim of one candidate: the number of rows updated, at most one. -/
def claim (q : Queue) (now : Instant) (candidate : Message) : Access Nat :=
  let renewed := candidate.leaseRenew q now
  statement .plain fun rules rows =>
    updateMessageRow rules candidate.id
      (fun r => r.deliveryAttempts = .ofWord candidate.deliveryAttempts && r.isVisible now)
      (fun r => { r with
        deliveryAttempts := .ofWord renewed.deliveryAttempts
        scheduledAt := renewed.scheduledAt.stored
        updatedAt := renewed.updatedAt.stored })
      rows

/-- The claims of candidates, in order: those that succeeded, as leased. -/
def claimEach (q : Queue) (now : Instant) : List Message → Access (List Message)
  | [] => pure []
  | m :: rest => do
    let affected ← claim q now m
    let leased ← claimEach q now rest
    return if affected = 1 then m.leaseRenew q now :: leased else leased

/-- The claims of candidates, all of them recorded or none. -/
def claimAll (q : Queue) (now : Instant) (ms : List Message) : Access (List Message) :=
  if ms.isEmpty then pure [] else transaction (claimEach q now ms)

/-- Up to `limit` visible messages of a queue, with a label if one is given, each hidden from now on
for the queue's ack deadline. -/
def lease (q : Queue) (label : Option String) (limit : UInt32) (now : Instant) :
    Access (List Message) :=
  if limit = 0 then pure []
  else do
    let ms ← candidates q.id label limit now
    claimAll q now ms

/-! ### Acknowledgement -/

/-- The replacement of the attempts and instants of a stored message by those of `m`. -/
def updateMessage (m : Message) : Access Unit := do
  let affected ← statement (.ofRecord .message m.id) fun rules rows =>
    updateMessageRow rules m.id (fun _ => true)
      (fun r => { r with
        deliveryAttempts := .ofWord m.deliveryAttempts
        expiredAt := m.expiredAt.stored
        scheduledAt := m.scheduledAt.stored
        updatedAt := m.updatedAt.stored })
      rows
  requireAffected (.notFound .message m.id) affected

/-- The acknowledgement of a message, which expires it. -/
def ack (id : String) (now : Instant) : Access Unit := do
  let m ← getMessage id
  updateMessage (m.ack now)

/-- The return of a message to its queue, visible after a timeout. -/
def nack (id : String) (visibilityTimeoutSeconds : UInt32) (now : Instant) : Access Unit := do
  let m ← getMessage id
  updateMessage (m.nack now visibilityTimeoutSeconds)

end MessageBroker.Store

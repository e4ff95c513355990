import MessageBroker.Identifier
import MessageBroker.Metrics
import MessageBroker.Store.Operation

/-! # The broker

A broker is a store together with its source of identifiers, the number of those issued, and its
counters. An action of the broker answers a result or an error together with the broker as it is
then. -/

namespace MessageBroker

/-- The state of a broker. -/
structure Broker where
  store : Store
  /-- The source of the identifiers of messages. -/
  source : Identifier.Source
  /-- The number of identifiers issued so far. -/
  issued : Nat
  metrics : Metrics
  /-- The greatest number of messages that a request can lease at once. -/
  maxLease : UInt32

namespace Broker

/-- The broker on a store, with nothing issued or counted. -/
def start (source : Identifier.Source) (store : Store) (maxLease : UInt32) : Broker :=
  ⟨store, source, 0, .zero, maxLease⟩

/-- A computation of a broker. -/
abbrev Action (α : Type) : Type := ExceptT Error (StateM Broker) α

/-- The answer of an action, and the broker after it. -/
def Action.on {α : Type} (action : Action α) (b : Broker) : Except Error α × Broker := action b

/-- An access to the broker's store. -/
def access {α : Type} (a : Store.Access α) : Action α := fun b =>
  let (answer, store) := a.on b.store
  (answer, { b with store })

/-- A check that needs no state. -/
def check (result : Except Error Unit) : Action Unit := fun b => (result, b)

/-- An identifier that was not issued before. -/
def newId : Action String := fun b =>
  (.ok (b.source.issue b.issued), { b with issued := b.issued + 1 })

/-- A change of the counters. -/
def count (change : Metrics → Metrics) : Action Unit := fun b =>
  (.ok (), { b with metrics := change b.metrics })

end Broker

end MessageBroker

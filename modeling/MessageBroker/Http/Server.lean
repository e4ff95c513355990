import MessageBroker.Http.Request
import MessageBroker.Http.Response

/-! # Serving requests

`serve` answers a request at an instant and counts it. A request that no endpoint serves, or that
cannot be read, leaves the store as it is. -/

namespace MessageBroker.Http

open Broker (Call)

/-- The answer of an action to a call. -/
def answer (call : Call) (now : Instant) : Broker.Action Response := do
  return .ofResult call (← Broker.perform now call)

/-- The answer to a request, and the broker after it, before the request is counted. -/
def respond (r : Request) (now : Instant) (b : Broker) : Response × Broker :=
  match r.endpoint? with
  | none => (.unmatched, b)
  | some (endpoint, parameters) =>
    match r.call b.maxLease parameters endpoint with
    | .error e => (.ofError e, b)
    | .ok call =>
      match (answer call now).on b with
      | (.ok response, b) => (response, b)
      | (.error e, b) => (.ofError e, b)

/-- The answer to a request, and the broker after it. -/
def serve (r : Request) (now : Instant) (b : Broker) : Response × Broker :=
  let (response, b) := respond r now b
  (response, { b with metrics := b.metrics.addRequest ⟨r.method, r.routeName, response.status⟩ })

end MessageBroker.Http

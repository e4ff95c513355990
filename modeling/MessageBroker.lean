import MessageBroker.Http.Gateway
import MessageBroker.Main
import MessageBroker.Transition
import MessageBroker.Proofs.Broker.Publish
import MessageBroker.Proofs.Store.Chronology
import MessageBroker.Proofs.Store.Cleanup
import MessageBroker.Proofs.Store.Delivery
import MessageBroker.Proofs.Store.Independence
import MessageBroker.Proofs.Store.Interleaving
import MessageBroker.Proofs.Store.ReadBack
import MessageBroker.Proofs.Store.Redelivery
import MessageBroker.Proofs.Http.Query
import MessageBroker.Proofs.Http.Route
import MessageBroker.Proofs.Json.Record
import MessageBroker.Proofs.Http.Body
import MessageBroker.Proofs.Http.Refinement
import MessageBroker.Proofs.Broker.Effect
import MessageBroker.Proofs.Broker.Invariant
import MessageBroker.Proofs.Validation
import MessageBroker.Proofs.Http.Run
import MessageBroker.Proofs.Broker.Readable
import MessageBroker.Proofs.Http.Integrity
import MessageBroker.Proofs.Store.Refusal
import MessageBroker.Proofs.Broker.Refusal
import MessageBroker.Proofs.Store.Counting
import MessageBroker.Proofs.Http.Accounting
import MessageBroker.Proofs.Store.PendingUpdates
import MessageBroker.Proofs.Http.Confinement
import MessageBroker.Proofs.Database.Reopening
import MessageBroker.Proofs.Store.Batch
import MessageBroker.Proofs.Store.Census
import MessageBroker.Proofs.Store.Draining
import MessageBroker.Proofs.Store.Contention
import MessageBroker.Proofs.Store.Paging
import MessageBroker.Proofs.Store.Filters
import MessageBroker.Proofs.Validation.FirstFailure
import MessageBroker.Proofs.Config.Loading

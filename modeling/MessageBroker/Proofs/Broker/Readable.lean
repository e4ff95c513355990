import MessageBroker.Proofs.Broker.Invariant
import MessageBroker.Proofs.Store.ReadBack

/-! # Readable brokers

Every entity whose instants are representable is read back. Calls at instants within the years 0 to
9999 compute no others, so they carry this law (`carries_readable`). -/

namespace MessageBroker

open Fallible

/-- All instants are representable. -/
def readable : Law where
  queue q := ∀ t ∈ q.instants, t.IsRepresentable
  message m := ∀ t ∈ m.instants, t.IsRepresentable
  topic t := ∀ i ∈ t.instants, i.IsRepresentable
  subscription x := ∀ t ∈ x.instants, t.IsRepresentable
  readQueue h := Store.QueueRow.readBack _ h
  readMessage h := Store.MessageRow.decode?_ofMessage_of_isRepresentable h
  readTopic h := Store.TopicRow.readBack _ h
  readSubscription h := Store.SubscriptionRow.readBack _ h

/-- **Calls within the years 0 to 9999 keep entities readable.** -/
theorem carries_readable {now : Instant} (hnow : now.HasFourDigitYear) :
    readable.Carries readable now := by
  have hrepresentable := hnow.isRepresentable
  constructor
  case toImplies => exact readable.implies_refl
  case createQueue =>
    intro q _
    simp [readable, Queue.instants, hrepresentable]
  case updateQueue =>
    intro q stored _ hstored
    simp only [readable, Queue.instants, List.forall_mem_cons] at hstored ⊢
    exact ⟨hstored.1, hrepresentable, fun _ h => absurd h List.not_mem_nil⟩
  case createTopic =>
    intro t _
    simp [readable, Topic.instants, hrepresentable]
  case createSubscription =>
    intro x _
    simp [readable, Subscription.instants, hrepresentable]
  case enqueue =>
    intro c _ q _ id
    simp [readable, Message.instants, Message.enqueue, hrepresentable,
      hnow.isRepresentable_addSeconds]
  case leaseRenew =>
    intro m hm q _
    simp only [readable, Message.instants, List.forall_mem_cons] at hm ⊢
    exact ⟨hm.1, hnow.isRepresentable_addSeconds _, hm.2.2.1, hrepresentable, hm.2.2.2.2⟩
  case ack =>
    intro m hm
    simp only [readable, Message.instants, List.forall_mem_cons] at hm ⊢
    exact ⟨hrepresentable, hm.2.1, hm.2.2.1, hrepresentable, hm.2.2.2.2⟩
  case nack =>
    intro m hm timeout
    simp only [readable, Message.instants, List.forall_mem_cons] at hm ⊢
    exact ⟨hm.1, hnow.isRepresentable_addSeconds _, hm.2.2.1, hrepresentable, hm.2.2.2.2⟩

end MessageBroker

import MessageBroker.Proofs.Http.Run
import MessageBroker.Proofs.Store.Counting

/-! # Counters match the store

A call that succeeds has a turnover in every queue: the messages that it enqueued, leased and
removed there. Counters and rows change by it (`Effect.accounts`), and a call that fails has none.
So after a run the counters have grown by the turnover of its interactions (`accounts_afterAll`).
Whatever is removed is missing from the rows, not from the counters. If nothing is, then the rows of
a queue are as many as were enqueued, and their attempts add up to the messages leased, unless a
message was leased more often than its row can say. Together: `counters_match_the_store`. -/

namespace MessageBroker

open Store (attemptsOf depth)

/-! ### Turnover -/

/-- What was done with the messages of a queue. -/
structure Turnover where
  /-- How many messages were made. -/
  enqueued : Nat := 0
  /-- How many times a message was leased. -/
  leased : Nat := 0
  /-- How many of these times were one more than its row can say, which starts again from none. -/
  recounted : Nat := 0
  /-- How many messages a purge or cleanup deleted. -/
  removed : Nat := 0

/-- What was done in two parts. -/
def Turnover.add (t t' : Turnover) : Turnover :=
  ⟨t.enqueued + t'.enqueued, t.leased + t'.leased, t.recounted + t'.recounted,
    t.removed + t'.removed⟩

namespace Broker

/-- What a call that ended with a result did with the messages of a queue. -/
def Call.turnover (queueId : String) : Call → Store.Result → Turnover
  | .createMessage .., .message m => { enqueued := if m.queueId = queueId then 1 else 0 }
  | .publish .., .messages ms => { enqueued := ms.countP (·.queueId = queueId) }
  | .lease id .., .messages ms =>
    if id = queueId then
      { leased := ms.length, recounted := ms.countP (·.deliveryAttempts = 0) }
    else {}
  | .purge id, .count n | .cleanup id, .count n => { removed := if id = queueId then n else 0 }
  | _, _ => {}

end Broker

/-- What an interaction did with the messages of a queue, through a call that succeeded. -/
def Interaction.turnover (queueId : String) (b : Broker) (i : Interaction) : Turnover :=
  match i.call? b.maxLease, i.answer? b with
  | some c, some (.ok result) => c.turnover queueId result
  | _, _ => {}

namespace Broker

open Fallible

/-- What the interactions of a run did with the messages of a queue. -/
def turnover (queueId : String) : Broker → List Interaction → Turnover
  | _, [] => {}
  | b, i :: run => (i.turnover queueId b).add (turnover queueId (i.after b) run)

/-! ### Accounts -/

/-- The counters and the rows of a queue change as a turnover says. -/
structure Accounts (queueId : String) (t : Turnover) (b b' : Broker) : Prop where
  enqueued : b'.metrics.enqueued.count queueId = b.metrics.enqueued.count queueId + t.enqueued
  leased : b'.metrics.leased.count queueId = b.metrics.leased.count queueId + t.leased
  depth : depth queueId b'.store.messages + t.removed =
    depth queueId b.store.messages + t.enqueued
  attempts : t.removed = 0 → attemptsOf queueId b'.store.messages + 2 ^ 32 * t.recounted =
    attemptsOf queueId b.store.messages + t.leased

section Accounts

variable {b b' b'' : Broker} {queueId : String} {t t' : Turnover}

theorem Accounts.trans (h : Accounts queueId t b b') (h' : Accounts queueId t' b' b'') :
    Accounts queueId (t.add t') b b'' := by
  have hdepth := h.depth
  have hdepth' := h'.depth
  constructor
  case enqueued => rw [h'.enqueued, h.enqueued, Turnover.add, Nat.add_assoc]
  case leased => rw [h'.leased, h.leased, Turnover.add, Nat.add_assoc]
  case depth =>
    simp only [Turnover.add]
    omega
  case attempts =>
    intro hnone
    simp only [Turnover.add, Nat.add_eq_zero_iff] at hnone ⊢
    have hattempts := h.attempts hnone.1
    have hattempts' := h'.attempts hnone.2
    omega

theorem accounts_of_eq (hmessages : b'.store.messages = b.store.messages)
    (henqueued : b'.metrics.enqueued = b.metrics.enqueued)
    (hleased : b'.metrics.leased = b.metrics.leased) (queueId : String) :
    Accounts queueId {} b b' := by
  constructor <;> simp [hmessages, henqueued, hleased]

theorem Accounts.withRequests (h : Accounts queueId t b b') (requests : Tally RequestKind) :
    Accounts queueId t b (b'.withRequests requests) :=
  ⟨h.enqueued, h.leased, h.depth, h.attempts⟩

/-! ### Calls -/

variable {now : Instant} {call : Call} {result : Store.Result}

theorem Call.turnover_of_onlyReads (h : call.onlyReads = true) (result : Store.Result)
    (queueId : String) : call.turnover queueId result = {} := by
  cases call <;> first | rfl | cases h

theorem count_foldl_addEnqueued (ms : List Message) (metrics : Metrics) (queueId : String) :
    (ms.foldl (fun metrics copy => metrics.addEnqueued copy.queueId) metrics).enqueued.count
      queueId = metrics.enqueued.count queueId + ms.countP (·.queueId = queueId) := by
  induction ms generalizing metrics with
  | nil => rfl
  | cons m ms ih =>
    rw [List.foldl_cons, ih, List.countP_cons, Metrics.addEnqueued, Tally.count_add]
    simp only [decide_eq_true_eq]
    omega

theorem leased_foldl_addEnqueued (ms : List Message) (metrics : Metrics) :
    (ms.foldl (fun metrics copy => metrics.addEnqueued copy.queueId) metrics).leased =
      metrics.leased := by
  induction ms generalizing metrics with
  | nil => rfl
  | cons m ms ih => exact ih _

theorem Enqueues.deliveryAttempts_eq {c : MessageContent} {ms : List Message}
    (h : Enqueues (.ofContent c) now b ms) : ∀ m ∈ ms, m.deliveryAttempts = 0 := by
  intro m hm
  obtain ⟨q, -, hcopy⟩ := h.enqueued m hm
  rw [hcopy]
  rfl

theorem accounts_of_addMessages {c : MessageContent} {ms : List Message}
    (h : Enqueues (.ofContent c) now b ms)
    (hmessages : b'.store.messages = (b.store.addMessages ms).messages)
    (henqueued : ∀ queueId, b'.metrics.enqueued.count queueId =
      b.metrics.enqueued.count queueId + ms.countP (·.queueId = queueId))
    (hleased : b'.metrics.leased = b.metrics.leased) (queueId : String) :
    Accounts queueId { enqueued := ms.countP (·.queueId = queueId) } b b' := by
  constructor
  case enqueued => exact henqueued queueId
  case leased => rw [hleased]; rfl
  case depth => rw [hmessages]; exact Store.depth_addMessages b.store ms queueId
  case attempts =>
    intro _
    rw [hmessages]
    exact Store.attemptsOf_addMessages b.store h.deliveryAttempts_eq queueId

/-- Messages of a queue that are removed. -/
theorem accounts_of_removal {selected : Store.MessageRow → Bool} {id : String}
    (hselected : ∀ r, selected r = true → r.queueId = id) (b : Broker) (queueId : String) :
    Accounts queueId { removed := if id = queueId then b.store.messages.countP selected else 0 } b
      { b with store.messages := b.store.messages.filter fun r => !selected r } :=
  ⟨rfl, rfl, Store.depth_removal hselected b.store.messages queueId,
    fun hnone => Store.attemptsOf_removal hselected hnone⟩

theorem accounts_of_rewritten (hb : b.store.Keyed) {r₀ : Store.MessageRow}
    (hr₀ : r₀ ∈ b.store.messages) {m : Message}
    (hattempts : r₀.deliveryAttempts = .ofWord m.deliveryAttempts) (queueId : String) :
    Accounts queueId {} b { b with store.messages := b.store.messages.map fun r =>
      if r.id = r₀.id then r.rewritten m else r } :=
  ⟨rfl, rfl, Store.depth_rewritten b.store.messages r₀.id m queueId,
    fun _ => hb.attemptsOf_rewritten hr₀ hattempts queueId⟩

theorem accounts_of_lease (hb : b.store.Keyed) {q : Queue} {ms : List Message}
    (hids : (ms.map Message.id).Nodup)
    (hread : ∀ m ∈ ms, ∃ r ∈ b.store.messages, r.decode? = some m ∧ r.queueId = q.id ∧
      r.isVisible now = true) (label : Option String) (limit : UInt32) (queueId : String) :
    Accounts queueId
      ((Call.lease q.id label limit).turnover queueId (.messages (ms.map (·.leaseRenew q now)))) b
      { b with
        store.messages := Store.claimedRows q now ms b.store.messages
        metrics := b.metrics.addLeased q.id ms.length } := by
  have hclaimable : ∀ m ∈ ms, ∃ r ∈ b.store.messages, r.isClaimable now m = true ∧
      r.queueId = q.id := by
    intro m hm
    obtain ⟨r, hr, hdecode, hqueue, hvisible⟩ := hread m hm
    obtain ⟨hid, -, -, -, hattempts⟩ := Store.MessageRow.decode?_eq_some hdecode
    exact ⟨r, hr, Store.MessageRow.isClaimable_iff.mpr ⟨hid.symm, hattempts, hvisible⟩, hqueue⟩
  have hcount := Tally.count_add b.metrics.leased q.id queueId ms.length
  have hdepth := Store.depth_claimedRows q now ms b.store.messages queueId
  have hattempts := hb.attemptsOf_claimedRows hids hclaimable queueId
  have hrecounted : (ms.map (·.leaseRenew q now)).countP (·.deliveryAttempts = 0) =
      ms.countP fun m => m.deliveryAttempts + 1 = 0 := List.countP_map
  rw [Call.turnover]
  split_ifs at hcount hattempts ⊢
  · rw [List.length_map, hrecounted]
    exact ⟨rfl, hcount, hdepth, fun _ => hattempts⟩
  · exact ⟨rfl, hcount, hdepth, fun _ => hattempts⟩

/-- **Counters and rows change by the turnover of a call.** -/
theorem Effect.accounts (h : Effect now b call result b') (hb : b.store.Keyed) (queueId : String) :
    Accounts queueId (call.turnover queueId result) b b' := by
  cases h with
  | read hreads =>
    rw [Call.turnover_of_onlyReads hreads]
    exact accounts_of_eq rfl rfl rfl queueId
  | purge id => exact accounts_of_removal (fun r hr => of_decide_eq_true hr) b queueId
  | cleanup id =>
    refine accounts_of_removal (fun r hr => ?_) b queueId
    exact of_decide_eq_true (Bool.and_eq_true_iff.mp hr).1
  | @createMessage _ _ m hbody hm =>
    have hcount : [m].countP (·.queueId = queueId) = if m.queueId = queueId then 1 else 0 := by
      simp [List.countP_singleton]
    rw [Call.turnover, ← hcount]
    refine accounts_of_addMessages hm ?_ ?_ ?_ queueId
    · rfl
    · exact count_foldl_addEnqueued [m] b.metrics
    · exact leased_foldl_addEnqueued [m] b.metrics
  | publish hbody hms =>
    exact accounts_of_addMessages hms rfl (count_foldl_addEnqueued _ b.metrics)
      (leased_foldl_addEnqueued _ b.metrics) queueId
  | lease hq hids hread => exact accounts_of_lease hb hids hread _ _ queueId
  | @ack _ m hr₀ hdecode =>
    have hattempts := (Store.MessageRow.decode?_eq_some hdecode).2.2.2.2
    exact accounts_of_rewritten hb hr₀ (m := m.ack now) hattempts queueId
  | @nack _ m hr₀ hdecode timeout =>
    have hattempts := (Store.MessageRow.decode?_eq_some hdecode).2.2.2.2
    exact accounts_of_rewritten hb hr₀ (m := m.nack now timeout) hattempts queueId
  | _ => refine accounts_of_eq ?_ ?_ ?_ queueId <;> rfl

end Accounts

/-! ### Runs -/

section Runs

variable {b : Broker}

/-- **An interaction whose call does not succeed changes no counter and no row.** -/
theorem turnover_of_not_ok {i : Interaction}
    (h : ∀ result, i.answer? b ≠ some (.ok result)) (queueId : String) :
    i.turnover queueId b = {} := by
  unfold Interaction.turnover
  split
  · next hok => exact absurd hok (h _)
  · rfl

theorem accounts_after (hb : b.store.Keyed) (i : Interaction) (queueId : String) :
    Accounts queueId (i.turnover queueId b) b (i.after b) := by
  rcases i.after_cases hb with
    ⟨c, result, b', requests, hcall, hanswer, heffect, hafter⟩ | ⟨n, requests, hanswer, hafter⟩
  · have hturnover : i.turnover queueId b = c.turnover queueId result := by
      simp only [Interaction.turnover, Interaction.answer?, hcall, Option.map_some, hanswer]
    rw [hturnover, hafter]
    exact (heffect.accounts hb queueId).withRequests requests
  · rw [turnover_of_not_ok hanswer, hafter]
    refine accounts_of_eq ?_ ?_ ?_ queueId <;> rfl

/-- **Counters and rows change by the turnover of a run.** -/
theorem accounts_afterAll (hb : b.Consistent) (run : List Interaction) (queueId : String) :
    Accounts queueId (b.turnover queueId run) b (b.afterAll run) := by
  induction run generalizing b with
  | nil => exact accounts_of_eq rfl rfl rfl queueId
  | cons i run ih => exact (accounts_after hb.toKeyed i queueId).trans (ih (hb.after i))

end Runs

/-- **Counters match the store.** Whatever calls and requests reach a broker whose store was empty,
the counters of a queue grow by as many messages as were made for it and leased from it, and by none
if a call fails. If no purge or cleanup has removed any of its messages, then as many are stored as
were made, and their attempts add up to the messages leased; except that a message that was leased
2^32 times has its attempts counted again from none. -/
theorem counters_match_the_store {b₀ : Broker} (hempty : b₀.store = .empty)
    (run : List Interaction) (queueId : String) :
    let b := b₀.afterAll run
    let t := b₀.turnover queueId run
    b.metrics.enqueued.count queueId = b₀.metrics.enqueued.count queueId + t.enqueued ∧
    b.metrics.leased.count queueId = b₀.metrics.leased.count queueId + t.leased ∧
    (∀ earlier i later, run = earlier ++ i :: later →
      let before := b₀.afterAll earlier
      (∀ result, i.answer? before ≠ some (.ok result)) →
        (i.after before).metrics.enqueued.count queueId = before.metrics.enqueued.count queueId ∧
        (i.after before).metrics.leased.count queueId = before.metrics.leased.count queueId) ∧
    (t.removed = 0 →
      t.enqueued = depth queueId b.store.messages ∧
      t.leased = attemptsOf queueId b.store.messages + 2 ^ 32 * t.recounted ∧
      (t.leased < 2 ^ 32 → t.leased = attemptsOf queueId b.store.messages)) := by
  intro b t
  have hconsistent := consistent_of_empty hempty
  have haccounts : Accounts queueId t b₀ b := accounts_afterAll hconsistent run queueId
  refine ⟨haccounts.enqueued, haccounts.leased, ?_, fun hnone => ?_⟩
  · intro earlier i later _ before hfailed
    have hbefore := (hconsistent.afterAll earlier).toKeyed
    have hstep := accounts_after hbefore i queueId
    rw [turnover_of_not_ok hfailed] at hstep
    exact ⟨hstep.enqueued, hstep.leased⟩
  · have hdepth := haccounts.depth
    have hattempts := haccounts.attempts hnone
    have hstart : depth queueId b₀.store.messages = 0 := by rw [hempty]; rfl
    have hstart' : attemptsOf queueId b₀.store.messages = 0 := by rw [hempty]; rfl
    rw [hstart] at hdepth
    rw [hstart'] at hattempts
    refine ⟨by omega, by omega, fun hlt => by omega⟩

/-- A message is made, and leased by a request. Another is made for a queue that does not exist. -/
def leasedRun : List Interaction :=
  [.call ⟨1⟩ (.createQueue ⟨"q", 30, 60, 0, .epoch, .epoch⟩),
    .call ⟨2⟩ (.createMessage "q" ⟨none, "body", ∅⟩),
    .request ⟨3⟩ ⟨"GET", "/v1/queues/q/messages", []⟩,
    .call ⟨4⟩ (.createMessage "other" ⟨none, "body", ∅⟩)]

/-- The message has one attempt, as was counted. -/
theorem leasedRun_attempts : ((start .serials .empty 2).turnover "q" leasedRun).removed = 0 ∧
    ((start .serials .empty 2).afterAll leasedRun).metrics.leased.count "q" = 1 ∧
    attemptsOf "q" ((start .serials .empty 2).afterAll leasedRun).store.messages = 1 := by
  have hempty : (start .serials .empty 2).store = .empty := rfl
  have hnone : ((start .serials .empty 2).turnover "q" leasedRun).removed = 0 := by decide +kernel
  have hone : ((start .serials .empty 2).turnover "q" leasedRun).leased = 1 := by decide +kernel
  obtain ⟨-, hleased, -, hstored⟩ := counters_match_the_store hempty leasedRun "q"
  obtain ⟨-, -, hattempts⟩ := hstored hnone
  rw [hone] at hleased hattempts
  exact ⟨hnone, hleased, (hattempts (by decide)).symm⟩

end Broker

end MessageBroker

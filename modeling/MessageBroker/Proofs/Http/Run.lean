import MessageBroker.Http.Gateway
import MessageBroker.Proofs.Broker.Readable
import MessageBroker.Proofs.Http.Refinement

/-! # Runs of a broker

A run is a list of interactions, each of which is a call or a request at an instant. Except for the
count of requests, an interaction leaves the broker as the call that it makes does, if it makes one
(`Interaction.exists_after`). So it has the effect of this call, or at most issues identifiers
(`Interaction.after_cases`), and a run leaves a consistent broker consistent
(`Consistent.afterAll`). -/

namespace MessageBroker

open Broker (Call)
open Fallible

/-! ### Requests -/

namespace Http

/-- The call that a request makes, if it makes one. -/
def Request.call? (r : Request) (most : UInt32) : Option Call :=
  match r.endpoint? with
  | none => none
  | some (endpoint, parameters) => (r.call most parameters endpoint).toOption

/-- What answers a call that ended with a result or an error. -/
def Response.ofAnswer (call : Call) : Except Error Store.Result → Response
  | .ok result => .ofResult call result
  | .error e => .ofError e

variable {r : Request} {b : Broker}

theorem Request.exists_of_call? {most : UInt32} {c : Call} (h : r.call? most = some c) :
    ∃ endpoint parameters, r.endpoint? = some (endpoint, parameters) ∧
      r.call most parameters endpoint = .ok c := by
  unfold call? at h
  split at h
  · cases h
  · next endpoint parameters hfound =>
    refine ⟨endpoint, parameters, hfound, ?_⟩
    cases hcall : r.call most parameters endpoint with
    | ok c' => rw [hcall] at h; rw [Option.some.inj h]
    | error e => rw [hcall] at h; cases h

theorem serve_of_call? (now : Instant) {c : Call} (h : r.call? b.maxLease = some c) :
    let (answer, b') := (Broker.perform now c).on b
    serve r now b = (.ofAnswer c answer, r.counted (Response.ofAnswer c answer).status b') := by
  obtain ⟨endpoint, parameters, hfound, hcall⟩ := Request.exists_of_call? h
  have hrespond := respond_of_call now hfound hcall
  rcases hperform : (Broker.perform now c).on b with ⟨e | result, b'⟩ <;>
    rw [hperform] at hrespond <;> exact serve_of_respond hrespond

theorem serve_of_no_call (now : Instant) (h : r.call? b.maxLease = none) :
    ∃ response, serve r now b = (response, r.counted response.status b) := by
  unfold Request.call? at h
  split at h
  · next hfound =>
    have hrespond : respond r now b = (.unmatched, b) := by rw [respond, hfound]
    exact ⟨_, serve_of_respond hrespond⟩
  · next endpoint parameters hfound =>
    cases hcall : r.call b.maxLease parameters endpoint with
    | ok c => rw [hcall] at h; cases h
    | error e =>
      have hrespond : respond r now b = (.ofError e, b) := by
        rw [respond, hfound]
        simp only [hcall]
      exact ⟨_, serve_of_respond hrespond⟩

end Http

/-! ### Interactions -/

/-- What reaches a broker at an instant: a call, a request, or a request from outside. -/
inductive Interaction
  | call (now : Instant) (c : Call)
  | request (now : Instant) (r : Http.Request)
  | arrival (now : Instant) (a : Http.Arrival)

namespace Interaction

/-- When an interaction takes place. -/
def now : Interaction → Instant
  | call now _ | request now _ | arrival now _ => now

/-- The call that an interaction makes, if it makes one. -/
def call? (most : UInt32) : Interaction → Option Call
  | call _ c => some c
  | request _ r => r.call? most
  | arrival _ a => if a.isInquiry then none else a.request.tidy.call? most

/-- The broker after an interaction. -/
def after (b : Broker) : Interaction → Broker
  | call now c => ((Broker.perform now c).on b).2
  | request now r => (Http.serve r now b).2
  | arrival now a => (Http.receive a now b).2

/-- What the call that an interaction makes ends with. -/
def answer? (b : Broker) (i : Interaction) : Option (Except Error Store.Result) :=
  (i.call? b.maxLease).map fun c => ((Broker.perform i.now c).on b).1

end Interaction

namespace Broker

/-- The broker with other counts of requests. -/
def withRequests (b : Broker) (requests : Tally RequestKind) : Broker :=
  { b with metrics.requests := requests }

/-- The broker after interactions in order. -/
def afterAll (b : Broker) (run : List Interaction) : Broker := run.foldl Interaction.after b

theorem afterAll_append (b : Broker) (run run' : List Interaction) :
    b.afterAll (run ++ run') = (b.afterAll run).afterAll run' := List.foldl_append

end Broker

namespace Interaction

variable {b : Broker}

theorem exists_serve (r : Http.Request) (now : Instant) (b : Broker) :
    ∃ requests, (Http.serve r now b).2 = (match r.call? b.maxLease with
      | none => b
      | some c => ((Broker.perform now c).on b).2).withRequests requests := by
  cases hcall : r.call? b.maxLease with
  | none =>
    obtain ⟨response, hserve⟩ := Http.serve_of_no_call now hcall
    rw [hserve]
    exact ⟨_, rfl⟩
  | some c =>
    have hserve := Http.serve_of_call? now hcall
    rw [hserve]
    exact ⟨_, rfl⟩

/-- **An interaction leaves the broker as its call does**, except for the count of requests. -/
theorem exists_after (i : Interaction) (b : Broker) :
    ∃ requests, i.after b = (match i.call? b.maxLease with
      | none => b
      | some c => ((Broker.perform i.now c).on b).2).withRequests requests := by
  cases i with
  | call now c => exact ⟨_, rfl⟩
  | request now r => exact exists_serve r now b
  | arrival now a =>
    rw [after, Http.receive, call?]
    split_ifs
    · exact ⟨b.metrics.requests, rfl⟩
    · exact exists_serve a.request.tidy now b

/-- **An interaction has the effect of its call**, or changes no rows and issues at most
identifiers. -/
theorem after_cases (hb : b.store.Keyed) (i : Interaction) :
    (∃ c result b' requests, i.call? b.maxLease = some c ∧
      ((Broker.perform i.now c).on b).1 = .ok result ∧ Broker.Effect i.now b c result b' ∧
      i.after b = b'.withRequests requests) ∨
    ∃ n requests, (∀ result, i.answer? b ≠ some (.ok result)) ∧
      i.after b = (b.issue n).withRequests requests := by
  obtain ⟨requests, hafter⟩ := i.exists_after b
  cases hcall : i.call? b.maxLease with
  | none =>
    right
    rw [hcall] at hafter
    refine ⟨0, requests, fun result => ?_, hafter⟩
    simp [answer?, hcall]
  | some c =>
    rw [hcall] at hafter
    rcases Broker.perform_cases i.now hb c with ⟨result, hok, heffect⟩ | ⟨e, n, herror⟩
    · left
      exact ⟨c, result, _, requests, rfl, hok, heffect, hafter⟩
    · right
      simp only [herror] at hafter
      refine ⟨n, requests, fun result => ?_, hafter⟩
      simp [answer?, hcall, herror]

end Interaction

/-! ### Runs -/

namespace Broker

variable {b b' : Broker} {now : Instant} {call : Call} {result : Store.Result}

theorem Effect.maxLease (h : Effect now b call result b') : b'.maxLease = b.maxLease := by
  cases h <;> rfl

namespace Consistent

theorem withRequests (h : b.Consistent) (requests : Tally RequestKind) :
    (b.withRequests requests).Consistent :=
  ⟨h.toKeyed, h.queueIds, h.topicIds, h.subscriptionIds, h.serials⟩

theorem after (h : b.Consistent) (i : Interaction) : (i.after b).Consistent := by
  rcases i.after_cases h.toKeyed with
    ⟨c, result, b', requests, -, -, heffect, hafter⟩ | ⟨n, requests, -, hafter⟩
  · rw [hafter]
    exact (heffect.consistent h).withRequests requests
  · rw [hafter]
    exact (h.issue n).withRequests requests

/-- **A run leaves a consistent broker consistent.** -/
theorem afterAll (h : b.Consistent) (run : List Interaction) : (b.afterAll run).Consistent := by
  induction run generalizing b with
  | nil => exact h
  | cons i run ih => exact ih (h.after i)

theorem maxLease_after (h : b.Consistent) (i : Interaction) :
    (i.after b).maxLease = b.maxLease := by
  rcases i.after_cases h.toKeyed with
    ⟨c, result, b', requests, -, -, heffect, hafter⟩ | ⟨n, requests, -, hafter⟩
  · rw [hafter]
    exact heffect.maxLease
  · rw [hafter]
    rfl

theorem maxLease_afterAll (h : b.Consistent) (run : List Interaction) :
    (b.afterAll run).maxLease = b.maxLease := by
  induction run generalizing b with
  | nil => rfl
  | cons i run ih => exact (ih (h.after i)).trans (h.maxLease_after i)

end Consistent

/-- **An interaction leaves a broker under a law that its call carries.** -/
theorem Lawful.after {law law' : Law} (h : b.Lawful law) {i : Interaction}
    (hcarries : law.Carries law' i.now) : (i.after b).Lawful law' := by
  refine ⟨h.toConsistent.after i, ?_⟩
  rcases i.after_cases h.toKeyed with
    ⟨c, result, b', requests, -, -, heffect, hafter⟩ | ⟨n, requests, -, hafter⟩
  · rw [hafter]
    exact heffect.obeys h.toKeyed hcarries h.obeys
  · rw [hafter]
    exact h.obeys.mono hcarries.toImplies

/-- **A run within the years 0 to 9999 keeps a broker readable.** -/
theorem Lawful.afterAll_readable (h : b.Lawful readable) {run : List Interaction}
    (hyears : ∀ i ∈ run, i.now.HasFourDigitYear) : (b.afterAll run).Lawful readable := by
  induction run generalizing b with
  | nil => exact h
  | cons i run ih =>
    obtain ⟨hi, hyears⟩ := List.forall_mem_cons.mp hyears
    exact ih (h.after (carries_readable hi)) hyears

end Broker

end MessageBroker

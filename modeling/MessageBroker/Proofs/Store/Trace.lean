import MessageBroker.Proofs.Store.Atomicity
import MessageBroker.Proofs.Store.Backlog

/-! # Runs of a store

A run is a list of steps, each with the stores before and after it (`trace`). What a step makes of
the stored messages follows from its operation and answer alone: it removes some of them
(`Step.Removes`), changes the others by a transition (`Step.transition`), and inserts new ones
(`Step.inserted`). `Keeps.step` says so of one step on an undisturbed store, `Regular.steps` of a
run, as long as all instants that reach messages lie within the years 0 to 9999. -/

namespace MessageBroker.Store

open Fallible

/-- An operation that was performed. -/
structure Step where
  before : Store
  operation : Operation
  answer : Except Error Result
  after : Store
  performed : (perform operation).on before = (answer, after)

/-- The step that an operation makes of a store. -/
def Step.of (op : Operation) (s : Store) : Step :=
  ⟨s, op, ((perform op).on s).1, ((perform op).on s).2, rfl⟩

/-- The steps of operations performed in order. -/
def trace : List Operation → Store → List Step
  | [], _ => []
  | op :: ops, s => Step.of op s :: trace ops (Step.of op s).after

/-! ### Steps in a row -/

/-- Each step starts where the one before it ended. -/
def Linked : Store → List Step → Prop
  | _, [] => True
  | s, x :: l => x.before = s ∧ Linked x.after l

/-- The store after steps in a row. -/
def afterAll : Store → List Step → Store
  | s, [] => s
  | _, x :: l => afterAll x.after l

theorem linked_trace (ops : List Operation) (s : Store) : Linked s (trace ops s) := by
  induction ops generalizing s with
  | nil => trivial
  | cons op ops ih => exact ⟨rfl, ih _⟩

theorem run_cons (op : Operation) (ops : List Operation) (s : Store) : run (op :: ops) s =
    ((Step.of op s).answer :: (run ops (Step.of op s).after).1, (run ops (Step.of op s).after).2) :=
  rfl

theorem run_cons_of_perform {op : Operation} {s s' : Store} {answer : Except Error Result}
    (h : perform op s = (answer, s')) (ops : List Operation) :
    run (op :: ops) s = (answer :: (run ops s').1, (run ops s').2) := by
  have hanswer : (Step.of op s).answer = answer := congrArg Prod.fst h
  have hafter : (Step.of op s).after = s' := congrArg Prod.snd h
  rw [run_cons, hanswer, hafter]

/-- The steps of a run have the answers of the run, and end where it ends. -/
theorem run_eq_trace (ops : List Operation) (s : Store) :
    run ops s = ((trace ops s).map Step.answer, afterAll s (trace ops s)) := by
  induction ops generalizing s with
  | nil => rfl
  | cons op ops ih =>
    rw [run_cons, ih]
    rfl

theorem linked_append {s : Store} {l r : List Step} :
    Linked s (l ++ r) ↔ Linked s l ∧ Linked (afterAll s l) r := by
  induction l generalizing s with
  | nil => simp [Linked, afterAll]
  | cons x l ih => simp only [List.cons_append, Linked, afterAll, ih, and_assoc]

theorem afterAll_append (s : Store) (l r : List Step) :
    afterAll s (l ++ r) = afterAll (afterAll s l) r := by
  induction l generalizing s with
  | nil => rfl
  | cons x l ih => exact ih x.after

/-! ### What a step does to messages -/

/-- The instants at which an operation is performed. -/
def Operation.clock : Operation → List Instant
  | .queueStats _ now | .cleanup _ now | .lease _ _ _ now | .ack _ now | .nack _ _ now => [now]
  | _ => []

/-- The messages that an operation is to insert. -/
def Operation.submitted : Operation → List Message
  | .createMessage m => [m]
  | .createMessages ms => ms
  | _ => []

/-- Whether an operation may change messages. -/
def Operation.writesMessages : Operation → Bool
  | .createMessage _ | .createMessages _ | .lease .. | .ack .. | .nack .. | .purge _
  | .cleanup .. => true
  | _ => false

namespace Step

/-- The messages that a step inserts. -/
def inserted (x : Step) : List Message :=
  match x.answer with
  | .ok _ => x.operation.submitted
  | .error _ => []

/-- The messages that a step leases, as it answers them. -/
def leased (x : Step) : List Message :=
  match x.operation, x.answer with
  | .lease .., .ok (.messages ms) => ms
  | _, _ => []

/-- The instants that a step computes. -/
def computed (x : Step) : List Instant :=
  match x.operation, x.answer with
  | .lease q _ _ now, .ok (.messages (_ :: _)) => [now.addSeconds q.ackDeadlineSeconds.toNat]
  | .nack _ timeout now, .ok _ => [now.addSeconds timeout.toNat]
  | _, _ => []

/-- The instants that a step is given or computes, as far as they reach messages. -/
def instants (x : Step) : List Instant :=
  x.operation.clock ++ x.operation.submitted.flatMap Message.instants ++ x.computed

/-- All these instants lie within the years 0 to 9999. -/
def HasFourDigitYears (x : Step) : Prop := ∀ t ∈ x.instants, t.HasFourDigitYear

theorem HasFourDigitYears.clock {x : Step} (h : x.HasFourDigitYears) {t : Instant}
    (ht : t ∈ x.operation.clock) : t.HasFourDigitYear :=
  h t (List.mem_append_left _ (List.mem_append_left _ ht))

/-- What a step makes of a stored message that it does not remove. -/
def transition (x : Step) (m : Message) : Message :=
  match x.operation with
  | .lease q _ _ now => if m.id ∈ x.leased.map Message.id then m.leaseRenew q now else m
  | .ack id now => if m.id = id then m.ack now else m
  | .nack id timeout now => if m.id = id then m.nack now timeout else m
  | _ => m

/-- Whether a step removes a stored message. -/
def Removes (x : Step) (m : Message) : Prop :=
  match x.operation with
  | .purge id => m.queueId = id
  | .cleanup id now => m.queueId = id ∧ m.IsExpired now
  | _ => False

instance (x : Step) (m : Message) : Decidable (x.Removes m) := by
  unfold Removes
  split <;> infer_instance

/-- The stored messages after a step. -/
def advance (x : Step) (ms : List Message) : List Message :=
  (ms.filter fun m => ¬x.Removes m).map x.transition ++ x.inserted

theorem mem_advance {x : Step} {ms : List Message} {m' : Message} : m' ∈ x.advance ms ↔
    (∃ m ∈ ms, ¬x.Removes m ∧ x.transition m = m') ∨ m' ∈ x.inserted := by
  simp only [advance, List.mem_append, List.mem_map, List.mem_filter, decide_eq_true_eq, and_assoc]

theorem sameRecord_transition (x : Step) (m : Message) : m.SameRecord (x.transition m) := by
  unfold transition
  split
  · split_ifs
    · exact m.sameRecord_leaseRenew _ _
    · exact m.sameRecord_refl
  · split_ifs
    · exact m.sameRecord_ack _
    · exact m.sameRecord_refl
  · split_ifs
    · exact m.sameRecord_nack _ _
    · exact m.sameRecord_refl
  · exact m.sameRecord_refl

theorem advance_eq_map {x : Step} (hkeep : ∀ m, ¬x.Removes m) (hinserted : x.inserted = [])
    (ms : List Message) : x.advance ms = ms.map x.transition := by
  rw [advance, hinserted, List.append_nil, List.filter_eq_self.mpr]
  intro m _
  exact decide_eq_true (hkeep m)

theorem advance_eq_filter {x : Step} (hstay : ∀ m, x.transition m = m) (hinserted : x.inserted = [])
    (ms : List Message) : x.advance ms = ms.filter fun m => ¬x.Removes m := by
  rw [advance, hinserted, List.append_nil, List.map_congr_left fun m _ => hstay m, List.map_id']

theorem advance_eq_append {x : Step} (hkeep : ∀ m, ¬x.Removes m) (hstay : ∀ m, x.transition m = m)
    (ms : List Message) : x.advance ms = ms ++ x.inserted := by
  rw [advance, List.map_congr_left fun m _ => hstay m, List.map_id', List.filter_eq_self.mpr]
  intro m _
  exact decide_eq_true (hkeep m)

theorem inserted_eq_nil {x : Step} (hx : x.operation.submitted = []) : x.inserted = [] := by
  unfold inserted
  split
  · exact hx
  · rfl

theorem ne_of_inserted {x : Step} (hx : x.operation.submitted = []) (id : String) :
    ∀ m ∈ x.inserted, m.id ≠ id := by
  rw [inserted_eq_nil hx]
  intro m hm
  exact absurd hm List.not_mem_nil

theorem advance_idle {x : Step} (hx : x.operation.writesMessages = false) (ms : List Message) :
    x.advance ms = ms := by
  have hremoves : ∀ m, ¬x.Removes m := fun m => by
    cases hop : x.operation <;> simp_all [Removes, Operation.writesMessages]
  have htransition : ∀ m, x.transition m = m := fun m => by
    cases hop : x.operation <;> simp_all [transition, Operation.writesMessages]
  have hinserted : x.inserted = [] := by
    cases hop : x.operation <;>
      simp_all [inserted_eq_nil, Operation.submitted, Operation.writesMessages]
  rw [advance_eq_append hremoves htransition, hinserted, List.append_nil]

end Step

/-! ### Steps that leave messages alone -/

/-- The part of a store that its messages depend on. -/
def messageSide (s : Store) : List MessageRow × Rules × List Table × Bool :=
  (s.messages, s.rules, s.missing, s.closed)

theorem Keeps.of_messageSide {s s' : Store} {ms : List Message} (h : s.Keeps ms)
    (hs : s'.messageSide = s.messageSide) : s'.Keeps ms := by
  simp only [messageSide, Prod.mk.injEq] at hs
  obtain ⟨hmessages, hrules, hmissing, hclosed⟩ := hs
  refine ⟨⟨?_, ?_, ?_⟩, ?_, h.ids⟩
  · rw [hrules, h.undisturbed.rules]
  · rw [hmissing, h.undisturbed.missing]
  · rw [hclosed, h.undisturbed.closed]
  · rw [hmessages, h.rows]

section OtherTables

variable {ρ : Type} [TableRow ρ] {α : Type}

/-- The rows of a kind are not those of messages. -/
class OtherRow (ρ : Type) [TableRow ρ] : Prop where
  messageSide_withRows : ∀ (s : Store) (rows : List ρ),
    (TableRow.withRows s rows).messageSide = s.messageSide

instance : OtherRow QueueRow := ⟨fun _ _ => rfl⟩
instance : OtherRow TopicRow := ⟨fun _ _ => rfl⟩
instance : OtherRow SubscriptionRow := ⟨fun _ _ => rfl⟩

variable [OtherRow ρ]

theorem preserves_statement (report : Report)
    (run : Rules → List ρ → Except StorageFailure (α × List ρ)) :
    Preserves messageSide (statement report run) :=
  preserves_of_withRows OtherRow.messageSide_withRows report run

theorem preserves_insert (entity : Entity) (r : ρ) : Preserves messageSide (insert entity r) :=
  (preserves_statement _ _).bind fun _ => preserves_pure ()

theorem preserves_delete (entity : Entity) (id : String) :
    Preserves messageSide (delete ρ entity id) :=
  (preserves_statement _ _).bind fun n => (reads_requireAffected _ n).part

end OtherTables

theorem preserves_updateQueue (q : Queue) : Preserves messageSide (updateQueue q) :=
  (preserves_statement _ _).bind fun n => (reads_requireAffected _ n).part

theorem preserves_perform {op : Operation} (hop : op.writesMessages = false) :
    Preserves messageSide (perform op) := by
  cases op with
  | createQueue q => exact (preserves_insert _ _).bind_pure _
  | updateQueue q => exact (preserves_updateQueue q).bind_pure _
  | getQueue id => exact (reads_get _ _ _).part.bind_pure _
  | listQueues offset limit => exact (reads_listPage _ _ _ _).part.bind_pure _
  | deleteQueue id => exact (preserves_delete _ _).bind_pure _
  | queueStats id now => exact (reads_queueStats id now).part.bind_pure _
  | getMessage id => exact (reads_get _ _ _).part.bind_pure _
  | allMessages => exact (reads_select _ _).part.bind_pure _
  | createTopic t => exact (preserves_insert _ _).bind_pure _
  | getTopic id => exact (reads_get _ _ _).part.bind_pure _
  | listTopics offset limit => exact (reads_listPage _ _ _ _).part.bind_pure _
  | deleteTopic id => exact (preserves_delete _ _).bind_pure _
  | createSubscription t => exact (preserves_insert _ _).bind_pure _
  | getSubscription id => exact (reads_get _ _ _).part.bind_pure _
  | listSubscriptions offset limit => exact (reads_listPage _ _ _ _).part.bind_pure _
  | listTopicSubscriptions topicId offset limit => exact (reads_listPage _ _ _ _).part.bind_pure _
  | deleteSubscription id => exact (preserves_delete _ _).bind_pure _
  | health => exact reads_health.part.bind_pure _
  | _ => cases hop

theorem Keeps.of_preserves {x : Step} {ms : List Message} (h : x.before.Keeps ms)
    (hx : Preserves messageSide (perform x.operation)) : x.after.Keeps ms := by
  have hside := hx x.before
  have hafter : (perform x.operation x.before).2 = x.after := congrArg Prod.snd x.performed
  rw [hafter] at hside
  exact h.of_messageSide hside

/-! ### Steps on messages -/

section Steps

variable {x : Step} {ms : List Message}

theorem Step.result_eq {α : Type} {a : Access α} {g : α → Result}
    (hx : perform x.operation = a >>= fun v => pure (g v)) :
    x.answer = (a x.before).1.map g ∧ x.after = (a x.before).2 := by
  have hperformed := x.performed
  rw [hx, Access.on, bind_pure_apply] at hperformed
  exact ⟨(congrArg Prod.fst hperformed).symm, (congrArg Prod.snd hperformed).symm⟩

theorem Step.exists_ok {x : Step} {result : Result} (hanswer : x.answer = .ok result) {α : Type}
    {a : Access α} {g : α → Result} (hop : perform x.operation = a >>= fun v => pure (g v)) :
    ∃ v, a x.before = (.ok v, x.after) := by
  obtain ⟨hfirst, hafter⟩ := x.result_eq hop
  rcases ha : a x.before with ⟨e | v, s⟩ <;> rw [ha] at hfirst hafter
  · rw [hanswer] at hfirst
    cases hfirst
  · exact ⟨v, by rw [hafter]⟩

theorem exists_or_ne (ms : List Message) (id : String) :
    (∃ m ∈ ms, m.id = id) ∨ ∀ m ∈ ms, m.id ≠ id := by
  by_cases hid : ∃ m ∈ ms, m.id = id
  · exact Or.inl hid
  · exact Or.inr fun m hm he => hid ⟨m, hm, he⟩

namespace Keeps

/-- A step that inserts messages keeps them after the others if it succeeds, and changes nothing if
it fails. -/
theorem step_insertion (h : x.before.Keeps ms) {a : Access Unit} {g : Unit → Result}
    (hx : perform x.operation = a >>= fun v => pure (g v)) (hclean : FailsClean a)
    (hadded : ∀ s', a x.before = (.ok (), s') →
      s' = x.before.addMessages x.operation.submitted ∧ s'.Keyed)
    (hadvance : x.advance ms = ms ++ x.inserted) : x.after.Keeps (x.advance ms) := by
  obtain ⟨hanswer, hafter⟩ := x.result_eq hx
  have hunchanged := hclean x.before
  rw [hadvance, Step.inserted]
  rcases hs : a x.before with ⟨e | _, s'⟩ <;> rw [hs] at hanswer hafter hunchanged
  · have hbefore : x.after = x.before := hafter.trans (hunchanged e rfl)
    rw [hbefore, hanswer]
    exact (List.append_nil ms).symm ▸ h
  · obtain ⟨rfl, hkeyed⟩ := hadded s' hs
    rw [hafter, hanswer]
    exact h.addMessages hkeyed

theorem step_createMessage (h : x.before.Keeps ms) {m : Message}
    (hop : x.operation = .createMessage m) : x.after.Keeps (x.advance ms) := by
  have hadvance : x.advance ms = ms ++ x.inserted :=
    Step.advance_eq_append (fun _ => by simp [Step.Removes, hop])
      (fun _ => by simp [Step.transition, hop]) ms
  refine h.step_insertion (by rw [hop]; rfl) (failsClean_createMessage m) (fun s' hs => ?_) hadvance
  rw [hop]
  exact h.toKeyed.of_createMessage hs

theorem step_createMessages (h : x.before.Keeps ms) {l : List Message}
    (hop : x.operation = .createMessages l) : x.after.Keeps (x.advance ms) := by
  have hadvance : x.advance ms = ms ++ x.inserted :=
    Step.advance_eq_append (fun _ => by simp [Step.Removes, hop])
      (fun _ => by simp [Step.transition, hop]) ms
  refine h.step_insertion (by rw [hop]; rfl) (failsClean_createMessages l) (fun s' hs => ?_)
    hadvance
  rw [hop]
  exact h.toKeyed.of_createMessages hs

/-- A step that changes the message with an identifier succeeds exactly if there is one. -/
theorem step_change (h : x.before.Keeps ms) {id : String} {f : Message → Message}
    (hsame : ∀ m : Message, m.SameRecord (f m)) {a : Access Unit}
    (hop : perform x.operation = a >>= fun _ => pure .done) (hremoves : ∀ m, ¬x.Removes m)
    (htransition : ∀ m, x.transition m = if m.id = id then f m else m) (hinserted : x.inserted = [])
    (hfound : ∀ m ∈ ms, m.id = id →
      a x.before = (.ok (), x.before.withMessages (changeMessage id f ms)))
    (hmissing : (∀ m ∈ ms, m.id ≠ id) → a x.before = (.error (.notFound .message id), x.before)) :
    x.after.Keeps (x.advance ms) ∧ (x.answer = .ok .done ↔ ∃ m ∈ ms, m.id = id) := by
  obtain ⟨hanswer, hafter⟩ := x.result_eq hop
  have hadvance : x.advance ms = changeMessage id f ms := by
    rw [Step.advance_eq_map hremoves hinserted, changeMessage]
    exact List.map_congr_left fun m _ => htransition m
  rw [hadvance]
  rcases exists_or_ne ms id with ⟨m, hm, hid⟩ | hid
  · rw [hafter, hanswer, hfound m hm hid]
    exact ⟨h.change id hsame, iff_of_true rfl ⟨m, hm, hid⟩⟩
  · rw [hafter, hanswer, hmissing hid, changeMessage_missing hid]
    refine ⟨h, iff_of_false ?_ ?_⟩
    · rintro ⟨⟩
    · rintro ⟨m, hm, he⟩
      exact hid m hm he

theorem step_ack (h : x.before.Keeps ms) (hyears : ∀ m ∈ ms, m.HasFourDigitYears) {id : String}
    {now : Instant} (hop : x.operation = .ack id now) :
    x.after.Keeps (x.advance ms) ∧ (x.answer = .ok .done ↔ ∃ m ∈ ms, m.id = id) := by
  refine h.step_change (a := ack id now) (f := (·.ack now)) (fun m => m.sameRecord_ack now)
    (by rw [hop]; rfl) (fun _ => by simp [Step.Removes, hop])
    (fun _ => by simp [Step.transition, hop]) (Step.inserted_eq_nil (by rw [hop]; rfl)) ?_
    fun hid => h.ack_missing hid now
  rintro m hm rfl
  exact h.ack_eq hm (hyears m hm) now

theorem step_nack (h : x.before.Keeps ms) (hyears : ∀ m ∈ ms, m.HasFourDigitYears) {id : String}
    {timeout : UInt32} {now : Instant} (hop : x.operation = .nack id timeout now) :
    x.after.Keeps (x.advance ms) ∧ (x.answer = .ok .done ↔ ∃ m ∈ ms, m.id = id) := by
  refine h.step_change (a := nack id timeout now) (f := (·.nack now timeout))
    (fun m => m.sameRecord_nack now timeout) (by rw [hop]; rfl)
    (fun _ => by simp [Step.Removes, hop]) (fun _ => by simp [Step.transition, hop])
    (Step.inserted_eq_nil (by rw [hop]; rfl)) ?_ fun hid => h.nack_missing hid timeout now
  rintro m hm rfl
  exact h.nack_eq hm (hyears m hm) timeout now

theorem step_purge (h : x.before.Keeps ms) {id : String} (hop : x.operation = .purge id) :
    x.after.Keeps (x.advance ms) := by
  obtain ⟨-, hafter⟩ := x.result_eq (a := purge id) (by rw [hop]; rfl)
  have hadvance : x.advance ms = ms.filter fun m => m.queueId ≠ id := by
    rw [Step.advance_eq_filter (fun _ => by simp [Step.transition, hop])
      (Step.inserted_eq_nil (by rw [hop]; rfl))]
    exact List.filter_congr fun m _ => by simp [Step.Removes, hop]
  rw [hadvance, hafter, h.purge_eq id]
  exact h.filter _

theorem step_cleanup (h : x.before.Keeps ms) (hyears : ∀ m ∈ ms, m.HasFourDigitYears) {id : String}
    {now : Instant} (hnow : now.HasFourDigitYear) (hop : x.operation = .cleanup id now) :
    x.after.Keeps (x.advance ms) := by
  obtain ⟨-, hafter⟩ := x.result_eq (a := cleanup id now) (by rw [hop]; rfl)
  have hadvance : x.advance ms =
      ms.filter fun m => ¬(m.queueId = id ∧ m.IsExpired now) := by
    rw [Step.advance_eq_filter (fun _ => by simp [Step.transition, hop])
      (Step.inserted_eq_nil (by rw [hop]; rfl))]
    exact List.filter_congr fun m _ => by simp [Step.Removes, hop]
  rw [hadvance, hafter, h.cleanup_eq hyears id hnow]
  exact h.filter _

theorem leased_eq (h : x.before.Keeps ms) (hyears : ∀ m ∈ ms, m.HasFourDigitYears) {q : Queue}
    {label : Option String} {limit : UInt32} {now : Instant} (hnow : now.HasFourDigitYear)
    (hop : x.operation = .lease q label limit now) :
    x.leased = (leasable q.id label limit now ms).map (·.leaseRenew q now) := by
  obtain ⟨hanswer, -⟩ := x.result_eq (a := lease q label limit now) (by rw [hop]; rfl)
  rw [h.lease_eq hyears q label limit hnow] at hanswer
  rw [Step.leased, hop, hanswer]
  rfl

theorem step_lease (h : x.before.Keeps ms) (hyears : ∀ m ∈ ms, m.HasFourDigitYears) {q : Queue}
    {label : Option String} {limit : UInt32} {now : Instant} (hnow : now.HasFourDigitYear)
    (hop : x.operation = .lease q label limit now) : x.after.Keeps (x.advance ms) := by
  obtain ⟨-, hafter⟩ := x.result_eq (a := lease q label limit now) (by rw [hop]; rfl)
  have hids : x.leased.map Message.id = (leasable q.id label limit now ms).map Message.id := by
    rw [h.leased_eq hyears hnow hop, List.map_map]
    rfl
  have hadvance : x.advance ms =
      renewMessages q now ((leasable q.id label limit now ms).map Message.id) ms := by
    rw [Step.advance_eq_map (fun _ => by simp [Step.Removes, hop])
      (Step.inserted_eq_nil (by rw [hop]; rfl)), renewMessages]
    refine List.map_congr_left fun m _ => ?_
    rw [Step.transition, hop, hids]
  rw [hadvance, hafter, h.lease_eq hyears q label limit hnow]
  exact h.renew q now _

/-- **What a step makes of the stored messages** follows from its operation and answer. -/
theorem step (h : x.before.Keeps ms) (hyears : ∀ m ∈ ms, m.HasFourDigitYears)
    (hx : x.HasFourDigitYears) : x.after.Keeps (x.advance ms) := by
  by_cases hwrites : x.operation.writesMessages = true
  · cases hop : x.operation with
    | createMessage m => exact h.step_createMessage hop
    | createMessages l => exact h.step_createMessages hop
    | lease q label limit now =>
      exact h.step_lease hyears (hx.clock (by simp [hop, Operation.clock])) hop
    | ack id now => exact (h.step_ack hyears hop).1
    | nack id timeout now => exact (h.step_nack hyears hop).1
    | purge id => exact h.step_purge hop
    | cleanup id now =>
      exact h.step_cleanup hyears (hx.clock (by simp [hop, Operation.clock])) hop
    | _ => simp [hop, Operation.writesMessages] at hwrites
  · have hidle := Bool.eq_false_of_not_eq_true hwrites
    rw [Step.advance_idle hidle]
    exact h.of_preserves (preserves_perform hidle)

theorem lease_of_mem (h : x.before.Keeps ms) (hyears : ∀ m ∈ ms, m.HasFourDigitYears)
    (hx : x.HasFourDigitYears) {m : Message} (hm : m ∈ ms) (hid : m.id ∈ x.leased.map Message.id) :
    ∃ q label limit now, x.operation = .lease q label limit now ∧ m.queueId = q.id ∧
      m.IsVisible now ∧ x.transition m = m.leaseRenew q now := by
  cases hop : x.operation with
  | lease q label limit now =>
    have hnow : now.HasFourDigitYear := hx.clock (by simp [hop, Operation.clock])
    have htransition : x.transition m = m.leaseRenew q now := by
      rw [Step.transition, hop]
      exact if_pos hid
    rw [h.leased_eq hyears hnow hop, List.map_map] at hid
    obtain ⟨m', hm', he⟩ := List.mem_map.mp hid
    obtain ⟨hmem, hqueue, hvisible⟩ := mem_of_mem_leasable hm'
    rw [h.eq_of_id hm hmem he] at hqueue hvisible
    exact ⟨q, label, limit, now, rfl, hqueue, hvisible, htransition⟩
  | _ => simp [Step.leased, hop] at hid

/-- What a step leases are the stored messages as they are after it. -/
theorem mem_advance_of_leased (h : x.before.Keeps ms) (hyears : ∀ m ∈ ms, m.HasFourDigitYears)
    (hx : x.HasFourDigitYears) {m' : Message} (hm' : m' ∈ x.leased) :
    ∃ m ∈ ms, m.id = m'.id ∧ x.transition m = m' ∧ m' ∈ x.advance ms := by
  cases hop : x.operation with
  | lease q label limit now =>
    have hnow : now.HasFourDigitYear := hx.clock (by simp [hop, Operation.clock])
    have hleased := h.leased_eq hyears hnow hop
    obtain ⟨m, hm, he⟩ := List.mem_map.mp (hleased ▸ hm')
    have hmem := (mem_of_mem_leasable hm).1
    have hid : m.id = m'.id := by rw [← he]; rfl
    have htransition : x.transition m = m' := by
      rw [Step.transition, hop]
      exact (if_pos (hid ▸ List.mem_map_of_mem hm')).trans he
    have hkeep : ¬x.Removes m := by simp [Step.Removes, hop]
    exact ⟨m, hmem, hid, htransition, Step.mem_advance.mpr (Or.inl ⟨m, hmem, hkeep, htransition⟩)⟩
  | _ => simp [Step.leased, hop] at hm'

theorem nodup_leased (h : x.before.Keeps ms) (hyears : ∀ m ∈ ms, m.HasFourDigitYears)
    (hx : x.HasFourDigitYears) : (x.leased.map Message.id).Nodup := by
  cases hop : x.operation with
  | lease q label limit now =>
    have hnow : now.HasFourDigitYear := hx.clock (by simp [hop, Operation.clock])
    rw [h.leased_eq hyears hnow hop, List.map_map]
    exact nodup_leasable h.ids
  | _ => simp [Step.leased, hop]

theorem years_transition (h : x.before.Keeps ms) (hyears : ∀ m ∈ ms, m.HasFourDigitYears)
    (hx : x.HasFourDigitYears) {m : Message} (hm : m ∈ ms) :
    (x.transition m).HasFourDigitYears := by
  have hcomputed : ∀ t ∈ x.computed, t.HasFourDigitYear := fun t ht =>
    hx t (List.mem_append_right _ ht)
  have hmyears := hyears m hm
  unfold Step.transition
  split
  · next q label limit now hop =>
    split_ifs with hid
    · refine hmyears.leaseRenew (hx.clock (by simp [hop, Operation.clock])) (hcomputed _ ?_)
      -- a lease that answers a message computes the end of its ack deadline
      unfold Step.leased at hid
      rw [hop] at hid
      rcases hanswer : x.answer with e | r
      · simp [hanswer] at hid
      · cases r with
        | messages l =>
          cases l with
          | nil => simp [hanswer] at hid
          | cons m' l => simp [Step.computed, hop, hanswer]
        | _ => simp [hanswer] at hid
    · exact hmyears
  · next id now hop =>
    split_ifs
    · exact hmyears.ack (hx.clock (by simp [hop, Operation.clock]))
    · exact hmyears
  · next id timeout now hop =>
    split_ifs with hid
    · have hanswer := (h.step_nack hyears hop).2.mpr ⟨m, hm, hid⟩
      refine hmyears.nack (hx.clock (by simp [hop, Operation.clock])) (hcomputed _ ?_)
      simp [Step.computed, hop, hanswer]
    · exact hmyears
  · exact hmyears

end Keeps

/-! ### Runs -/

/-- A store that keeps messages whose instants lie within the years 0 to 9999. -/
structure Regular (s : Store) (ms : List Message) : Prop extends s.Keeps ms where
  years : ∀ m ∈ ms, m.HasFourDigitYears

theorem regular_empty : empty.Regular [] := ⟨keeps_empty, fun _ h => absurd h List.not_mem_nil⟩

theorem Regular.step (h : x.before.Regular ms) (hx : x.HasFourDigitYears) :
    x.after.Regular (x.advance ms) := by
  refine ⟨h.toKeeps.step h.years hx, fun m' hm' => ?_⟩
  rcases Step.mem_advance.mp hm' with ⟨m, hm, -, rfl⟩ | hinserted
  · exact h.toKeeps.years_transition h.years hx hm
  · unfold Step.inserted at hinserted
    split at hinserted
    · intro t ht
      refine hx t (List.mem_append_left _ (List.mem_append_right _ ?_))
      exact List.mem_flatMap.mpr ⟨m', hinserted, ht⟩
    · exact absurd hinserted List.not_mem_nil

/-- The stored messages after steps in a row. -/
def advanceAll (l : List Step) (ms : List Message) : List Message :=
  l.foldl (fun ms x => x.advance ms) ms

/-- **What a run makes of the stored messages** follows from its operations and answers. -/
theorem Regular.steps {s : Store} (h : s.Regular ms) {l : List Step} (hl : Linked s l)
    (hfour : ∀ x ∈ l, x.HasFourDigitYears) : (afterAll s l).Regular (advanceAll l ms) := by
  induction l generalizing s ms with
  | nil => exact h
  | cons x l ih =>
    obtain ⟨rfl, hl⟩ := hl
    obtain ⟨hx, hfour⟩ := List.forall_mem_cons.mp hfour
    exact ih (h.step hx) hl hfour

/-- All instants of a run on an empty store that reach messages lie within the years 0 to 9999. -/
def FourDigitRun (ops : List Operation) : Prop := ∀ x ∈ trace ops empty, x.HasFourDigitYears

instance (ops : List Operation) : Decidable (FourDigitRun ops) :=
  inferInstanceAs (Decidable (∀ x ∈ trace ops empty, ∀ t ∈ x.instants, t.HasFourDigitYear))

theorem FourDigitRun.rest {ops : List Operation} (h : FourDigitRun ops) {l r : List Step}
    (htrace : trace ops empty = l ++ r) : (∃ ms, (afterAll empty l).Regular ms) ∧
      Linked (afterAll empty l) r ∧ ∀ x ∈ r, x.HasFourDigitYears := by
  have hlinked := linked_trace ops empty
  unfold FourDigitRun at h
  rw [htrace] at hlinked h
  obtain ⟨hl, hr⟩ := linked_append.mp hlinked
  refine ⟨⟨_, regular_empty.steps hl fun x hx => h x (List.mem_append_left _ hx)⟩, hr, ?_⟩
  exact fun x hx => h x (List.mem_append_right _ hx)

theorem FourDigitRun.step {ops : List Operation} (h : FourDigitRun ops) {l r : List Step}
    (htrace : trace ops empty = l ++ x :: r) : (∃ ms, x.before.Regular ms) ∧
      x.HasFourDigitYears ∧ Linked x.after r ∧ ∀ y ∈ r, y.HasFourDigitYears := by
  obtain ⟨hms, ⟨hbefore, hlinked⟩, hfour⟩ := h.rest htrace
  obtain ⟨hxfour, hfour⟩ := List.forall_mem_cons.mp hfour
  rw [← hbefore] at hms
  exact ⟨hms, hxfour, hlinked, hfour⟩

end Steps

end MessageBroker.Store

import MessageBroker.Proofs.Store.Attempts
import MessageBroker.Proofs.Store.Footprint

/-! # What becomes of rows

The answer of an operation on queues and messages says what it makes of each row. The rows that it
does not look at stay; the others are rewritten or removed one by one (`Step.rewrite`,
`Step.rewriteQueue`), and new rows come after them. `Keyed.after_eq` says so of every operation.
What is in a column afterwards is read off `Step.rewrite`: only acknowledgements change expiries. -/

namespace MessageBroker.Store

open Fallible

theorem filter_map_of_imp {α : Type} {p : α → Bool} {f : α → α} {l : List α}
    (hp : ∀ a, p (f a) = p a) (hf : ∀ a ∈ l, p a = true → f a = a) :
    (l.map f).filter p = l.filter p := by
  have hcomp : p ∘ f = p := funext hp
  rw [List.filter_map, hcomp, List.map_congr_left, List.map_id']
  intro a ha
  exact hf a (List.mem_of_mem_filter ha) (List.of_mem_filter ha)

/-! ### Rows through a step -/

/-- The row of a message as a lease leaves it that answers messages. -/
def MessageRow.leasedAmong (r : MessageRow) (ms : List Message) : MessageRow :=
  match ms.find? (·.id = r.id) with
  | some m => { r with
      deliveryAttempts := .ofWord m.deliveryAttempts
      scheduledAt := m.scheduledAt.stored
      updatedAt := m.updatedAt.stored }
  | none => r

/-- The row of a message that is read, changed and written back. -/
def MessageRow.readAndWritten (r : MessageRow) (f : Message → Message) : MessageRow :=
  match r.decode? with
  | some m => r.rewritten (f m)
  | none => r

namespace Step

/-- What a step makes of the row of a message: nothing, if it removes it. -/
def rewrite (x : Step) (r : MessageRow) : Option MessageRow :=
  match x.answer with
  | .error _ => some r
  | .ok _ =>
    if x.operation.sees r then
      match x.operation with
      | .lease .. => some (r.leasedAmong x.leased)
      | .ack _ now => some (r.readAndWritten (·.ack now))
      | .nack _ timeout now => some (r.readAndWritten (·.nack now timeout))
      | .purge _ | .cleanup .. => none
      | _ => some r
    else some r

/-- What a step makes of the row of a queue: nothing, if it removes it. -/
def rewriteQueue (x : Step) (r : QueueRow) : Option QueueRow :=
  match x.answer with
  | .error _ => some r
  | .ok _ =>
    if x.operation.seesQueue r then
      match x.operation with
      | .updateQueue q => some (.ofQueue q)
      | .deleteQueue _ => none
      | _ => some r
    else some r

/-- The queues that a step inserts. -/
def insertedQueues (x : Step) : List Queue :=
  match x.operation, x.answer with
  | .createQueue q, .ok _ => [q]
  | _, _ => []

theorem rewrite_of_not_sees {x : Step} {r : MessageRow} (hr : x.operation.sees r = false) :
    x.rewrite r = some r := by
  unfold rewrite
  rw [hr]
  split <;> rfl

theorem rewriteQueue_of_not_sees {x : Step} {r : QueueRow}
    (hr : x.operation.seesQueue r = false) : x.rewriteQueue r = some r := by
  unfold rewriteQueue
  rw [hr]
  split <;> rfl

/-- A step leaves the identifier and the queue of a row that it does not remove. -/
theorem key_of_rewrite {x : Step} {r r' : MessageRow} (hr : x.rewrite r = some r') :
    r'.id = r.id ∧ r'.queueId = r.queueId := by
  have hleased : ∀ ms, (r.leasedAmong ms).id = r.id ∧ (r.leasedAmong ms).queueId = r.queueId := by
    intro ms
    unfold MessageRow.leasedAmong
    split <;> exact ⟨rfl, rfl⟩
  have hwritten : ∀ f, (r.readAndWritten f).id = r.id ∧
      (r.readAndWritten f).queueId = r.queueId := by
    intro f
    unfold MessageRow.readAndWritten
    split <;> exact ⟨rfl, rfl⟩
  unfold rewrite at hr
  split at hr
  · cases hr
    exact ⟨rfl, rfl⟩
  · split_ifs at hr
    · split at hr <;> cases hr
      · exact hleased _
      · exact hwritten _
      · exact hwritten _
      · exact ⟨rfl, rfl⟩
    · cases hr
      exact ⟨rfl, rfl⟩

theorem id_of_rewriteQueue {x : Step} {r r' : QueueRow} (hr : x.rewriteQueue r = some r') :
    r'.id = r.id := by
  unfold rewriteQueue at hr
  split at hr
  · cases hr
    rfl
  · split_ifs at hr with hsees
    · split at hr
      · next q hop =>
        cases hr
        rw [hop] at hsees
        exact (of_decide_eq_true hsees).symm
      · cases hr
      · cases hr
        rfl
    · cases hr
      rfl

end Step

/-! ### Leases -/

section Leases

variable {q : Queue} {now : Instant}

theorem claimedRows_eq_map (l : List Message) (rows : List MessageRow) :
    claimedRows q now l rows =
      rows.map fun r => l.foldl (fun r m => r.claimed q now m) r := by
  induction l generalizing rows with
  | nil => exact (List.map_id' rows).symm
  | cons m l ih =>
    rw [claimedRows, List.foldl_cons, ← claimedRows, ih, List.map_map]
    rfl

theorem key_foldl_claimed (l : List Message) (r : MessageRow) :
    (l.foldl (fun r m => r.claimed q now m) r).id = r.id ∧
      (l.foldl (fun r m => r.claimed q now m) r).queueId = r.queueId := by
  induction l generalizing r with
  | nil => exact ⟨rfl, rfl⟩
  | cons m l ih =>
    obtain ⟨hid, hqueue⟩ := ih (r.claimed q now m)
    exact ⟨hid.trans (r.id_claimed q now m), hqueue.trans (r.queueId_claimed q now m)⟩

theorem foldl_claimed_stays {l : List Message} {r : MessageRow}
    (hl : ∀ m ∈ l, r.isClaimable now m = false) :
    l.foldl (fun r m => r.claimed q now m) r = r := by
  induction l with
  | nil => rfl
  | cons m l ih =>
    obtain ⟨hm, hl⟩ := List.forall_mem_cons.mp hl
    have hstays : r.claimed q now m = r := if_neg (by simp [hm])
    rw [List.foldl_cons, hstays, ih hl]

theorem foldl_claimed_of_ne {l : List Message} {r : MessageRow} (hl : ∀ m ∈ l, m.id ≠ r.id) :
    l.foldl (fun r m => r.claimed q now m) r = r := by
  refine foldl_claimed_stays fun m hm => Bool.eq_false_of_not_eq_true fun hr => ?_
  exact hl m hm (MessageRow.isClaimable_iff.mp hr).1.symm

/-- A row that its candidate was read from becomes the row of the leased candidate. -/
theorem foldl_claimed {l : List Message} (hl : (l.map Message.id).Nodup) {r : MessageRow}
    (hr : ∀ m ∈ l, m.id = r.id → r.isClaimable now m = true) :
    l.foldl (fun r m => r.claimed q now m) r = r.leasedAmong (l.map (·.leaseRenew q now)) := by
  induction l with
  | nil => rfl
  | cons m l ih =>
    obtain ⟨hm, hl⟩ := List.nodup_cons.mp hl
    obtain ⟨hrm, hr⟩ := List.forall_mem_cons.mp hr
    rw [List.foldl_cons]
    by_cases hid : m.id = r.id
    · have hrenewed : r.claimed q now m = r.renewed q now m := if_pos (hrm hid)
      have hrest : ∀ m' ∈ l, m'.id ≠ (r.renewed q now m).id := by
        intro m' hm' he
        exact hm (List.mem_map.mpr ⟨m', hm', he.trans hid.symm⟩)
      have hid' : (m.leaseRenew q now).id = r.id := hid
      rw [hrenewed, foldl_claimed_of_ne hrest, List.map_cons, MessageRow.leasedAmong,
        List.find?_cons_of_pos (by simp [hid'])]
      rfl
    · have hstays : r.claimed q now m = r :=
        if_neg fun hr => hid (MessageRow.isClaimable_iff.mp hr).1.symm
      have hid' : (m.leaseRenew q now).id ≠ r.id := hid
      rw [hstays, ih hl hr, MessageRow.leasedAmong, MessageRow.leasedAmong, List.map_cons,
        List.find?_cons_of_neg (by simp [hid'])]

/-- **A lease rewrites the rows that it selects** as its answer says, and no others. -/
theorem Keyed.claimedRows_eq {s : Store} (h : s.Keyed) {label : Option String} {limit : UInt32}
    {ms : List Message} (hms : (readCandidates q label limit now s).1 = .ok ms) :
    claimedRows q now ms s.messages = s.messages.map fun r =>
      if (Operation.lease q label limit now).sees r then
        r.leasedAmong (ms.map (·.leaseRenew q now)) else r := by
  obtain ⟨hids, hrows⟩ := h.readCandidates_rows hms
  rw [claimedRows_eq_map]
  refine List.map_congr_left fun r hr => ?_
  -- the row with the identifier of a candidate is the one that the candidate was read from
  have hread : ∀ m ∈ ms, m.id = r.id → r.decode? = some m ∧
      (Operation.lease q label limit now).sees r = true := by
    intro m hm hid
    obtain ⟨r₀, hr₀, hdecode, hqueue, hlabel, hvisible⟩ := hrows m hm
    have hid₀ : r.id = r₀.id := by rw [← hid, (MessageRow.decode?_eq_some hdecode).1]
    obtain rfl := h.eq_of_id hr₀ hr hid₀
    exact ⟨hdecode, by simp [Operation.sees, hlabel, hqueue, hvisible]⟩
  split_ifs with hsees
  · refine foldl_claimed hids fun m hm hid => ?_
    have hattempts := (MessageRow.decode?_eq_some (hread m hm hid).1).2.2.2.2
    simp only [Operation.sees, Bool.and_eq_true] at hsees
    exact MessageRow.isClaimable_iff.mpr ⟨hid.symm, hattempts, hsees.2.2⟩
  · exact foldl_claimed_of_ne fun m hm hid => hsees (hread m hm hid).2

end Leases

/-! ### All operations on queues and messages -/

section Steps

variable {x y : Step}

theorem filterMap_remove {α : Type} (p : α → Bool) (l : List α) :
    (l.filterMap fun a => if p a then none else some a) = l.filter fun a => !p a := by
  rw [← List.filterMap_eq_filter]
  refine List.filterMap_congr fun a _ => ?_
  by_cases hp : p a = true <;> simp [Option.guard, hp]

theorem filterMap_change {α : Type} (p : α → Bool) (f : α → α) (l : List α) :
    (l.filterMap fun a => if p a then some (f a) else some a) =
      l.map fun a => if p a then f a else a := by
  rw [← List.filterMap_eq_map]
  refine List.filterMap_congr fun a _ => ?_
  by_cases hp : p a = true <;> simp [hp]

/-- Whether an operation changes rows of queues or messages, or adds any. -/
def Operation.changesRows : Operation → Bool
  | .createQueue _ | .updateQueue _ | .deleteQueue _ => true
  | op => op.writesMessages

/-- The store with rows rewritten and rows added, as a step leaves it. -/
def Step.rewritten (x : Step) (s : Store) : Store :=
  { s with
    messages := s.messages.filterMap x.rewrite ++ x.inserted.map MessageRow.ofMessage
    queues := s.queues.filterMap x.rewriteQueue ++ x.insertedQueues.map QueueRow.ofQueue }

theorem rewritten_of_unchanged (hrewrite : ∀ r, x.rewrite r = some r)
    (hrewriteQueue : ∀ r, x.rewriteQueue r = some r) (hinserted : x.inserted = [])
    (hinsertedQueues : x.insertedQueues = []) (s : Store) : x.rewritten s = s := by
  have hmessages : x.rewrite = some := funext hrewrite
  have hqueues : x.rewriteQueue = some := funext hrewriteQueue
  simp [Step.rewritten, hmessages, hqueues, hinserted, hinsertedQueues]

theorem after_eq_of_error {e : Error} (hanswer : x.answer = .error e) :
    x.after = x.rewritten x.before := by
  have hclean := failsClean_perform x.operation x.before e
  have hperformed : perform x.operation x.before = (x.answer, x.after) := x.performed
  rw [hperformed, hanswer] at hclean
  have hafter : x.after = x.before := hclean rfl
  rw [hafter, rewritten_of_unchanged]
  · intro r
    rw [Step.rewrite, hanswer]
  · intro r
    rw [Step.rewriteQueue, hanswer]
  · rw [Step.inserted, hanswer]
  · rw [Step.insertedQueues, hanswer]
    cases x.operation <;> rfl

theorem rewritten_idle (hop : x.operation.changesRows = false) (s : Store) :
    x.rewritten s = s := by
  apply rewritten_of_unchanged
  · intro r
    unfold Step.rewrite
    cases x.answer <;> cases hx : x.operation <;>
      simp_all [Operation.changesRows, Operation.writesMessages]
  · intro r
    unfold Step.rewriteQueue
    cases x.answer <;> cases hx : x.operation <;>
      simp_all [Operation.changesRows, Operation.writesMessages]
  · apply Step.inserted_eq_nil
    cases hx : x.operation <;>
      simp_all [Operation.changesRows, Operation.writesMessages, Operation.submitted]
  · unfold Step.insertedQueues
    cases x.answer <;> cases hx : x.operation <;>
      simp_all [Operation.changesRows, Operation.writesMessages]

/-- An operation on queues and messages that changes no row only reads. -/
theorem reads_perform {op : Operation} (hop : op.onQueues = true)
    (hreads : op.changesRows = false) : Reads (perform op) := by
  have reads {α : Type} {a : Access α} (ha : Reads a) (g : α → Result) :
      Reads (a >>= fun v => pure (g v)) := ha.bind fun _ => preserves_pure _
  cases op with
  | getQueue id => exact reads (reads_get _ _ _) _
  | listQueues offset limit => exact reads (reads_listPage _ _ _ _) _
  | queueStats id now => exact reads (reads_queueStats id now) _
  | getMessage id => exact reads (reads_get _ _ _) _
  | allMessages => exact reads (reads_select _ _) _
  | health => exact reads reads_health _
  | createTopic | getTopic | listTopics | deleteTopic | createSubscription | getSubscription
  | listSubscriptions | listTopicSubscriptions | deleteSubscription => cases hop
  | _ => cases hreads

/-! #### Writes -/

theorem rewritten_queues (hsees : ∀ r, x.operation.sees r = false) (hinserted : x.inserted = [])
    (s : Store) : x.rewritten s = { s with
      queues := s.queues.filterMap x.rewriteQueue ++ x.insertedQueues.map QueueRow.ofQueue } := by
  have hmessages : x.rewrite = some := funext fun r => Step.rewrite_of_not_sees (hsees r)
  simp [Step.rewritten, hmessages, hinserted]

theorem rewritten_messages (hwrites : x.operation.writesMessages = true) (s : Store) :
    x.rewritten s = { s with
      messages := s.messages.filterMap x.rewrite ++ x.inserted.map MessageRow.ofMessage } := by
  have hqueues : x.rewriteQueue = some := by
    funext r
    refine Step.rewriteQueue_of_not_sees ?_
    cases hx : x.operation <;> simp_all [Operation.writesMessages, Operation.seesQueue]
  have hinserted : x.insertedQueues = [] := by
    cases hx : x.operation <;> simp_all [Operation.writesMessages, Step.insertedQueues]
  simp [Step.rewritten, hqueues, hinserted]

variable {result : Result}

theorem after_createQueue (h : x.before.Undisturbed) {q : Queue}
    (hx : x.operation = .createQueue q) (hanswer : x.answer = .ok result) :
    x.after = x.rewritten x.before := by
  obtain ⟨_, hs⟩ := x.exists_ok hanswer (a := createQueue q) (by rw [hx]; rfl)
  obtain ⟨-, hafter⟩ := of_insert h hs
  have hrewrite : x.rewriteQueue = some := funext fun r => by
    simp [Step.rewriteQueue, hanswer, hx]
  have hadded : x.insertedQueues = [q] := by simp [Step.insertedQueues, hx, hanswer]
  rw [rewritten_queues (fun _ => by rw [hx]; rfl) (Step.inserted_eq_nil (by rw [hx]; rfl)),
    hrewrite, hadded, List.filterMap_some]
  exact hafter

theorem after_updateQueue (h : x.before.Undisturbed) {q : Queue}
    (hx : x.operation = .updateQueue q) (hanswer : x.answer = .ok result) :
    x.after = x.rewritten x.before := by
  obtain ⟨-, hafter⟩ := x.result_eq (a := updateQueue q) (by rw [hx]; rfl)
  have hrewrite : x.rewriteQueue = fun r =>
      if decide (r.id = q.id) then some (.ofQueue q) else some r := funext fun r => by
    simp [Step.rewriteQueue, hanswer, hx, Operation.seesQueue]
  have hadded : x.insertedQueues = [] := by simp [Step.insertedQueues, hx]
  rw [rewritten_queues (fun _ => by rw [hx]; rfl) (Step.inserted_eq_nil (by rw [hx]; rfl)),
    hrewrite, hadded, filterMap_change, hafter]
  exact (snd_of_requireAffected h _ _ (updateRows_none _ _ _)).trans (by simp; rfl)

theorem after_deleteQueue (h : x.before.Undisturbed) {id : String}
    (hx : x.operation = .deleteQueue id) (hanswer : x.answer = .ok result) :
    x.after = x.rewritten x.before := by
  obtain ⟨-, hafter⟩ := x.result_eq (a := deleteQueue id) (by rw [hx]; rfl)
  have hrewrite : x.rewriteQueue = fun r =>
      if decide (r.id = id) then none else some r := funext fun r => by
    simp [Step.rewriteQueue, hanswer, hx, Operation.seesQueue]
  have hadded : x.insertedQueues = [] := by simp [Step.insertedQueues, hx]
  rw [rewritten_queues (fun _ => by rw [hx]; rfl) (Step.inserted_eq_nil (by rw [hx]; rfl)),
    hrewrite, hadded, filterMap_remove, hafter]
  exact (snd_of_requireAffected h _ _ (deleteRows_none _ _)).trans (by simp; rfl)

/-- A purge or a cleanup removes what it looks at. -/
theorem after_deletion (h : x.before.Undisturbed) {a : Access Nat} {g : Nat → Result}
    (hop : perform x.operation = a >>= fun v => pure (g v))
    (hdeletes : a = statement .plain fun rules rows => deleteRows rules x.operation.sees rows)
    (hwrites : x.operation.writesMessages = true) (hsubmitted : x.operation.submitted = [])
    (hrewrite : ∀ r, x.rewrite r = if x.operation.sees r then none else some r) :
    x.after = x.rewritten x.before := by
  obtain ⟨-, hafter⟩ := x.result_eq hop
  rw [rewritten_messages hwrites, Step.inserted_eq_nil hsubmitted, funext hrewrite,
    filterMap_remove, hafter, hdeletes, deletion_eq h]
  simp

theorem after_lease (h : x.before.Keyed) {q : Queue} {label : Option String} {limit : UInt32}
    {now : Instant} (hx : x.operation = .lease q label limit now)
    (hanswer : x.answer = .ok result) : x.after = x.rewritten x.before := by
  obtain ⟨leased, hs⟩ := x.exists_ok hanswer (a := lease q label limit now) (by rw [hx]; rfl)
  obtain ⟨hanswer', hafter⟩ := x.result_eq (a := lease q label limit now) (by rw [hx]; rfl)
  rw [lease_eq_bind] at hs
  obtain ⟨ms, s, hread, -⟩ := exists_of_bind_apply hs
  have hms : (readCandidates q label limit now x.before).1 = .ok ms := congrArg Prod.fst hread
  rw [h.lease_eq hms] at hanswer' hafter
  have hleased : x.leased = ms.map (·.leaseRenew q now) := by
    rw [Step.leased, hx, hanswer']
    rfl
  have hrewrite : x.rewrite = fun r => if (Operation.lease q label limit now).sees r then
      some (r.leasedAmong (ms.map (·.leaseRenew q now))) else some r := funext fun r => by
    rw [Step.rewrite, hanswer, hx, hleased]
  rw [rewritten_messages (by rw [hx]; rfl), Step.inserted_eq_nil (by rw [hx]; rfl), hrewrite,
    filterMap_change, ← h.claimedRows_eq hms, hafter]
  simp

/-- An acknowledgement or a return reads the row with an identifier and writes it back. -/
theorem after_rewrite (h : x.before.Keyed) {id : String} {f : Message → Message}
    (hid : ∀ m, (f m).id = m.id) {g : Unit → Result} (hop : perform x.operation =
      (getMessage id >>= fun m => updateMessage (f m)) >>= fun v => pure (g v))
    (hanswer : x.answer = .ok result) (hwrites : x.operation.writesMessages = true)
    (hsubmitted : x.operation.submitted = []) (hrewrite : ∀ r, x.rewrite r =
      if decide (r.id = id) then some (r.readAndWritten f) else some r) :
    x.after = x.rewritten x.before := by
  obtain ⟨_, hs⟩ := x.exists_ok hanswer hop
  obtain ⟨m, s, hget, -⟩ := exists_of_bind_apply hs
  rw [rewrite_eq h.toUndisturbed hid hget] at hs
  obtain ⟨-, hafter⟩ := Prod.mk.inj hs
  obtain ⟨-, r₀, hr₀, rfl, hdecode⟩ := of_getMessage h.toUndisturbed hget
  rw [rewritten_messages hwrites, Step.inserted_eq_nil hsubmitted, funext hrewrite,
    filterMap_change, ← hafter]
  have hrows : (x.before.messages.map fun r => if r.id = r₀.id then r.rewritten (f m) else r) =
      x.before.messages.map fun r =>
        if decide (r.id = r₀.id) then r.readAndWritten f else r := by
    refine List.map_congr_left fun r hr => ?_
    by_cases he : r.id = r₀.id
    · obtain rfl := h.eq_of_id hr₀ hr he
      simp [MessageRow.readAndWritten, hdecode]
    · simp [he]
  rw [hrows]
  simp

theorem after_insertion (hafter : x.after = x.before.addMessages x.operation.submitted)
    (hanswer : x.answer = .ok result) (hwrites : x.operation.writesMessages = true)
    (hsees : ∀ r, x.operation.sees r = false) : x.after = x.rewritten x.before := by
  have hsome : x.rewrite = some := funext fun r => Step.rewrite_of_not_sees (hsees r)
  have hinserted : x.inserted = x.operation.submitted := by rw [Step.inserted, hanswer]
  rw [rewritten_messages hwrites, hsome, hinserted, hafter, List.filterMap_some]
  rfl

/-- **What a step makes of each row follows from its operation and answer.** -/
theorem Keyed.after_eq (h : x.before.Keyed) (hop : x.operation.onQueues = true) :
    x.after = x.rewritten x.before := by
  have hu := h.toUndisturbed
  rcases hanswer : x.answer with e | result
  · exact after_eq_of_error hanswer
  · by_cases hchanges : x.operation.changesRows = true
    · cases hx : x.operation with
      | createQueue q => exact after_createQueue hu hx hanswer
      | updateQueue q => exact after_updateQueue hu hx hanswer
      | deleteQueue id => exact after_deleteQueue hu hx hanswer
      | purge id =>
        refine after_deletion hu (a := purge id) (by rw [hx]; rfl) (by rw [hx]; rfl)
          (by rw [hx]; rfl) (by rw [hx]; rfl) fun r => ?_
        rw [Step.rewrite, hanswer, hx]
      | cleanup id now =>
        refine after_deletion hu (a := cleanup id now) (by rw [hx]; rfl) (by rw [hx]; rfl)
          (by rw [hx]; rfl) (by rw [hx]; rfl) fun r => ?_
        rw [Step.rewrite, hanswer, hx]
      | createMessage m =>
        obtain ⟨_, hs⟩ := x.exists_ok hanswer (a := createMessage m) (by rw [hx]; rfl)
        refine after_insertion ?_ hanswer (by rw [hx]; rfl) fun _ => by rw [hx]; rfl
        rw [hx]
        exact (h.of_createMessage hs).1
      | createMessages ms =>
        obtain ⟨_, hs⟩ := x.exists_ok hanswer (a := createMessages ms) (by rw [hx]; rfl)
        refine after_insertion ?_ hanswer (by rw [hx]; rfl) fun _ => by rw [hx]; rfl
        rw [hx]
        exact (h.of_createMessages hs).1
      | lease q label limit now => exact after_lease h hx hanswer
      | ack id now =>
        refine after_rewrite h (f := (·.ack now)) (fun _ => rfl) (by rw [hx]; rfl) hanswer
          (by rw [hx]; rfl) (by rw [hx]; rfl) fun r => ?_
        rw [Step.rewrite, hanswer, hx]
        rfl
      | nack id timeout now =>
        refine after_rewrite h (f := (·.nack now timeout)) (fun _ => rfl) (by rw [hx]; rfl) hanswer
          (by rw [hx]; rfl) (by rw [hx]; rfl) fun r => ?_
        rw [Step.rewrite, hanswer, hx]
        rfl
      | _ => simp [hx, Operation.changesRows, Operation.writesMessages] at hchanges
    · have hreads := Bool.eq_false_of_not_eq_true hchanges
      have hperformed : perform x.operation x.before = (x.answer, x.after) := x.performed
      have hafter : x.after = x.before := by
        have hread := reads_perform hop hreads x.before
        rwa [hperformed] at hread
      rw [rewritten_idle hreads, hafter]

/-! ### Answers up to counts -/

/-- An answer up to the number of messages removed. -/
def withoutCount : Except Error Result → Except Error Result
  | .ok (.count _) => .ok (.count 0)
  | answer => answer

theorem withoutCount_eq {a b : Except Error Result} (h : withoutCount a = withoutCount b) :
    a = b ∨ ∃ n n', a = .ok (.count n) ∧ b = .ok (.count n') := by
  rcases a with e | r <;> rcases b with e' | r'
  · exact Or.inl h
  · cases r' <;> cases h
  · cases r <;> cases h
  · cases r <;> cases r'
    case count.count n n' => exact Or.inr ⟨n, n', rfl, rfl⟩
    all_goals first | exact Or.inl h | cases h

theorem rewritten_congr (hop : y.operation = x.operation)
    (hanswer : withoutCount y.answer = withoutCount x.answer) : y.rewritten = x.rewritten := by
  obtain ⟨_, op, answer, _, _⟩ := x
  obtain ⟨_, op', answer', _, _⟩ := y
  obtain rfl : op' = op := hop
  rcases withoutCount_eq hanswer with he | ⟨n, n', hn, hn'⟩
  · obtain rfl : answer' = answer := he
    rfl
  · obtain rfl : answer' = .ok (.count n) := hn
    obtain rfl : answer = .ok (.count n') := hn'
    -- a count is not what a lease answers
    cases op' <;> rfl

/-! ### Parts of tables through a step -/

theorem filter_filterMap {α : Type} {p : α → Bool} {f : α → Option α}
    (hp : ∀ a a', f a = some a' → p a' = p a) (l : List α) :
    (l.filterMap f).filter p = (l.filter p).filterMap f := by
  induction l with
  | nil => rfl
  | cons a l ih =>
    rcases ha : f a with _ | a'
    · rw [List.filterMap_cons_none ha, ih]
      by_cases hpa : p a = true
      · rw [List.filter_cons_of_pos hpa, List.filterMap_cons_none ha]
      · rw [List.filter_cons_of_neg hpa]
    · rw [List.filterMap_cons_some ha]
      by_cases hpa : p a = true
      · rw [List.filter_cons_of_pos hpa, List.filterMap_cons_some ha,
          List.filter_cons_of_pos ((hp a a' ha).trans hpa), ih]
      · have hpa' : ¬p a' = true := by rw [hp a a' ha]; exact hpa
        rw [List.filter_cons_of_neg hpa, List.filter_cons_of_neg hpa', ih]

theorem map_filterMap_sublist {α β : Type} {key : α → β} {f : α → Option α}
    (hkey : ∀ a a', f a = some a' → key a' = key a) (l : List α) :
    ((l.filterMap f).map key).Sublist (l.map key) := by
  induction l with
  | nil => exact List.Sublist.slnil
  | cons a l ih =>
    rcases ha : f a with _ | a'
    · rw [List.filterMap_cons_none ha]
      exact ih.cons (key a)
    · rw [List.filterMap_cons_some ha, List.map_cons, List.map_cons, hkey a a' ha]
      exact ih.cons_cons (key a)

/-- A part of the messages that is told by identifiers and queues is rewritten on its own. -/
theorem filter_rewritten {p : MessageRow → Bool}
    (hp : ∀ r r' : MessageRow, r'.id = r.id → r'.queueId = r.queueId → p r' = p r) (s : Store) :
    (x.rewritten s).messages.filter p = (s.messages.filter p).filterMap x.rewrite ++
      (x.inserted.map MessageRow.ofMessage).filter p := by
  rw [Step.rewritten, List.filter_append, filter_filterMap]
  intro r r' hr
  obtain ⟨hid, hqueue⟩ := Step.key_of_rewrite hr
  exact hp r r' hid hqueue

theorem filter_rewrittenQueues {p : QueueRow → Bool}
    (hp : ∀ r r' : QueueRow, r'.id = r.id → p r' = p r) (s : Store) :
    (x.rewritten s).queues.filter p = (s.queues.filter p).filterMap x.rewriteQueue ++
      (x.insertedQueues.map QueueRow.ofQueue).filter p := by
  rw [Step.rewritten, List.filter_append, filter_filterMap]
  intro r r' hr
  exact hp r r' (Step.id_of_rewriteQueue hr)

theorem Keyed.after (h : x.before.Keyed) (hop : x.operation.onQueues = true) : x.after.Keyed := by
  by_cases hinserted : x.inserted = []
  · rw [h.after_eq hop]
    refine ⟨⟨h.rules, h.missing, h.closed⟩, ?_⟩
    rw [Step.rewritten, hinserted, List.map_nil, List.append_nil]
    exact h.ids.sublist (map_filterMap_sublist (fun _ _ hr => (Step.key_of_rewrite hr).1) _)
  · rcases hanswer : x.answer with e | result
    · exact absurd (by rw [Step.inserted, hanswer]) hinserted
    · cases hx : x.operation with
      | createMessage m =>
        obtain ⟨_, hs⟩ := x.exists_ok hanswer (a := createMessage m) (by rw [hx]; rfl)
        exact (h.of_createMessage hs).2
      | createMessages ms =>
        obtain ⟨_, hs⟩ := x.exists_ok hanswer (a := createMessages ms) (by rw [hx]; rfl)
        exact (h.of_createMessages hs).2
      | _ => exact absurd (Step.inserted_eq_nil (by rw [hx]; rfl)) hinserted

/-! ### Single rows through a step -/

theorem messageSide_of_not_onQueues (hop : ¬x.operation.onQueues = true) :
    x.after.messageSide = x.before.messageSide := by
  have hwrites : x.operation.writesMessages = false := by
    cases hx : x.operation <;> simp_all [Operation.onQueues, Operation.writesMessages]
  have hafter : (perform x.operation x.before).2 = x.after := congrArg Prod.snd x.performed
  have hside := preserves_perform hwrites x.before
  rwa [hafter] at hside

theorem Keyed.keyed_after (h : x.before.Keyed) : x.after.Keyed := by
  by_cases hop : x.operation.onQueues = true
  · exact h.after hop
  · exact (h.follows_of_messageSide (messageSide_of_not_onQueues hop)).keyed

/-- Every row after a step is the rewritten form of one before it, or that of a new message. -/
theorem Keyed.exists_of_mem_after (h : x.before.Keyed) {r' : MessageRow}
    (hr' : r' ∈ x.after.messages) (hinserted : ∀ m ∈ x.inserted, m.id ≠ r'.id) :
    ∃ r ∈ x.before.messages, x.rewrite r = some r' := by
  by_cases hop : x.operation.onQueues = true
  · rw [h.after_eq hop, Step.rewritten, List.mem_append] at hr'
    rcases hr' with hr' | hr'
    · exact List.mem_filterMap.mp hr'
    · obtain ⟨m, hm, rfl⟩ := List.mem_map.mp hr'
      exact absurd rfl (hinserted m hm)
  · have hsees : x.operation.sees r' = false := by
      cases hx : x.operation <;> simp_all [Operation.onQueues, Operation.sees]
    have hmessages : x.after.messages = x.before.messages :=
      congrArg Prod.fst (messageSide_of_not_onQueues hop)
    exact ⟨r', hmessages ▸ hr', Step.rewrite_of_not_sees hsees⟩

theorem expiredAt_of_rewrite {t : Instant} (ht : t.IsRepresentable) {r r' : MessageRow}
    (hrewrite : x.rewrite r = some r') (hexpired : r.expiredAt = t.stored) :
    r'.expiredAt = t.stored ∨ ∃ now, x.operation = .ack r.id now ∧ r'.expiredAt = now.stored := by
  unfold Step.rewrite at hrewrite
  split at hrewrite
  · cases hrewrite
    exact Or.inl hexpired
  · split_ifs at hrewrite with hsees
    · split at hrewrite
      · left
        cases hrewrite
        unfold MessageRow.leasedAmong
        split <;> exact hexpired
      · next id now hop =>
        rw [hop] at hsees
        have hid : r.id = id := of_decide_eq_true hsees
        cases hrewrite
        unfold MessageRow.readAndWritten
        split
        · exact Or.inr ⟨now, by rw [hop, hid], rfl⟩
        · exact Or.inl hexpired
      · left
        cases hrewrite
        unfold MessageRow.readAndWritten
        split
        · next m hdecode =>
          -- the row is written back with the expiry that was read from it
          have hread := MessageRow.read?_expiredAt hdecode
          rw [hexpired, Instant.read?_stored ht] at hread
          rw [Option.some.inj hread]
          rfl
        · exact hexpired
      · cases hrewrite
      · cases hrewrite
      · cases hrewrite
        exact Or.inl hexpired
    · cases hrewrite
      exact Or.inl hexpired

end Steps

end MessageBroker.Store

import MessageBroker.Proofs.Store.Claim
import MessageBroker.Proofs.Store.Expiry

/-! # What operations look at

An operation on queues and messages looks at some rows (`Operation.sees`, `Operation.seesQueue`),
and at whether the identifiers of new messages are taken. It answers the same on two stores that
agree on these, whatever else they hold (`Keyed.answer_congr`). -/

namespace MessageBroker.Store

open Fallible

/-! ### What an operation looks at -/

/-- The operation is not on topics or subscriptions. -/
def Operation.onQueues : Operation → Bool
  | .createTopic _ | .getTopic _ | .listTopics .. | .deleteTopic _
  | .createSubscription _ | .getSubscription _ | .listSubscriptions ..
  | .listTopicSubscriptions .. | .deleteSubscription _ => false
  | _ => true

/-- Whether an operation looks at the row of a message. -/
def Operation.sees : Operation → MessageRow → Bool
  | .queueStats id now, r => r.queueId = id && r.isVisible now
  | .lease q label _ now, r => r.hasLabel label && (r.queueId = q.id && r.isVisible now)
  | .purge id, r => r.queueId = id
  | .cleanup id now, r => r.queueId = id && r.isExpired now
  | .getMessage id, r | .ack id _, r | .nack id _ _, r => r.id = id
  | .allMessages, _ => true
  | _, _ => false

/-- Whether an operation looks at the row of a queue. -/
def Operation.seesQueue : Operation → QueueRow → Bool
  | .createQueue q, r | .updateQueue q, r => r.id = q.id
  | .getQueue id, r | .deleteQueue id, r => r.id = id
  | .listQueues .., _ => true
  | _, _ => false

/-- A message with an identifier is stored. -/
def Stores (s : Store) (id : String) : Prop := ∃ r ∈ s.messages, r.id = id

instance (s : Store) (id : String) : Decidable (s.Stores id) :=
  inferInstanceAs (Decidable (∃ r ∈ s.messages, r.id = id))

/-- Two stores agree on what an operation looks at. -/
structure Operation.SeesSame (op : Operation) (s s' : Store) : Prop where
  messages : s'.messages.filter op.sees = s.messages.filter op.sees
  queues : s'.queues.filter op.seesQueue = s.queues.filter op.seesQueue
  taken : ∀ m ∈ op.submitted, s'.Stores m.id ↔ s.Stores m.id

/-! ### Answers -/

section Answers

variable {s s' : Store}

/-! #### Tables -/

section Tables

variable {ρ α : Type} [TableRow ρ]

theorem rowOf_congr {id : String} {rows rows' : List ρ}
    (hrows : rows'.filter (Row.id · = id) = rows.filter (Row.id · = id)) :
    rowOf id rows' = rowOf id rows := by
  unfold rowOf
  rw [← List.head?_filter, ← List.head?_filter, hrows]

theorem countP_congr_filter {p : α → Bool} {l l' : List α} (h : l'.filter p = l.filter p) :
    l'.countP p = l.countP p := by
  rw [List.countP_eq_length_filter, List.countP_eq_length_filter, h]

theorem exists_congr_filter {p : α → Bool} {l l' : List α} (h : l'.filter p = l.filter p) :
    (∃ a ∈ l', p a = true) ↔ ∃ a ∈ l, p a = true := by
  have hne (l : List α) : (∃ a ∈ l, p a = true) ↔ l.filter p ≠ [] := by
    rw [Ne, List.filter_eq_nil_iff]
    push Not
    rfl
  rw [hne, hne, h]

theorem requireAffected_fst (e : Error) (n : Nat) (s s' : Store) :
    (requireAffected e n s').1 = (requireAffected e n s).1 := by
  unfold requireAffected
  split_ifs <;> rfl

variable (h : s.Undisturbed) (h' : s'.Undisturbed) (entity : Entity)
include h h'

theorem get_congr [LawfulTableRow ρ] (decode? : ρ → Option α) {id : String}
    (hrows : (TableRow.rows s' : List ρ).filter (Row.id · = id) =
      (TableRow.rows s : List ρ).filter (Row.id · = id)) :
    (get entity decode? id s').1 = (get entity decode? id s).1 := by
  unfold get
  rw [select_undisturbed _ _ h, select_undisturbed _ _ h']
  dsimp only
  rw [rowOf_congr hrows]

theorem insert_congr {r : ρ}
    (htaken : (∃ other ∈ (TableRow.rows s' : List ρ), Row.id other = Row.id r) ↔
      ∃ other ∈ (TableRow.rows s : List ρ), Row.id other = Row.id r) :
    (insert entity r s').1 = (insert entity r s).1 := by
  by_cases hs : ∃ other ∈ (TableRow.rows s : List ρ), Row.id other = Row.id r
  · obtain ⟨other, hother, hid⟩ := hs
    obtain ⟨other', hother', hid'⟩ := htaken.mpr ⟨other, hother, hid⟩
    rw [insert_of_mem h entity hother hid, insert_of_mem h' entity hother' hid']
  · have hs' := mt htaken.mp hs
    push Not at hs hs'
    rw [insert_of_ne h entity hs, insert_of_ne h' entity hs']

theorem delete_congr {id : String}
    (hrows : (TableRow.rows s' : List ρ).filter (Row.id · = id) =
      (TableRow.rows s : List ρ).filter (Row.id · = id)) :
    (delete ρ entity id s').1 = (delete ρ entity id s).1 := by
  have hdeletes {s : Store} (h : s.Undisturbed) := statement_ok (.ofRecord entity id)
    (fun rules rows => deleteRows rules (fun r : ρ => Row.id r = id) rows) h (deleteRows_none _ _)
  unfold delete
  rw [bind_ok (hdeletes h), bind_ok (hdeletes h'), countP_congr_filter hrows]
  exact requireAffected_fst _ _ _ _

end Tables

/-! #### Queues -/

theorem updateQueue_congr (h : s.Undisturbed) (h' : s'.Undisturbed) {q : Queue}
    (hrows : s'.queues.filter (·.id = q.id) = s.queues.filter (·.id = q.id)) :
    (updateQueue q s').1 = (updateQueue q s).1 := by
  have hupdates {s : Store} (h : s.Undisturbed) := statement_ok (.ofRecord .queue q.id)
    (fun rules rows =>
      updateRows rules (fun r : QueueRow => r.id = q.id) (fun _ => .ofQueue q) rows)
    h (updateRows_none _ _ _)
  have hcount : (TableRow.rows s' : List QueueRow).countP (·.id = q.id) =
      (TableRow.rows s : List QueueRow).countP (·.id = q.id) := countP_congr_filter hrows
  unfold updateQueue
  rw [bind_ok (hupdates h), bind_ok (hupdates h'), hcount]
  exact requireAffected_fst _ _ _ _

theorem listQueues_congr (h : s.Undisturbed) (h' : s'.Undisturbed) (offset limit : UInt32)
    (hrows : s'.queues = s.queues) :
    (listQueues offset limit s').1 = (listQueues offset limit s).1 := by
  have hrows' : (TableRow.rows s' : List QueueRow) = TableRow.rows s := hrows
  unfold listQueues listPage
  rw [select_undisturbed _ _ h, select_undisturbed _ _ h', hrows']

/-! #### Messages -/

theorem allMessages_congr (h : s.Undisturbed) (h' : s'.Undisturbed)
    (hrows : s'.messages = s.messages) : (allMessages s').1 = (allMessages s).1 := by
  have hrows' : (TableRow.rows s' : List MessageRow) = TableRow.rows s := hrows
  unfold allMessages
  rw [select_undisturbed _ _ h, select_undisturbed _ _ h', hrows']

theorem deletion_eq (h : s.Undisturbed) (selected : MessageRow → Bool) :
    statement .plain (fun rules rows => deleteRows rules selected rows) s =
      (.ok (s.messages.countP selected),
        { s with messages := s.messages.filter fun r => !selected r }) :=
  statement_ok .plain (fun rules rows => deleteRows rules selected rows) h (deleteRows_none _ _)

theorem deletion_congr (h : s.Undisturbed) (h' : s'.Undisturbed) {selected : MessageRow → Bool}
    (hrows : s'.messages.filter selected = s.messages.filter selected) :
    (statement .plain (fun rules rows => deleteRows rules selected rows) s').1 =
      (statement .plain (fun rules rows => deleteRows rules selected rows) s).1 := by
  rw [deletion_eq h, deletion_eq h', countP_congr_filter hrows]

theorem stores_addMessages {l : List Message} {id : String} :
    (s.addMessages l).Stores id ↔ s.Stores id ∨ ∃ m ∈ l, m.id = id := by
  simp only [Stores, addMessages, List.mem_append, or_and_right, exists_or, List.mem_map,
    exists_exists_and_eq_and]
  rfl

theorem forM_insert_congr (h : s.Undisturbed) (h' : s'.Undisturbed) {l : List Message}
    (htaken : ∀ m ∈ l, s'.Stores m.id ↔ s.Stores m.id) :
    ((l.forM fun m => insert .message (MessageRow.ofMessage m)) s').1 =
      ((l.forM fun m => insert .message (MessageRow.ofMessage m)) s).1 := by
  induction l generalizing s s' with
  | nil => rfl
  | cons m l ih =>
    obtain ⟨hm, hl⟩ := List.forall_mem_cons.mp htaken
    simp only [List.forM_eq_forM, List.forM_cons] at ih ⊢
    by_cases hs : s.Stores m.id
    · obtain ⟨r, hr, hid⟩ := hs
      obtain ⟨r', hr', hid'⟩ := hm.mpr ⟨r, hr, hid⟩
      rw [bind_error (insert_of_taken h hr hid), bind_error (insert_of_taken h' hr' hid')]
    · have hs' := mt hm.mp hs
      unfold Stores at hs hs'
      push Not at hs hs'
      rw [bind_ok (insert_fresh h hs), bind_ok (insert_fresh h' hs')]
      refine ih (h.addMessages [m]) (h'.addMessages [m]) fun m' hm' => ?_
      rw [stores_addMessages, stores_addMessages, hl m' hm']

theorem createMessages_congr (h : s.Undisturbed) (h' : s'.Undisturbed) {l : List Message}
    (htaken : ∀ m ∈ l, s'.Stores m.id ↔ s.Stores m.id) :
    (createMessages l s').1 = (createMessages l s).1 := by
  have hforM := forM_insert_congr h h' htaken
  unfold createMessages
  split_ifs
  · rfl
  · rw [transaction_apply h, transaction_apply h']
    generalize (l.forM fun m => insert .message (MessageRow.ofMessage m)) s = x at hforM ⊢
    generalize (l.forM fun m => insert .message (MessageRow.ofMessage m)) s' = x' at hforM ⊢
    obtain ⟨_ | _, _⟩ := x <;> obtain ⟨_ | _, _⟩ := x' <;> cases hforM <;> rfl

theorem readCandidates_congr (h : s.Undisturbed) (h' : s'.Undisturbed) {q : Queue}
    {label : Option String} {limit : UInt32} {now : Instant}
    (hrows : s'.messages.filter (Operation.lease q label limit now).sees =
      s.messages.filter (Operation.lease q label limit now).sees) :
    (readCandidates q label limit now s').1 = (readCandidates q label limit now s).1 := by
  unfold readCandidates candidates
  split_ifs
  · rfl
  · have hvisible (s : Store) :
        (visibleRows q.id now (TableRow.rows s)).filter (fun r => r.hasLabel label) =
          s.messages.filter (Operation.lease q label limit now).sees := by
      rw [visibleRows, List.filter_filter]
      rfl
    rw [select_undisturbed _ _ h, select_undisturbed _ _ h']
    dsimp only
    rw [hvisible, hvisible, hrows]

/-- A lease answers its candidates renewed, or why they could not be read. -/
theorem Keyed.answer_lease (h : s.Keyed) (q : Queue) (label : Option String) (limit : UInt32)
    (now : Instant) : (lease q label limit now s).1 =
      (readCandidates q label limit now s).1.map (List.map (·.leaseRenew q now)) := by
  rcases hread : readCandidates q label limit now s with ⟨e | ms, s₁⟩
  · rw [lease_eq_bind, bind_error hread]
    rfl
  · rw [h.lease_eq (congrArg Prod.fst hread)]
    rfl

theorem answer_rewrite (h : s.Undisturbed) {id : String} {f : Message → Message}
    (hid : ∀ m, (f m).id = m.id) : ((getMessage id >>= fun m => updateMessage (f m)) s).1 =
      (getMessage id s).1.map fun _ => () := by
  rcases hget : getMessage id s with ⟨e | m, s₁⟩
  · rw [bind_error hget]
    rfl
  · rw [rewrite_eq h hid hget]
    rfl

theorem rewrite_congr (h : s.Undisturbed) (h' : s'.Undisturbed) {id : String}
    {f : Message → Message} (hid : ∀ m, (f m).id = m.id)
    (hrows : s'.messages.filter (·.id = id) = s.messages.filter (·.id = id)) :
    ((getMessage id >>= fun m => updateMessage (f m)) s').1 =
      ((getMessage id >>= fun m => updateMessage (f m)) s).1 := by
  have hget : (getMessage id s').1 = (getMessage id s).1 :=
    get_congr h h' .message MessageRow.decode? hrows
  rw [answer_rewrite h hid, answer_rewrite h' hid, hget]

/-! #### All operations on queues and messages -/

theorem answer_of_access {α : Type} {a : Access α} {g : α → Result} (h : (a s').1 = (a s).1) :
    ((a >>= fun v => pure (g v)) s').1 = ((a >>= fun v => pure (g v)) s).1 := by
  rw [bind_pure_apply, bind_pure_apply, h]

/-- **What an operation answers follows from what it looks at.** -/
theorem Keyed.answer_congr (h : s.Keyed) (h' : s'.Keyed) {op : Operation} (hop : op.onQueues = true)
    (hsame : op.SeesSame s s') : (perform op s').1 = (perform op s).1 := by
  have hu := h.toUndisturbed
  have hu' := h'.toUndisturbed
  obtain ⟨hmessages, hqueues, htaken⟩ := hsame
  cases op with
  | createQueue q =>
    have hids := exists_congr_filter hqueues
    simp only [Operation.seesQueue, decide_eq_true_eq] at hids
    exact answer_of_access (insert_congr hu hu' .queue hids)
  | updateQueue q => exact answer_of_access (updateQueue_congr hu hu' hqueues)
  | getQueue id => exact answer_of_access (get_congr hu hu' .queue QueueRow.decode? hqueues)
  | listQueues offset limit =>
    have hall : ∀ rows : List QueueRow,
        rows.filter (Operation.listQueues offset limit).seesQueue = rows :=
      fun rows => List.filter_eq_self.mpr fun _ _ => rfl
    rw [hall, hall] at hqueues
    exact answer_of_access (listQueues_congr hu hu' offset limit hqueues)
  | deleteQueue id => exact answer_of_access (delete_congr (ρ := QueueRow) hu hu' .queue hqueues)
  | queueStats id now => exact answer_of_access (queueStats_congr hu hu' hmessages)
  | purge id => exact answer_of_access (deletion_congr hu hu' hmessages)
  | cleanup id now => exact answer_of_access (deletion_congr hu hu' hmessages)
  | createMessage m =>
    refine answer_of_access ?_
    rw [createMessage, bind_ok (connect_ok hu), bind_ok (connect_ok hu')]
    exact insert_congr hu hu' .message (htaken m (List.mem_singleton_self m))
  | createMessages ms => exact answer_of_access (createMessages_congr hu hu' htaken)
  | getMessage id => exact answer_of_access (get_congr hu hu' .message MessageRow.decode? hmessages)
  | allMessages =>
    have hall : ∀ rows : List MessageRow, rows.filter Operation.allMessages.sees = rows :=
      fun rows => List.filter_eq_self.mpr fun _ _ => rfl
    rw [hall, hall] at hmessages
    exact answer_of_access (allMessages_congr hu hu' hmessages)
  | lease q label limit now =>
    refine answer_of_access ?_
    rw [h.answer_lease, h'.answer_lease, readCandidates_congr hu hu' hmessages]
  | ack id now =>
    refine answer_of_access (rewrite_congr hu hu' (f := (·.ack now)) ?_ hmessages)
    exact fun _ => rfl
  | nack id timeout now =>
    refine answer_of_access (rewrite_congr hu hu' (f := (·.nack now timeout)) ?_ hmessages)
    exact fun _ => rfl
  | health =>
    refine answer_of_access ?_
    rw [health, bind_ok (connect_ok hu), bind_ok (connect_ok hu')]
    rfl
  | _ => cases hop

theorem Step.answer_eq (x : Step) : x.answer = (perform x.operation x.before).1 :=
  (congrArg Prod.fst x.performed).symm

theorem Keyed.answer_step {x y : Step} (h : x.before.Keyed) (h' : y.before.Keyed)
    (hop : y.operation = x.operation) (hon : x.operation.onQueues = true)
    (hsame : x.operation.SeesSame x.before y.before) : y.answer = x.answer := by
  rw [x.answer_eq, y.answer_eq, hop, h.answer_congr h' hon hsame]

end Answers

end MessageBroker.Store

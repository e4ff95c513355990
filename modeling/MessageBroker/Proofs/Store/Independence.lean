import MessageBroker.Proofs.Store.Rewriting

/-! # Queues are independent

An operation on a queue, or on messages in it, is addressed to the queue (`Operation.address?`).
What it does follows from the part of the store that belongs to the queue, and from whether the
identifiers of new messages are taken, in whatever queue (`Keyed.part_congr`); and it leaves the
parts of all other queues (`Keyed.part_of_ne`). So operations that are addressed to different queues
commute (`Keyed.commute`), and those addressed to one queue can be left out of a run without the
others noticing (`AgreeOutside.run`), unless one inserts a message under an identifier that another
stores or deletes: identifiers are shared by all queues. -/

namespace MessageBroker.Store

/-! ### Addresses -/

/-- The queue that an operation is on, or whose messages it is on. -/
def Operation.address? (op : Operation) (s : Store) : Option String :=
  match op with
  | .createQueue q | .updateQueue q | .lease q _ _ _ => some q.id
  | .getQueue id | .deleteQueue id | .queueStats id _ | .purge id | .cleanup id _ => some id
  | .createMessage m => some m.queueId
  | .createMessages (m :: ms) => if ms.all (·.queueId = m.queueId) then some m.queueId else none
  | .getMessage id | .ack id _ | .nack id _ _ =>
    (s.messages.find? fun r => r.id = id).map MessageRow.queueId
  | _ => none

/-- The part of a store that belongs to a queue: its record and its messages. -/
def part (s : Store) (queueId : String) : List QueueRow × List MessageRow :=
  (s.queues.filter (·.id = queueId), s.messages.filter (·.queueId = queueId))

/-- A message with an identifier is stored in a queue. -/
def StoresIn (s : Store) (queueId id : String) : Prop := ∃ r ∈ (s.part queueId).2, r.id = id

/-- A step stores the message with an identifier, or deletes it. -/
def Step.Moves (x : Step) (id : String) : Prop := ¬(x.after.Stores id ↔ x.before.Stores id)

instance (x : Step) (id : String) : Decidable (x.Moves id) :=
  inferInstanceAs (Decidable (¬(x.after.Stores id ↔ x.before.Stores id)))

/-- Two stores hold the same rows, in whatever order. -/
structure SameRows (s s' : Store) : Prop where
  queues : s'.queues.Perm s.queues
  messages : s'.messages.Perm s.messages
  topics : s'.topics = s.topics
  subscriptions : s'.subscriptions = s.subscriptions

section Addresses

variable {s : Store} {op : Operation} {queueId : String}

theorem onQueues_of_address (h : op.address? s = some queueId) : op.onQueues = true := by
  cases op with
  | createTopic | getTopic | listTopics | deleteTopic | createSubscription | getSubscription
  | listSubscriptions | listTopicSubscriptions | deleteSubscription => cases h
  | _ => rfl

theorem Keyed.queueId_of_find (h : s.Keyed) {id : String}
    (hfind : (s.messages.find? fun r => r.id = id).map MessageRow.queueId = some queueId)
    {r : MessageRow} (hr : r ∈ s.messages) (hid : r.id = id) : r.queueId = queueId := by
  obtain ⟨r₀, hr₀, hqueue⟩ := Option.map_eq_some_iff.mp hfind
  have hid₀ := List.find?_some (p := fun r : MessageRow => decide (r.id = id)) hr₀
  rw [h.eq_of_id (List.mem_of_find?_eq_some hr₀) hr (hid.trans (of_decide_eq_true hid₀).symm)]
  exact hqueue

/-- An operation looks at messages of the queue that it is addressed to only. -/
theorem Keyed.queueId_of_sees (h : s.Keyed) (haddress : op.address? s = some queueId)
    {r : MessageRow} (hr : r ∈ s.messages) (hsees : op.sees r = true) : r.queueId = queueId := by
  cases op with
  | queueStats id now | purge id | cleanup id now =>
    cases haddress
    simp only [Operation.sees, Bool.and_eq_true, decide_eq_true_eq] at hsees
    first | exact hsees.1 | exact hsees
  | lease q label limit now =>
    cases haddress
    simp only [Operation.sees, Bool.and_eq_true, decide_eq_true_eq] at hsees
    exact hsees.2.1
  | getMessage id | ack id now | nack id timeout now =>
    exact h.queueId_of_find haddress hr (of_decide_eq_true hsees)
  | allMessages => cases haddress
  | _ => cases hsees

theorem id_of_seesQueue (haddress : op.address? s = some queueId) {r : QueueRow}
    (hsees : op.seesQueue r = true) : r.id = queueId := by
  cases op with
  | createQueue | updateQueue | getQueue | deleteQueue =>
    cases haddress
    exact of_decide_eq_true hsees
  | listQueues => cases haddress
  | _ => cases hsees

theorem queueId_of_submitted (haddress : op.address? s = some queueId) {m : Message}
    (hm : m ∈ op.submitted) : m.queueId = queueId := by
  cases op with
  | createMessage m' =>
    cases haddress
    rw [List.mem_singleton.mp hm]
  | createMessages ms =>
    cases ms with
    | nil => cases haddress
    | cons m' ms =>
      simp only [Operation.address?] at haddress
      split_ifs at haddress with hall
      cases haddress
      rcases List.mem_cons.mp hm with rfl | hm
      · rfl
      · exact of_decide_eq_true (List.all_eq_true.mp hall m hm)
  | _ => exact absurd hm List.not_mem_nil

end Addresses

/-! ### Parts through a step -/

section Steps

variable {s s' : Store} {x y : Step} {queueId queueId' id : String}

theorem queueId_of_inserted (haddress : x.operation.address? s = some queueId) {m : Message}
    (hm : m ∈ x.inserted) : m.queueId = queueId := by
  unfold Step.inserted at hm
  split at hm
  · exact queueId_of_submitted haddress hm
  · exact absurd hm List.not_mem_nil

theorem id_of_insertedQueues (haddress : x.operation.address? s = some queueId) {q : Queue}
    (hq : q ∈ x.insertedQueues) : q.id = queueId := by
  unfold Step.insertedQueues at hq
  split at hq
  · next q' _ hop _ =>
    rw [hop] at haddress
    rw [List.mem_singleton.mp hq]
    exact Option.some.inj haddress
  · exact absurd hq List.not_mem_nil

theorem filter_filter_of_imp {α : Type} {p p' : α → Bool} {l : List α}
    (h : ∀ a ∈ l, p a = true → p' a = true) : (l.filter p').filter p = l.filter p := by
  rw [List.filter_filter]
  refine List.filter_congr fun a ha => ?_
  by_cases hp : p a = true
  · rw [hp, h a ha hp, Bool.true_and]
  · rw [Bool.eq_false_of_not_eq_true hp, Bool.false_and]

theorem part_rewritten (x : Step) (s : Store) (queueId : String) :
    (x.rewritten s).part queueId =
      ((s.part queueId).1.filterMap x.rewriteQueue ++
        (x.insertedQueues.map QueueRow.ofQueue).filter (·.id = queueId),
      (s.part queueId).2.filterMap x.rewrite ++
        (x.inserted.map MessageRow.ofMessage).filter (·.queueId = queueId)) := by
  unfold part
  rw [filter_rewritten fun r r' _ hqueue => by rw [hqueue],
    filter_rewrittenQueues fun r r' hid => by rw [hid]]

/-- **A step leaves the parts of all queues but the one that it is addressed to.** -/
theorem Keyed.part_of_ne (h : x.before.Keyed)
    (haddress : x.operation.address? x.before = some queueId) (hne : queueId' ≠ queueId) :
    x.after.part queueId' = x.before.part queueId' := by
  have hqueues : (x.before.part queueId').1.filterMap x.rewriteQueue =
      (x.before.part queueId').1 := by
    rw [List.filterMap_congr (g := some), List.filterMap_some]
    intro r hr
    refine Step.rewriteQueue_of_not_sees (Bool.eq_false_of_not_eq_true fun hsees => hne ?_)
    rw [← id_of_seesQueue haddress hsees, of_decide_eq_true (List.mem_filter.mp hr).2]
  have hmessages : (x.before.part queueId').2.filterMap x.rewrite = (x.before.part queueId').2 := by
    rw [List.filterMap_congr (g := some), List.filterMap_some]
    intro r hr
    obtain ⟨hmem, hqueue⟩ := List.mem_filter.mp hr
    refine Step.rewrite_of_not_sees (Bool.eq_false_of_not_eq_true fun hsees => hne ?_)
    rw [← h.queueId_of_sees haddress hmem hsees, of_decide_eq_true hqueue]
  have hinsertedQueues : (x.insertedQueues.map QueueRow.ofQueue).filter (·.id = queueId') = [] := by
    rw [List.filter_eq_nil_iff]
    intro r hr he
    obtain ⟨q, hq, rfl⟩ := List.mem_map.mp hr
    exact hne ((of_decide_eq_true he).symm.trans (id_of_insertedQueues haddress hq))
  have hinserted : (x.inserted.map MessageRow.ofMessage).filter (·.queueId = queueId') = [] := by
    rw [List.filter_eq_nil_iff]
    intro r hr he
    obtain ⟨m, hm, rfl⟩ := List.mem_map.mp hr
    exact hne ((of_decide_eq_true he).symm.trans (queueId_of_inserted haddress hm))
  rw [h.after_eq (onQueues_of_address haddress), part_rewritten, hqueues, hmessages, hinserted,
    hinsertedQueues, List.append_nil, List.append_nil]

theorem Keyed.find?_message (h : s.Keyed) {r : MessageRow} (hr : r ∈ s.messages) :
    (s.messages.find? fun r' => r'.id = r.id) = some r := find?_of_mem h.ids hr

theorem Keyed.address_congr (h' : s'.Keyed) {op : Operation}
    (haddress : op.address? s = some queueId) (hpart : s'.part queueId = s.part queueId) :
    op.address? s' = some queueId := by
  have hfind {id : String}
      (hs : (s.messages.find? fun r => r.id = id).map MessageRow.queueId = some queueId) :
      (s'.messages.find? fun r => r.id = id).map MessageRow.queueId = some queueId := by
    obtain ⟨r, hr, hqueue⟩ := Option.map_eq_some_iff.mp hs
    have hid := of_decide_eq_true
      (List.find?_some (p := fun r : MessageRow => decide (r.id = id)) hr)
    have hmem : r ∈ (s'.part queueId).2 := by
      rw [hpart]
      exact List.mem_filter.mpr ⟨List.mem_of_find?_eq_some hr, decide_eq_true hqueue⟩
    rw [← hid, h'.find?_message (List.mem_of_mem_filter hmem)]
    exact congrArg some hqueue
  cases op with
  | getMessage id | ack id now | nack id timeout now => exact hfind haddress
  | createMessages ms => cases ms <;> exact haddress
  | _ => exact haddress

/-- **A step does the same to two stores that agree on the queue that it is addressed to**, if the
same identifiers of new messages are taken. -/
theorem Keyed.part_congr (h : x.before.Keyed) (h' : y.before.Keyed)
    (hop : y.operation = x.operation)
    (haddress : x.operation.address? x.before = some queueId)
    (hpart : y.before.part queueId = x.before.part queueId)
    (htaken : ∀ m ∈ x.operation.submitted, y.before.Stores m.id ↔ x.before.Stores m.id) :
    y.answer = x.answer ∧ y.after.part queueId = x.after.part queueId := by
  have haddress' := h'.address_congr haddress hpart
  have hon := onQueues_of_address haddress
  have hsame : x.operation.SeesSame x.before y.before := by
    obtain ⟨hqueues, hmessages⟩ := Prod.mk.inj hpart
    refine ⟨?_, ?_, htaken⟩
    · rw [← filter_filter_of_imp fun r hr hsees =>
          decide_eq_true (h'.queueId_of_sees haddress' hr hsees), hmessages,
        filter_filter_of_imp fun r hr hsees =>
          decide_eq_true (h.queueId_of_sees haddress hr hsees)]
    · rw [← filter_filter_of_imp fun r _ hsees =>
          decide_eq_true (id_of_seesQueue haddress hsees), hqueues,
        filter_filter_of_imp fun r _ hsees => decide_eq_true (id_of_seesQueue haddress hsees)]
  have hanswer := h.answer_step h' hop hon hsame
  refine ⟨hanswer, ?_⟩
  rw [h.after_eq hon, h'.after_eq (hop ▸ hon), rewritten_congr hop (congrArg withoutCount hanswer),
    part_rewritten, part_rewritten, hpart]

/-! ### Identifiers that are taken -/

theorem stores_iff : s.Stores id ↔ ∃ queueId, s.StoresIn queueId id := by
  constructor
  · rintro ⟨r, hr, hid⟩
    exact ⟨r.queueId, r, List.mem_filter.mpr ⟨hr, decide_eq_true rfl⟩, hid⟩
  · rintro ⟨queueId, r, hr, hid⟩
    exact ⟨r, List.mem_of_mem_filter hr, hid⟩

/-- Two stores that agree on all queues but one hold the same identifiers, if they do so in this
one. -/
theorem stores_congr (hparts : ∀ q, q ≠ queueId → s'.part q = s.part q)
    (hin : s'.StoresIn queueId id ↔ s.StoresIn queueId id) : s'.Stores id ↔ s.Stores id := by
  rw [stores_iff, stores_iff]
  refine exists_congr fun q => ?_
  by_cases hq : q = queueId
  · rw [hq]
    exact hin
  · rw [StoresIn, StoresIn, hparts q hq]

theorem Keyed.storesIn_of_stores (h' : s'.Keyed)
    (hparts : ∀ q, q ≠ queueId → s'.part q = s.part q) (hin : s'.StoresIn queueId id)
    (hstores : s.Stores id) : s.StoresIn queueId id := by
  obtain ⟨r', hr', hid'⟩ := hin
  obtain ⟨hmem', hqueue'⟩ := List.mem_filter.mp hr'
  obtain ⟨r, hr, hid⟩ := hstores
  refine ⟨r, List.mem_filter.mpr ⟨hr, ?_⟩, hid⟩
  by_contra hne
  have hq : r.queueId ≠ queueId := fun he => hne (decide_eq_true he)
  -- otherwise the row is in both stores, under the identifier of another row
  have hmem : r ∈ (s'.part r.queueId).2 := by
    rw [hparts _ hq]
    exact List.mem_filter.mpr ⟨hr, decide_eq_true rfl⟩
  rw [h'.eq_of_id hmem' (List.mem_of_mem_filter hmem) (hid.trans hid'.symm)] at hq
  exact hq (of_decide_eq_true hqueue')

theorem Keyed.storesIn_step (h : x.before.Keyed)
    (haddress : x.operation.address? x.before = some queueId) (hid : ¬x.Moves id) :
    x.after.StoresIn queueId id ↔ x.before.StoresIn queueId id := by
  have hstores : x.after.Stores id ↔ x.before.Stores id := not_not.mp hid
  have hparts : ∀ q, q ≠ queueId → x.after.part q = x.before.part q :=
    fun q hq => h.part_of_ne haddress hq
  constructor
  · intro hin
    refine (h.after (onQueues_of_address haddress)).storesIn_of_stores hparts hin ?_
    exact hstores.mp (stores_iff.mpr ⟨queueId, hin⟩)
  · intro hin
    refine h.storesIn_of_stores (fun q hq => (hparts q hq).symm) hin ?_
    exact hstores.mpr (stores_iff.mpr ⟨queueId, hin⟩)

end Steps

/-! ### Two operations -/

theorem perm_of_filter_eq {α κ : Type} [DecidableEq α] [DecidableEq κ] (key : α → κ)
    {l l' : List α} (h : ∀ k, l'.filter (fun a => key a = k) = l.filter fun a => key a = k) :
    l'.Perm l := by
  refine List.perm_iff_count.mpr fun a => ?_
  have hcount (l : List α) : l.count a = (l.filter fun b => key b = key a).count a :=
    (List.count_filter (p := fun b => decide (key b = key a)) (decide_eq_true rfl)).symm
  rw [hcount l', hcount l, h]

section Pairs

variable {s : Store} {op₁ op₂ : Operation} {q₁ q₂ : String}

/-- An operation does the same after one that is addressed to another queue. -/
theorem Keyed.unaffected (h : s.Keyed) (h₁ : op₁.address? s = some q₁)
    (h₂ : op₂.address? s = some q₂) (hne : q₁ ≠ q₂)
    (hids : ∀ m ∈ op₁.submitted, ¬(Step.of op₂ s).Moves m.id) :
    (Step.of op₁ (Step.of op₂ s).after).answer = (Step.of op₁ s).answer ∧
      (Step.of op₁ (Step.of op₂ s).after).after.part q₁ = (Step.of op₁ s).after.part q₁ ∧
      ∀ q, q ≠ q₁ → (Step.of op₁ (Step.of op₂ s).after).after.part q =
        (Step.of op₂ s).after.part q := by
  have hs₂ : (Step.of op₂ s).before.Keyed := h
  have hkeyed := hs₂.after (onQueues_of_address h₂)
  have hpart : (Step.of op₂ s).after.part q₁ = s.part q₁ := hs₂.part_of_ne h₂ hne
  obtain ⟨hanswer, hafter⟩ := Keyed.part_congr (x := Step.of op₁ s)
    (y := Step.of op₁ (Step.of op₂ s).after) h hkeyed rfl h₁ hpart
    fun m hm => not_not.mp (hids m hm)
  refine ⟨hanswer, hafter, fun q hq => ?_⟩
  exact Keyed.part_of_ne (x := Step.of op₁ (Step.of op₂ s).after) hkeyed
    (hkeyed.address_congr h₁ hpart) hq

theorem Keyed.after_other (h : s.Keyed) (h₁ : op₁.address? s = some q₁) :
    (Step.of op₁ s).after.topics = s.topics ∧
      (Step.of op₁ s).after.subscriptions = s.subscriptions := by
  rw [Keyed.after_eq (x := Step.of op₁ s) h (onQueues_of_address h₁)]
  exact ⟨rfl, rfl⟩

theorem sameRows_of_parts {s s' : Store} (hparts : ∀ q, s'.part q = s.part q)
    (htopics : s'.topics = s.topics) (hsubscriptions : s'.subscriptions = s.subscriptions) :
    SameRows s s' :=
  ⟨perm_of_filter_eq QueueRow.id fun q => congrArg Prod.fst (hparts q),
    perm_of_filter_eq MessageRow.queueId fun q => congrArg Prod.snd (hparts q),
    htopics, hsubscriptions⟩

/-- **Operations that are addressed to different queues commute.** -/
theorem Keyed.commute (h : s.Keyed) (h₁ : op₁.address? s = some q₁)
    (h₂ : op₂.address? s = some q₂) (hne : q₁ ≠ q₂)
    (hids₁ : ∀ m ∈ op₁.submitted, ¬(Step.of op₂ s).Moves m.id)
    (hids₂ : ∀ m ∈ op₂.submitted, ¬(Step.of op₁ s).Moves m.id) :
    (run [op₂, op₁] s).1 = (run [op₁, op₂] s).1.reverse ∧
      SameRows (run [op₁, op₂] s).2 (run [op₂, op₁] s).2 := by
  obtain ⟨hanswer₁, hpart₁, hrest₁⟩ := h.unaffected h₁ h₂ hne hids₁
  obtain ⟨hanswer₂, hpart₂, hrest₂⟩ := h.unaffected h₂ h₁ hne.symm hids₂
  have hs₁ : (Step.of op₁ s).before.Keyed := h
  have hs₂ : (Step.of op₂ s).before.Keyed := h
  have hkeyed₁ := hs₁.after (onQueues_of_address h₁)
  have hkeyed₂ := hs₂.after (onQueues_of_address h₂)
  have haddress₁ := hkeyed₂.address_congr h₁ (hs₂.part_of_ne h₂ hne)
  have haddress₂ := hkeyed₁.address_congr h₂ (hs₁.part_of_ne h₁ hne.symm)
  constructor
  · change [(Step.of op₂ s).answer, (Step.of op₁ (Step.of op₂ s).after).answer] =
      [(Step.of op₂ (Step.of op₁ s).after).answer, (Step.of op₁ s).answer]
    rw [hanswer₁, hanswer₂]
  · refine sameRows_of_parts (fun q => ?_) ?_ ?_
    · change (Step.of op₁ (Step.of op₂ s).after).after.part q =
        (Step.of op₂ (Step.of op₁ s).after).after.part q
      by_cases hq₁ : q = q₁
      · rw [hq₁, hpart₁, hrest₂ q₁ hne]
      · by_cases hq₂ : q = q₂
        · rw [hq₂, hpart₂, hrest₁ q₂ hne.symm]
        · rw [hrest₁ q hq₁, hrest₂ q hq₂]
          exact (hs₂.part_of_ne h₂ hq₂).trans (hs₁.part_of_ne h₁ hq₁).symm
    · change (Step.of op₁ (Step.of op₂ s).after).after.topics =
        (Step.of op₂ (Step.of op₁ s).after).after.topics
      rw [(hkeyed₂.after_other haddress₁).1, (hkeyed₁.after_other haddress₂).1,
        (h.after_other h₁).1, (h.after_other h₂).1]
    · change (Step.of op₁ (Step.of op₂ s).after).after.subscriptions =
        (Step.of op₂ (Step.of op₁ s).after).after.subscriptions
      rw [(hkeyed₂.after_other haddress₁).2, (hkeyed₁.after_other haddress₂).2,
        (h.after_other h₁).2, (h.after_other h₂).2]

end Pairs

/-! ### Runs -/

/-- The steps of a run that are not addressed to a queue. -/
def stepsOutside (queueId : String) (l : List Step) : List Step :=
  l.filter fun x => x.operation.address? x.before ≠ some queueId

/-- Two stores that agree on all queues but one, and on whether this one holds the identifiers that
some steps are to insert. -/
structure AgreeOutside (queueId : String) (l : List Step) (s s' : Store) : Prop where
  keyed : s.Keyed
  keyed' : s'.Keyed
  parts : ∀ q, q ≠ queueId → s'.part q = s.part q
  taken : ∀ y ∈ stepsOutside queueId l, ∀ m ∈ y.operation.submitted,
    s'.StoresIn queueId m.id ↔ s.StoresIn queueId m.id

section Runs

variable {s s' : Store} {queueId : String} {x y : Step} {l : List Step}

/-- A step that is addressed to the queue is not noticed outside. -/
theorem AgreeOutside.skip (h : AgreeOutside queueId (x :: l) x.before s')
    (haddress : x.operation.address? x.before = some queueId)
    (hids : ∀ y ∈ stepsOutside queueId l, ∀ m ∈ y.operation.submitted, ¬x.Moves m.id) :
    AgreeOutside queueId l x.after s' := by
  refine ⟨h.keyed.after (onQueues_of_address haddress), h.keyed', fun q hq => ?_,
    fun y hy m hm => ?_⟩
  · rw [h.parts q hq, h.keyed.part_of_ne haddress hq]
  · have hy' : y ∈ stepsOutside queueId (x :: l) := by
      rw [stepsOutside, List.filter_cons_of_neg (by simp [haddress])]
      exact hy
    rw [h.taken y hy' m hm, h.keyed.storesIn_step haddress (hids y hy m hm)]

/-- A step that is addressed to another queue does the same to both stores. -/
theorem AgreeOutside.step (h : AgreeOutside queueId (x :: l) x.before y.before)
    (hop : y.operation = x.operation) {q : String}
    (haddress : x.operation.address? x.before = some q) (hq : q ≠ queueId) :
    y.answer = x.answer ∧ AgreeOutside queueId l x.after y.after := by
  have hne : x.operation.address? x.before ≠ some queueId := by
    rw [haddress]
    exact fun he => hq (Option.some.inj he)
  have hcons : stepsOutside queueId (x :: l) = x :: stepsOutside queueId l :=
    List.filter_cons_of_pos (decide_eq_true hne)
  have htaken : ∀ m ∈ x.operation.submitted, y.before.Stores m.id ↔ x.before.Stores m.id :=
    fun m hm => stores_congr h.parts (h.taken x (hcons ▸ List.mem_cons_self) m hm)
  obtain ⟨hanswer, hpart⟩ := h.keyed.part_congr h.keyed' hop haddress (h.parts q hq) htaken
  have haddress' : y.operation.address? y.before = some q := by
    rw [hop]
    exact h.keyed'.address_congr haddress (h.parts q hq)
  have hon := onQueues_of_address haddress
  refine ⟨hanswer, h.keyed.after hon, h.keyed'.after (hop ▸ hon), fun q' hq' => ?_,
    fun z hz m hm => ?_⟩
  · by_cases he : q' = q
    · rw [he]
      exact hpart
    · rw [h.keyed'.part_of_ne haddress' he, h.keyed.part_of_ne haddress he, h.parts q' hq']
  · rw [StoresIn, StoresIn, h.keyed'.part_of_ne haddress' hq.symm,
      h.keyed.part_of_ne haddress hq.symm]
    exact h.taken z (hcons ▸ List.mem_cons_of_mem _ hz) m hm

/-- **Operations addressed to other queues do not notice those that are left out.** -/
theorem AgreeOutside.run {ops : List Operation} (h : AgreeOutside queueId (trace ops s) s s')
    (haddress : ∀ x ∈ trace ops s, (x.operation.address? x.before).isSome = true)
    (hids : (trace ops s).Pairwise fun x y => x.operation.address? x.before = some queueId →
      y.operation.address? y.before ≠ some queueId →
        ∀ m ∈ y.operation.submitted, ¬x.Moves m.id) :
    (run ((stepsOutside queueId (trace ops s)).map Step.operation) s').1 =
      (stepsOutside queueId (trace ops s)).map Step.answer := by
  induction ops generalizing s s' with
  | nil => rfl
  | cons op ops ih =>
    change AgreeOutside queueId (Step.of op s :: trace ops (Step.of op s).after) s s' at h
    obtain ⟨hx, haddress⟩ := List.forall_mem_cons.mp haddress
    obtain ⟨hxids, hids⟩ := List.pairwise_cons.mp hids
    obtain ⟨q, hq⟩ := Option.isSome_iff_exists.mp hx
    rw [trace]
    by_cases he : q = queueId
    · subst he
      have hcons : stepsOutside q (Step.of op s :: trace ops (Step.of op s).after) =
          stepsOutside q (trace ops (Step.of op s).after) :=
        List.filter_cons_of_neg (by simp [hq])
      rw [hcons]
      refine ih (AgreeOutside.skip (x := Step.of op s) h hq fun y hy m hm => ?_) haddress hids
      obtain ⟨hmem, hne⟩ := List.mem_filter.mp hy
      exact hxids y hmem hq (of_decide_eq_true hne) m hm
    · have hcons : stepsOutside queueId (Step.of op s :: trace ops (Step.of op s).after) =
          Step.of op s :: stepsOutside queueId (trace ops (Step.of op s).after) := by
        refine List.filter_cons_of_pos (decide_eq_true ?_)
        rw [hq]
        exact fun hsome => he (Option.some.inj hsome)
      obtain ⟨hanswer, hstep⟩ :=
        AgreeOutside.step (x := Step.of op s) (y := Step.of op s') h rfl hq he
      rw [hcons]
      change (Step.of op s').answer :: (MessageBroker.Store.run _ (Step.of op s').after).1 =
        (Step.of op s).answer :: _
      rw [hanswer, ih hstep haddress hids]

end Runs

/-! ### All operations on queues -/

/-- **Queues are independent.** Two operations that are addressed to different queues commute,
unless one of them inserts a message under an identifier that the other stores or deletes: in either
order each answers the same, and the same rows are stored. In a run of such operations, those that
are not addressed to one queue answer as if those that are were left out, unless they insert a
message under an identifier that one of these stored or deleted before. -/
theorem queues_are_independent :
    (∀ (s : Store) (q₁ q₂ : String) (op₁ op₂ : Operation), s.Keyed → q₁ ≠ q₂ →
      op₁.address? s = some q₁ → op₂.address? s = some q₂ →
      (∀ m ∈ op₁.submitted, ¬(Step.of op₂ s).Moves m.id) →
      (∀ m ∈ op₂.submitted, ¬(Step.of op₁ s).Moves m.id) →
        (run [op₂, op₁] s).1 = (run [op₁, op₂] s).1.reverse ∧
          SameRows (run [op₁, op₂] s).2 (run [op₂, op₁] s).2) ∧
    ∀ (s : Store) (queueId : String) (ops : List Operation), s.Keyed →
      (∀ x ∈ trace ops s, (x.operation.address? x.before).isSome = true) →
      (trace ops s).Pairwise (fun x y => x.operation.address? x.before = some queueId →
        y.operation.address? y.before ≠ some queueId →
          ∀ m ∈ y.operation.submitted, ¬x.Moves m.id) →
        (run ((stepsOutside queueId (trace ops s)).map Step.operation) s).1 =
          (stepsOutside queueId (trace ops s)).map Step.answer := by
  constructor
  · intro s q₁ q₂ op₁ op₂ h hne h₁ h₂ hids₁ hids₂
    exact h.commute h₁ h₂ hne hids₁ hids₂
  · intro s queueId ops h haddress hids
    have hagree : AgreeOutside queueId (trace ops s) s s :=
      ⟨h, h, fun _ _ => rfl, fun _ _ _ _ => Iff.rfl⟩
    exact hagree.run haddress hids

/-- A message for a second queue. -/
def siblingMessage (id : String) : Message :=
  (Message.ofContent ⟨none, "body", ∅⟩).enqueue id { sampleQueue with id := "p" } .epoch

/-- A message in each of two queues. -/
def twoQueues : Store := empty.addMessages [sampleMessage, siblingMessage "b"]

/-- The first queue is purged while the second is used. -/
def mixedRun : List Operation :=
  [.ack "b" .epoch, .purge "q", .createMessage (siblingMessage "c"), .queueStats "q" .epoch,
    .lease { sampleQueue with id := "p" } none 2 .epoch]

/-- The purge of the first queue commutes with an insertion into the second, and the operations on
the second queue answer as if the first were not touched. -/
theorem mixedRun_answers : twoQueues.Keyed ∧
    ((run [.purge "q", .createMessage (siblingMessage "c")] twoQueues).1 =
        (run [.createMessage (siblingMessage "c"), .purge "q"] twoQueues).1.reverse ∧
      SameRows (run [.createMessage (siblingMessage "c"), .purge "q"] twoQueues).2
        (run [.purge "q", .createMessage (siblingMessage "c")] twoQueues).2) ∧
    (run ((stepsOutside "q" (trace mixedRun twoQueues)).map Step.operation) twoQueues).1 =
      (stepsOutside "q" (trace mixedRun twoQueues)).map Step.answer := by
  have hkeyed : twoQueues.Keyed := ⟨⟨rfl, rfl, rfl⟩, by decide⟩
  have hfresh : ∀ m ∈ (Operation.createMessage (siblingMessage "c")).submitted,
      ¬(Step.of (.purge "q") twoQueues).Moves m.id := by decide +kernel
  have hnone : ∀ m ∈ (Operation.purge "q").submitted,
      ¬(Step.of (.createMessage (siblingMessage "c")) twoQueues).Moves m.id := nofun
  have haddress : ∀ x ∈ trace mixedRun twoQueues,
      (x.operation.address? x.before).isSome = true := by decide +kernel
  have hids : (trace mixedRun twoQueues).Pairwise fun x y =>
      x.operation.address? x.before = some "q" → y.operation.address? y.before ≠ some "q" →
        ∀ m ∈ y.operation.submitted, ¬x.Moves m.id := by decide +kernel
  exact ⟨hkeyed,
    queues_are_independent.1 twoQueues "p" "q" _ _ hkeyed (by decide) rfl rfl hfresh hnone,
    queues_are_independent.2 twoQueues "q" mixedRun hkeyed haddress hids⟩

/-- A message is inserted into a second queue under the identifier of one in the first: this fails
before a purge of the first queue and succeeds after it. -/
theorem purged_identifier_is_free : (empty.addMessages [sampleMessage]).Keyed ∧
    (Operation.createMessage (siblingMessage "a")).address? (empty.addMessages [sampleMessage]) =
      some "p" ∧
    (Operation.purge "q").address? (empty.addMessages [sampleMessage]) = some "q" ∧
    (Operation.purge "q").submitted = [] ∧
    (run [.purge "q", .createMessage (siblingMessage "a")] (empty.addMessages [sampleMessage])).1 ≠
      (run [.createMessage (siblingMessage "a"), .purge "q"]
        (empty.addMessages [sampleMessage])).1.reverse := by
  have hkeyed : (empty.addMessages [sampleMessage]).Keyed := ⟨⟨rfl, rfl, rfl⟩, by decide⟩
  exact ⟨hkeyed, rfl, rfl, rfl, by decide +kernel⟩

end MessageBroker.Store

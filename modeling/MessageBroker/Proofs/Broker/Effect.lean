import MessageBroker.Proofs.Broker.Publish
import MessageBroker.Proofs.Store.Claim

/-! # What calls do

`Effect now b call result b'` says what a call that succeeds makes of a broker, with one rule for
each kind of change: rows are added, rewritten or removed, identifiers issued, and messages counted.
On a store that nothing disturbs, a call that succeeds has its effect (`effect_of_ok`), and a call
that fails at most issues identifiers (`perform_cases`). What holds of all effects therefore holds
of all calls. -/

namespace MessageBroker

namespace Store

open Fallible

/-- A queue is read back from a row. -/
def HasQueue (s : Store) (q : Queue) : Prop := ∃ r ∈ s.queues, r.decode? = some q

/-- A topic is read back from a row. -/
def HasTopic (s : Store) (t : Topic) : Prop := ∃ r ∈ s.topics, r.decode? = some t

/-- A subscription is read back from a row. -/
def HasSubscription (s : Store) (x : Subscription) : Prop :=
  ∃ r ∈ s.subscriptions, r.decode? = some x

end Store

namespace Broker

open Fallible

/-! ### Effects -/

/-- Messages are a message enqueued on queues of the broker, under the next identifiers. -/
structure Enqueues (m : Message) (now : Instant) (b : Broker) (ms : List Message) : Prop where
  ids : ms.map Message.id = (List.range' b.issued ms.length).map b.source.issue
  enqueued : ∀ copy ∈ ms, ∃ q, b.store.HasQueue q ∧ copy = m.enqueue copy.id q now

/-- What a call that succeeds at an instant makes of a broker. -/
inductive Effect (now : Instant) (b : Broker) : Call → Store.Result → Broker → Prop
  | read {call : Call} {result : Store.Result} (h : call.onlyReads = true) :
    Effect now b call result b
  | createQueue {q : Queue} (hvalid : q.validate = .ok ())
    (hfresh : ∀ r ∈ b.store.queues, r.id ≠ q.id) :
    Effect now b (.createQueue q) (.queue { q with createdAt := now, updatedAt := now })
      { b with store.queues :=
        b.store.queues ++ [.ofQueue { q with createdAt := now, updatedAt := now }] }
  | updateQueue {q stored : Queue} (hvalid : q.validate = .ok ())
    (hstored : b.store.HasQueue stored) (hid : stored.id = q.id) :
    Effect now b (.updateQueue q)
      (.queue { q with createdAt := stored.createdAt, updatedAt := now })
      { b with store.queues := b.store.queues.map fun r =>
        if r.id = q.id then .ofQueue { q with createdAt := stored.createdAt, updatedAt := now }
        else r }
  | deleteQueue (id : String) :
    Effect now b (.deleteQueue id) .done
      { b with store.queues := b.store.queues.filter fun r => !decide (r.id = id) }
  | purge (id : String) :
    Effect now b (.purge id) (.count (b.store.messages.countP fun r => r.queueId = id))
      { b with store.messages := b.store.messages.filter fun r => !decide (r.queueId = id) }
  | cleanup (id : String) :
    Effect now b (.cleanup id)
      (.count (b.store.messages.countP fun r => r.queueId = id && r.isExpired now))
      { b with store.messages :=
        b.store.messages.filter fun r => !(decide (r.queueId = id) && r.isExpired now) }
  | createMessage {queueId : String} {c : MessageContent} {m : Message} (hbody : c.body ≠ "")
    (hm : Enqueues (.ofContent c) now b [m]) (hid : m.queueId = queueId)
    (hkeyed : (b.store.addMessages [m]).Keyed) :
    Effect now b (.createMessage queueId c) (.message m)
      { b with
        store := b.store.addMessages [m]
        issued := b.issued + 1
        metrics := b.metrics.addEnqueued m.queueId }
  | publish {topicId : String} {c : MessageContent} {ms : List Message} (hbody : c.body ≠ "")
    (hms : Enqueues (.ofContent c) now b ms) (hkeyed : (b.store.addMessages ms).Keyed) :
    Effect now b (.publish topicId c) (.messages ms)
      { b with
        store := b.store.addMessages ms
        issued := b.issued + ms.length
        metrics := ms.foldl (fun metrics copy => metrics.addEnqueued copy.queueId) b.metrics }
  | lease {q : Queue} {label : Option String} {limit : UInt32} {ms : List Message}
    (hq : b.store.HasQueue q) (hids : (ms.map Message.id).Nodup)
    (hread : ∀ m ∈ ms, ∃ r ∈ b.store.messages, r.decode? = some m ∧ r.queueId = q.id ∧
      r.isVisible now = true) :
    Effect now b (.lease q.id label limit) (.messages (ms.map (·.leaseRenew q now)))
      { b with
        store.messages := Store.claimedRows q now ms b.store.messages
        metrics := b.metrics.addLeased q.id ms.length }
  | ack {r₀ : Store.MessageRow} {m : Message} (hr₀ : r₀ ∈ b.store.messages)
    (hdecode : r₀.decode? = some m) :
    Effect now b (.ack r₀.id) .done
      { b with store.messages := b.store.messages.map fun r =>
        if r.id = r₀.id then r.rewritten (m.ack now) else r }
  | nack {r₀ : Store.MessageRow} {m : Message} (hr₀ : r₀ ∈ b.store.messages)
    (hdecode : r₀.decode? = some m) (timeout : UInt32) :
    Effect now b (.nack r₀.id timeout) .done
      { b with store.messages := b.store.messages.map fun r =>
        if r.id = r₀.id then r.rewritten (m.nack now timeout) else r }
  | createTopic {t : Topic} (hvalid : t.validate = .ok ())
    (hfresh : ∀ r ∈ b.store.topics, r.id ≠ t.id) :
    Effect now b (.createTopic t) (.topic { t with createdAt := now })
      { b with store.topics := b.store.topics ++ [.ofTopic { t with createdAt := now }] }
  | deleteTopic (id : String) :
    Effect now b (.deleteTopic id) .done
      { b with store.topics := b.store.topics.filter fun r => !decide (r.id = id) }
  | createSubscription {x : Subscription} (hvalid : x.validate = .ok ())
    (hfresh : ∀ r ∈ b.store.subscriptions, r.id ≠ x.id) :
    Effect now b (.createSubscription x) (.subscription { x with createdAt := now })
      { b with store.subscriptions :=
        b.store.subscriptions ++ [.ofSubscription { x with createdAt := now }] }
  | deleteSubscription (id : String) :
    Effect now b (.deleteSubscription id) .done
      { b with store.subscriptions := b.store.subscriptions.filter fun r => !decide (r.id = id) }

/-! ### Parts of calls that succeed -/

section Parts

variable {α β : Type} {b b' : Broker}

theorem of_bind_pure {a : Action α} {g : α → β} {w : β}
    (h : (a >>= fun v => pure (g v)) b = (.ok w, b')) : ∃ v, a b = (.ok v, b') ∧ w = g v := by
  obtain ⟨v, b₁, ha, hpure⟩ := exists_of_bind_apply h
  cases hpure
  exact ⟨v, ha, rfl⟩

theorem of_check {result : Except Error Unit} (h : check result b = (.ok (), b')) :
    result = .ok () ∧ b' = b := by
  obtain ⟨hresult, hb⟩ := Prod.mk.inj h
  exact ⟨hresult, hb.symm⟩

theorem of_access {a : Store.Access α} {v : α} (h : access a b = (.ok v, b')) :
    a b.store = (.ok v, b'.store) ∧ b' = { b with store := b'.store } := by
  have haccess : access a b = ((a b.store).1, { b with store := (a b.store).2 }) := rfl
  rw [haccess] at h
  obtain ⟨hanswer, rfl⟩ := Prod.mk.inj h
  exact ⟨Prod.ext hanswer rfl, rfl⟩

theorem of_access_reads {a : Store.Access α} (ha : Store.Reads a) {v : α}
    (h : access a b = (.ok v, b')) : b' = b := by
  have hsame := preserves_access ha b
  rw [h] at hsame
  exact hsame

theorem of_access_get {ρ : Type} [Store.TableRow ρ] [Store.LawfulTableRow ρ]
    (hs : b.store.Undisturbed) {entity : Entity} {decode? : ρ → Option α} {id : String} {v : α}
    (h : access (Store.get entity decode? id) b = (.ok v, b')) :
    b' = b ∧ ∃ r ∈ (Store.TableRow.rows b.store : List ρ), Store.Row.id r = id ∧
      decode? r = some v := by
  obtain ⟨hget, hb⟩ := of_access h
  obtain ⟨hstore, hrow⟩ := Store.of_get hs hget
  rw [hstore] at hb
  exact ⟨hb, hrow⟩

theorem of_access_getQueue (hs : b.store.Undisturbed) {id : String} {q : Queue}
    (h : access (Store.getQueue id) b = (.ok q, b')) :
    b' = b ∧ b.store.HasQueue q ∧ q.id = id := by
  obtain ⟨hb, r, hr, hid, hdecode⟩ := of_access_get hs h
  exact ⟨hb, ⟨r, hr, hdecode⟩, (Store.QueueRow.id_of_decode? hdecode).trans hid⟩

theorem of_creation {ρ : Type} [Store.TableRow ρ] (hs : b.store.Undisturbed) {entity : Entity}
    {r : ρ} {result : Except Error Unit} {v w : α}
    (h : (do check result; access (Store.insert entity r); return v : Action α) b = (.ok w, b')) :
    result = .ok () ∧ w = v ∧
      (∀ other ∈ (Store.TableRow.rows b.store : List ρ), Store.Row.id other ≠ Store.Row.id r) ∧
      b' = { b with
        store := Store.TableRow.withRows b.store (Store.TableRow.rows b.store ++ [r]) } := by
  obtain ⟨_, b₁, hcheck, hrest⟩ := exists_of_bind_apply h
  obtain ⟨hvalid, rfl⟩ := of_check hcheck
  obtain ⟨_, haccess, hw⟩ := of_bind_pure hrest
  obtain ⟨hinsert, hb⟩ := of_access haccess
  obtain ⟨hfresh, hstore⟩ := Store.of_insert hs hinsert
  rw [hstore] at hb
  exact ⟨hvalid, hw, hfresh, hb⟩

end Parts

/-! ### Copies that succeed -/

theorem enqueues_nil (m : Message) (now : Instant) (b : Broker) : Enqueues m now b [] :=
  ⟨rfl, fun _ h => absurd h List.not_mem_nil⟩

section Copies

variable {b b' : Broker} {m : Message} {now : Instant} {ms : List Message}

theorem enqueues_singleton {q : Queue} (hq : b.store.HasQueue q) :
    Enqueues m now b [m.enqueue (b.source.issue b.issued) q now] := by
  refine ⟨rfl, fun copy hcopy => ⟨q, hq, ?_⟩⟩
  obtain rfl := List.mem_singleton.mp hcopy
  rfl

theorem Enqueues.append {ms' : List Message} (h : Enqueues m now b ms)
    (h' : Enqueues m now (b.issue ms.length) ms') : Enqueues m now b (ms ++ ms') := by
  constructor
  · rw [List.map_append, h.ids, h'.ids, source_issue, List.length_append, ← List.map_append]
    exact congrArg _ List.range'_append_1
  · intro copy hcopy
    rcases List.mem_append.mp hcopy with hcopy | hcopy
    · exact h.enqueued copy hcopy
    · exact h'.enqueued copy hcopy

theorem of_copiesFor (hs : b.store.Undisturbed) {l : List Subscription}
    (h : copiesFor m now l b = (.ok ms, b')) : b' = b.issue ms.length ∧ Enqueues m now b ms := by
  induction l generalizing b ms with
  | nil =>
    cases h
    exact ⟨rfl, enqueues_nil m now _⟩
  | cons s l ih =>
    rw [copiesFor] at h
    split_ifs at h
    · obtain ⟨q, b₁, hq, hrest⟩ := exists_of_bind_apply h
      obtain ⟨hb, hfound, -⟩ := of_access_getQueue hs hq
      rw [hb] at hrest
      have henqueued : enqueued m q now b =
          (.ok (m.enqueue (b.source.issue b.issued) q now), b.issue 1) := rfl
      rw [bind_ok henqueued] at hrest
      obtain ⟨rest, hcopies, rfl⟩ := of_bind_pure hrest
      obtain ⟨rfl, hms⟩ := ih (b := b.issue 1) hs hcopies
      refine ⟨?_, (enqueues_singleton hfound).append hms⟩
      rw [issue_issue, List.length_cons, Nat.add_comm 1]
    · exact ih hs h

theorem of_copiesFrom (hs : b.store.Undisturbed) {topicId : String} {pages : Nat} {offset : UInt32}
    (h : copiesFrom topicId m now pages offset b = (.ok ms, b')) :
    b' = b.issue ms.length ∧ Enqueues m now b ms := by
  induction pages generalizing b ms offset with
  | zero =>
    cases h
    exact ⟨rfl, enqueues_nil m now _⟩
  | succ pages ih =>
    rw [copiesFrom] at h
    obtain ⟨page, b₁, hpage, hrest⟩ := exists_of_bind_apply h
    have hb : b₁ = b := of_access_reads (Store.reads_listPage _ _ _ _) hpage
    rw [hb] at hrest
    split_ifs at hrest
    · cases hrest
      exact ⟨rfl, enqueues_nil m now _⟩
    · obtain ⟨copies, b₂, hcopies, hmores⟩ := exists_of_bind_apply hrest
      obtain ⟨rfl, hms⟩ := of_copiesFor hs hcopies
      obtain ⟨more, hmore, rfl⟩ := of_bind_pure hmores
      obtain ⟨rfl, hms'⟩ := ih (b := b.issue copies.length) hs hmore
      refine ⟨?_, hms.append hms'⟩
      rw [issue_issue, List.length_append]

end Copies

/-! ### Calls that succeed -/

section Calls

variable {b b' : Broker} {now : Instant}

theorem of_check_ofContent {c : MessageContent}
    (h : check (Message.ofContent c).validate b = (.ok (), b')) : c.body ≠ "" ∧ b' = b := by
  obtain ⟨hvalid, hb⟩ := of_check h
  refine ⟨fun hbody => ?_, hb⟩
  rw [validate_ofContent, if_pos hbody] at hvalid
  cases hvalid

theorem effect_createMessage (hs : b.store.Keyed) {queueId : String} {c : MessageContent}
    {m : Message} (h : createMessage queueId c now b = (.ok m, b')) :
    Effect now b (.createMessage queueId c) (.message m) b' := by
  obtain ⟨_, b₁, hcheck, hrest⟩ := exists_of_bind_apply h
  obtain ⟨hbody, rfl⟩ := of_check_ofContent hcheck
  obtain ⟨q, b₂, hq, hrest'⟩ := exists_of_bind_apply hrest
  obtain ⟨rfl, hfound, rfl⟩ := of_access_getQueue hs.toUndisturbed hq
  have henqueued : enqueued (.ofContent c) q now b₂ =
      (.ok ((Message.ofContent c).enqueue (b₂.source.issue b₂.issued) q now), b₂.issue 1) := rfl
  rw [bind_ok henqueued] at hrest'
  obtain ⟨_, b₃, haccess, hcount⟩ := exists_of_bind_apply hrest'
  obtain ⟨hcreate, hb⟩ := of_access haccess
  obtain ⟨hstore, hkeyed⟩ := Store.Keyed.of_createMessage (s := (b₂.issue 1).store) hs hcreate
  rw [hstore] at hb hkeyed
  rw [hb] at hcount
  cases hcount
  exact .createMessage hbody (enqueues_singleton hfound) rfl hkeyed

theorem effect_publish (hs : b.store.Keyed) {topicId : String} {c : MessageContent}
    {ms : List Message} (h : publish topicId c now b = (.ok ms, b')) :
    Effect now b (.publish topicId c) (.messages ms) b' := by
  obtain ⟨_, b₁, hcheck, hrest⟩ := exists_of_bind_apply h
  obtain ⟨hbody, rfl⟩ := of_check_ofContent hcheck
  obtain ⟨t, b₂, htopic, hrest'⟩ := exists_of_bind_apply hrest
  obtain rfl : b₂ = b₁ := of_access_reads (Store.reads_get _ _ _) htopic
  obtain ⟨copies, b₃, hcopies, hstored⟩ := exists_of_bind_apply hrest'
  obtain ⟨rfl, hms⟩ := of_copiesFrom hs.toUndisturbed hcopies
  obtain ⟨_, b₄, haccess, hcount⟩ := exists_of_bind_apply hstored
  obtain ⟨hcreate, hb⟩ := of_access haccess
  obtain ⟨hstore, hkeyed⟩ :=
    Store.Keyed.of_createMessages (s := (b₂.issue copies.length).store) hs hcreate
  rw [hstore] at hb hkeyed
  rw [hb] at hcount
  cases hcount
  exact .publish hbody hms hkeyed

theorem effect_lease (hs : b.store.Keyed) {queueId : String} {label : Option String}
    {limit : UInt32} {ms : List Message} (h : lease queueId label limit now b = (.ok ms, b')) :
    Effect now b (.lease queueId label limit) (.messages ms) b' := by
  obtain ⟨q, b₁, hq, hrest⟩ := exists_of_bind_apply h
  obtain ⟨rfl, hfound, rfl⟩ := of_access_getQueue hs.toUndisturbed hq
  obtain ⟨leased, b₂, haccess, hcount⟩ := exists_of_bind_apply hrest
  obtain ⟨hlease, hb⟩ := of_access haccess
  -- a lease that succeeds has read candidates, and renews all of them
  have hsplit := hlease
  rw [Store.lease_eq_bind] at hsplit
  obtain ⟨candidates, s, hcandidates, -⟩ := exists_of_bind_apply hsplit
  have hread := congrArg Prod.fst hcandidates
  obtain ⟨hids, hrows⟩ := hs.readCandidates_rows hread
  rw [hs.lease_eq hread] at hlease
  obtain ⟨hleased, hstore⟩ := Prod.mk.inj hlease
  obtain rfl := Except.ok.inj hleased
  rw [← hstore] at hb
  rw [hb] at hcount
  cases hcount
  rw [List.length_map]
  refine .lease hfound hids fun m hm => ?_
  obtain ⟨r, hr, hdecode, hqueue, -, hvisible⟩ := hrows m hm
  exact ⟨r, hr, hdecode, hqueue, hvisible⟩

theorem effect_updateQueue (hs : b.store.Undisturbed) {q q' : Queue}
    (h : updateQueue q now b = (.ok q', b')) : Effect now b (.updateQueue q) (.queue q') b' := by
  obtain ⟨_, b₁, hcheck, hrest⟩ := exists_of_bind_apply h
  obtain ⟨hvalid, rfl⟩ := of_check hcheck
  obtain ⟨stored, b₂, hq, hrest'⟩ := exists_of_bind_apply hrest
  obtain ⟨rfl, hstored, hid⟩ := of_access_getQueue hs hq
  obtain ⟨_, haccess, rfl⟩ := of_bind_pure hrest'
  obtain ⟨hupdate, hb⟩ := of_access haccess
  have hstore := Store.snd_of_updateQueue hs
    { q with createdAt := stored.createdAt, updatedAt := now }
  rw [hupdate] at hstore
  have hstore : b'.store = _ := hstore
  rw [hb, hstore]
  exact .updateQueue hvalid hstored hid

theorem of_deletion {ρ α : Type} [Store.TableRow ρ] [Store.LawfulTableRow ρ]
    (hs : b.store.Undisturbed) {entity : Entity} {decode? : ρ → Option α} {idOf : α → String}
    (hdecode : ∀ r v, decode? r = some v → idOf v = Store.Row.id r) {id : String}
    (h : (do access (Store.delete ρ entity (idOf (← access (Store.get entity decode? id)))) :
      Action Unit) b = (.ok (), b')) :
    b' = { b with
      store := Store.TableRow.withRows b.store
        ((Store.TableRow.rows b.store : List ρ).filter fun r =>
          !decide (Store.Row.id r = id)) } := by
  obtain ⟨v, b₁, hget, hrest⟩ := exists_of_bind_apply h
  obtain ⟨rfl, r, -, rfl, hv⟩ := of_access_get hs hget
  obtain ⟨hdelete, hb⟩ := of_access hrest
  have hstore := Store.snd_of_delete (ρ := ρ) hs entity (idOf v)
  rw [hdelete, hdecode r v hv] at hstore
  have hstore : b'.store = _ := hstore
  rw [hb, hstore]

/-- The removal of messages of a queue, once it was found. -/
theorem of_removal (hs : b.store.Undisturbed) {id : String}
    {selected : String → Store.MessageRow → Bool} {n : Nat}
    (h : onQueue id (fun id => Store.statement .plain fun rules rows =>
      Store.deleteRows rules (selected id) rows) b = (.ok n, b')) :
    n = b.store.messages.countP (selected id) ∧
      b' = { b with store.messages := b.store.messages.filter fun r => !selected id r } := by
  obtain ⟨q, b₁, hq, hrest⟩ := exists_of_bind_apply h
  obtain ⟨rfl, -, rfl⟩ := of_access_getQueue hs hq
  obtain ⟨hdelete, hb⟩ := of_access hrest
  dsimp only at hdelete
  rw [Store.statement_ok .plain _ hs (Store.deleteRows_none (selected q.id) _)] at hdelete
  obtain ⟨hn, hstore⟩ := Prod.mk.inj hdelete
  rw [← hstore] at hb
  exact ⟨(Except.ok.inj hn).symm, hb⟩

theorem of_rewrite (hs : b.store.Undisturbed) {id : String} {f : Message → Message}
    (hid : ∀ m, (f m).id = m.id)
    (h : access (Store.getMessage id >>= fun m => Store.updateMessage (f m)) b = (.ok (), b')) :
    ∃ r₀ ∈ b.store.messages, r₀.id = id ∧ ∃ m, r₀.decode? = some m ∧
      b' = { b with store.messages := b.store.messages.map fun r =>
        if r.id = r₀.id then r.rewritten (f m) else r } := by
  obtain ⟨hrewrite, hb⟩ := of_access h
  obtain ⟨r₀, hr₀, hr₀id, m, hdecode, hstore⟩ := Store.exists_of_rewrite hs hid hrewrite
  rw [hstore] at hb
  exact ⟨r₀, hr₀, hr₀id, m, hdecode, hb⟩

/-- **A call that succeeds has its effect.** -/
theorem effect_of_ok (hs : b.store.Keyed) {call : Call} {result : Store.Result}
    (h : (perform now call).on b = (.ok result, b')) : Effect now b call result b' := by
  have hundisturbed := hs.toUndisturbed
  by_cases hreads : call.onlyReads = true
  · have hsame : b' = b := by
      have hpreserved := preserves_perform now hreads b
      have hperform : perform now call b = (.ok result, b') := h
      rw [hperform] at hpreserved
      exact hpreserved
    rw [hsame]
    exact .read hreads
  cases call with
  | createQueue q =>
    obtain ⟨q', hcreate, rfl⟩ := of_bind_pure h
    obtain ⟨hvalid, rfl, hfresh, rfl⟩ := of_creation hundisturbed hcreate
    exact .createQueue hvalid hfresh
  | updateQueue q =>
    obtain ⟨q', hupdate, rfl⟩ := of_bind_pure h
    exact effect_updateQueue hundisturbed hupdate
  | deleteQueue id =>
    obtain ⟨_, hdelete, rfl⟩ := of_bind_pure h
    obtain rfl := of_deletion hundisturbed (fun _ _ => Store.QueueRow.id_of_decode?) hdelete
    exact .deleteQueue id
  | purge id =>
    obtain ⟨n, hpurge, rfl⟩ := of_bind_pure h
    obtain ⟨rfl, rfl⟩ := of_removal hundisturbed hpurge
    exact .purge id
  | cleanup id =>
    obtain ⟨n, hcleanup, rfl⟩ := of_bind_pure h
    obtain ⟨rfl, rfl⟩ := of_removal hundisturbed hcleanup
    exact .cleanup id
  | createMessage queueId c =>
    obtain ⟨m, hcreate, rfl⟩ := of_bind_pure h
    exact effect_createMessage hs hcreate
  | lease queueId label limit =>
    obtain ⟨ms, hlease, rfl⟩ := of_bind_pure h
    exact effect_lease hs hlease
  | ack id =>
    obtain ⟨_, hack, rfl⟩ := of_bind_pure h
    obtain ⟨r₀, hr₀, rfl, m, hdecode, rfl⟩ :=
      of_rewrite (f := (·.ack now)) hundisturbed (fun _ => rfl) hack
    exact .ack hr₀ hdecode
  | nack id timeout =>
    obtain ⟨_, hnack, rfl⟩ := of_bind_pure h
    obtain ⟨r₀, hr₀, rfl, m, hdecode, rfl⟩ :=
      of_rewrite (f := (·.nack now timeout)) hundisturbed (fun _ => rfl) hnack
    exact .nack hr₀ hdecode timeout
  | createTopic t =>
    obtain ⟨t', hcreate, rfl⟩ := of_bind_pure h
    obtain ⟨hvalid, rfl, hfresh, rfl⟩ := of_creation hundisturbed hcreate
    exact .createTopic hvalid hfresh
  | deleteTopic id =>
    obtain ⟨_, hdelete, rfl⟩ := of_bind_pure h
    obtain rfl := of_deletion hundisturbed (fun _ _ => Store.TopicRow.id_of_decode?) hdelete
    exact .deleteTopic id
  | publish topicId c =>
    obtain ⟨ms, hpublish, rfl⟩ := of_bind_pure h
    exact effect_publish hs hpublish
  | createSubscription x =>
    obtain ⟨x', hcreate, rfl⟩ := of_bind_pure h
    obtain ⟨hvalid, rfl, hfresh, rfl⟩ := of_creation hundisturbed hcreate
    exact .createSubscription hvalid hfresh
  | deleteSubscription id =>
    obtain ⟨_, hdelete, rfl⟩ := of_bind_pure h
    obtain rfl := of_deletion hundisturbed (fun _ _ => Store.SubscriptionRow.id_of_decode?) hdelete
    exact .deleteSubscription id
  | _ => exact absurd rfl hreads

/-- A call has its effect, or fails and at most issues identifiers. -/
theorem perform_cases (now : Instant) (hs : b.store.Keyed) (call : Call) :
    (∃ result, ((perform now call).on b).1 = .ok result ∧
      Effect now b call result ((perform now call).on b).2) ∨
    ∃ e n, (perform now call).on b = (.error e, b.issue n) := by
  rcases h : (perform now call).on b with ⟨e | result, b'⟩
  · right
    obtain ⟨n, hn⟩ := failsClean_perform now call b e (congrArg Prod.fst h)
    have hb : b' = b.issue n := (congrArg Prod.snd h).symm.trans hn
    exact ⟨e, n, by rw [hb]⟩
  · left
    exact ⟨result, rfl, effect_of_ok hs h⟩

end Calls

end Broker

end MessageBroker

import MessageBroker.Proofs.Store.Keyed

/-! # What operations do to stored messages

`s.Keeps ms` says that an undisturbed store holds exactly the stored forms of the messages `ms`, no
two of which share an identifier. On such a store every operation on messages is a function of
them: `Keeps.ack_eq`, `Keeps.lease_eq` and their like give its answer and the messages after it, in
terms of the transitions of single messages. An update writes only some columns of a row; it stores
the whole message because a transition changes nothing else (`Message.SameRecord`). -/

namespace MessageBroker

/-! ### What a transition leaves -/

/-- One message as another, but for its attempts and the instants that transitions set. -/
structure Message.SameRecord (m m' : Message) : Prop where
  id : m'.id = m.id
  queueId : m'.queueId = m.queueId
  label : m'.label = m.label
  body : m'.body = m.body
  attributes : m'.attributes = m.attributes
  createdAt : m'.createdAt = m.createdAt

namespace Message

theorem sameRecord_refl (m : Message) : m.SameRecord m := ⟨rfl, rfl, rfl, rfl, rfl, rfl⟩

theorem SameRecord.trans {m m' m'' : Message} (h : m.SameRecord m') (h' : m'.SameRecord m'') :
    m.SameRecord m'' :=
  ⟨h'.id.trans h.id, h'.queueId.trans h.queueId, h'.label.trans h.label, h'.body.trans h.body,
    h'.attributes.trans h.attributes, h'.createdAt.trans h.createdAt⟩

theorem sameRecord_leaseRenew (m : Message) (q : Queue) (now : Instant) :
    m.SameRecord (m.leaseRenew q now) := ⟨rfl, rfl, rfl, rfl, rfl, rfl⟩

theorem sameRecord_ack (m : Message) (now : Instant) : m.SameRecord (m.ack now) :=
  ⟨rfl, rfl, rfl, rfl, rfl, rfl⟩

theorem sameRecord_nack (m : Message) (now : Instant) (timeout : UInt32) :
    m.SameRecord (m.nack now timeout) := ⟨rfl, rfl, rfl, rfl, rfl, rfl⟩

theorem hasFourDigitYears_iff {m : Message} : m.HasFourDigitYears ↔
    m.expiredAt.HasFourDigitYear ∧ m.scheduledAt.HasFourDigitYear ∧
      m.createdAt.HasFourDigitYear ∧ m.updatedAt.HasFourDigitYear := by
  simp [HasFourDigitYears, instants]

theorem HasFourDigitYears.leaseRenew {m : Message} {q : Queue} {now : Instant}
    (h : m.HasFourDigitYears) (hnow : now.HasFourDigitYear)
    (hlater : (now.addSeconds q.ackDeadlineSeconds.toNat).HasFourDigitYear) :
    (m.leaseRenew q now).HasFourDigitYears :=
  hasFourDigitYears_iff.mpr ⟨h.expiredAt, hlater, h.createdAt, hnow⟩

theorem HasFourDigitYears.ack {m : Message} {now : Instant} (h : m.HasFourDigitYears)
    (hnow : now.HasFourDigitYear) : (m.ack now).HasFourDigitYears :=
  hasFourDigitYears_iff.mpr ⟨hnow, h.scheduledAt, h.createdAt, hnow⟩

theorem HasFourDigitYears.nack {m : Message} {now : Instant} {timeout : UInt32}
    (h : m.HasFourDigitYears) (hnow : now.HasFourDigitYear)
    (hlater : (now.addSeconds timeout.toNat).HasFourDigitYear) :
    (m.nack now timeout).HasFourDigitYears :=
  hasFourDigitYears_iff.mpr ⟨h.expiredAt, hlater, h.createdAt, hnow⟩

end Message

namespace Store

open Fallible

/-! ### Stored messages -/

/-- An undisturbed store that holds exactly the stored forms of messages. -/
structure Keeps (s : Store) (ms : List Message) : Prop where
  undisturbed : s.Undisturbed
  rows : s.messages = ms.map MessageRow.ofMessage
  ids : (ms.map Message.id).Nodup

/-- The store with other messages. -/
def withMessages (s : Store) (ms : List Message) : Store :=
  { s with messages := ms.map MessageRow.ofMessage }

theorem keeps_empty : empty.Keeps [] :=
  ⟨undisturbed_empty, rfl, List.nodup_nil⟩

/-- Messages of which the one with an identifier is changed. -/
def changeMessage (id : String) (f : Message → Message) (ms : List Message) : List Message :=
  ms.map fun m => if m.id = id then f m else m

theorem changeMessage_missing {id : String} {ms : List Message} (hid : ∀ m ∈ ms, m.id ≠ id)
    (f : Message → Message) : changeMessage id f ms = ms := by
  rw [changeMessage, List.map_congr_left fun m hm => if_neg (hid m hm), List.map_id']

/-- The messages that a lease takes, in the order in which it answers them. -/
def leasable (queueId : String) (label : Option String) (limit : UInt32) (now : Instant)
    (ms : List Message) : List Message :=
  let visible := (ms.filter fun m => m.queueId = queueId ∧ m.IsVisible now).filter fun m =>
    (MessageRow.ofMessage m).hasLabel label
  (visible.mergeSort fun a b => leaseOrder (.ofMessage a) (.ofMessage b)).take limit.toNat

/-- Messages of which those with some identifiers are renewed by a lease. -/
def renewMessages (q : Queue) (now : Instant) (ids : List String) (ms : List Message) :
    List Message :=
  ms.map fun m => if m.id ∈ ids then m.leaseRenew q now else m

theorem renewMessages_nil (q : Queue) (now : Instant) (ms : List Message) :
    renewMessages q now [] ms = ms := by simp [renewMessages]

theorem mem_of_mem_leasable {queueId : String} {label : Option String} {limit : UInt32}
    {now : Instant} {ms : List Message} {m : Message}
    (h : m ∈ leasable queueId label limit now ms) :
    m ∈ ms ∧ m.queueId = queueId ∧ m.IsVisible now := by
  have hfilter := List.mem_of_mem_filter (List.mem_mergeSort.mp (List.mem_of_mem_take h))
  rw [List.mem_filter, decide_eq_true_eq] at hfilter
  exact hfilter

theorem nodup_leasable {queueId : String} {label : Option String} {limit : UInt32} {now : Instant}
    {ms : List Message} (h : (ms.map Message.id).Nodup) :
    ((leasable queueId label limit now ms).map Message.id).Nodup := by
  refine List.Nodup.sublist ((List.take_sublist _ _).map _) ?_
  refine ((List.mergeSort_perm _ _).map _).nodup_iff.mpr ?_
  exact h.sublist ((List.filter_sublist.trans List.filter_sublist).map _)

namespace Keeps

variable {s : Store} {ms : List Message}

theorem withMessages_self (h : s.Keeps ms) : s.withMessages ms = s := by
  rw [withMessages, ← h.rows]

theorem replace (h : s.Keeps ms) {ms' : List Message} (hids : (ms'.map Message.id).Nodup) :
    (s.withMessages ms').Keeps ms' :=
  ⟨⟨h.undisturbed.rules, h.undisturbed.missing, h.undisturbed.closed⟩, rfl, hids⟩

theorem toKeyed (h : s.Keeps ms) : s.Keyed := by
  refine ⟨h.undisturbed, ?_⟩
  rw [h.rows, List.map_map]
  exact h.ids

theorem eq_of_id (h : s.Keeps ms) {m m' : Message} (hm : m ∈ ms) (hm' : m' ∈ ms)
    (hid : m'.id = m.id) : m' = m :=
  List.inj_on_of_nodup_map h.ids hm' hm hid

theorem map (h : s.Keeps ms) {f : Message → Message} (hid : ∀ m ∈ ms, (f m).id = m.id) :
    (s.withMessages (ms.map f)).Keeps (ms.map f) := by
  refine h.replace ?_
  have hids : (ms.map f).map Message.id = ms.map Message.id := by
    rw [List.map_map]
    exact List.map_congr_left hid
  rw [hids]
  exact h.ids

theorem change (h : s.Keeps ms) (id : String) {f : Message → Message}
    (hsame : ∀ m : Message, m.SameRecord (f m)) :
    (s.withMessages (changeMessage id f ms)).Keeps (changeMessage id f ms) := by
  refine h.map fun m _ => ?_
  split_ifs
  · exact (hsame m).id
  · rfl

theorem filter (h : s.Keeps ms) (p : Message → Bool) :
    (s.withMessages (ms.filter p)).Keeps (ms.filter p) :=
  h.replace (h.ids.sublist (List.filter_sublist.map _))

/-! ### Conditions on rows -/

/-- A condition on rows that decides a condition on the stored messages selects their rows. -/
theorem filter_rows (h : s.Keeps ms) {p : MessageRow → Bool} {p' : Message → Bool}
    (hp : ∀ m ∈ ms, p (.ofMessage m) = p' m) :
    s.messages.filter p = (ms.filter p').map MessageRow.ofMessage := by
  rw [h.rows, List.filter_map]
  exact congrArg _ (List.filter_congr hp)

theorem visibleRows_eq (h : s.Keeps ms) (hyears : ∀ m ∈ ms, m.HasFourDigitYears) (id : String)
    {now : Instant} (hnow : now.HasFourDigitYear) : visibleRows id now s.messages =
      (ms.filter fun m => m.queueId = id ∧ m.IsVisible now).map MessageRow.ofMessage := by
  refine h.filter_rows fun m hm => ?_
  rw [MessageRow.isVisible_ofMessage (hyears m hm) hnow, Bool.decide_and]
  rfl

/-! ### Single messages -/

theorem getMessage_eq (h : s.Keeps ms) {m : Message} (hm : m ∈ ms) (hyears : m.HasFourDigitYears) :
    getMessage m.id s = (.ok m, s) := by
  have hrow : MessageRow.ofMessage m ∈ s.messages := by
    rw [h.rows]
    exact List.mem_map_of_mem hm
  exact get_of_mem h.undisturbed .message h.toKeyed.ids hrow (MessageRow.decode?_ofMessage hyears)

theorem getMessage_missing (h : s.Keeps ms) {id : String} (hid : ∀ m ∈ ms, m.id ≠ id) :
    getMessage id s = (.error (.notFound .message id), s) := by
  have hrows : ∀ r ∈ s.messages, r.id ≠ id := by
    rw [h.rows]
    exact List.forall_mem_map.mpr hid
  exact get_of_ne h.undisturbed .message MessageRow.decode? hrows

theorem addMessages (h : s.Keeps ms) {l : List Message} (hkeyed : (s.addMessages l).Keyed) :
    (s.addMessages l).Keeps (ms ++ l) := by
  have hrows : (s.addMessages l).messages = (ms ++ l).map MessageRow.ofMessage := by
    rw [List.map_append, ← h.rows]
    rfl
  have hids := hkeyed.ids
  rw [hrows, List.map_map] at hids
  exact ⟨hkeyed.toUndisturbed, hrows, hids⟩

/-! ### Removals -/

theorem removal_eq (h : s.Keeps ms) {selected : MessageRow → Bool} {p : Message → Prop}
    [DecidablePred p] (hp : ∀ m ∈ ms, selected (.ofMessage m) = decide (p m)) :
    statement .plain (fun rules rows => deleteRows rules selected rows) s =
      (.ok (ms.countP fun m => p m), s.withMessages (ms.filter fun m => ¬p m)) := by
  have hcount : s.messages.countP selected = ms.countP fun m => p m := by
    rw [h.rows, List.countP_map]
    exact List.countP_congr fun m hm => by rw [Function.comp_apply, hp m hm]
  have hrows : s.messages.filter (fun r => !selected r) =
      (ms.filter fun m => ¬p m).map MessageRow.ofMessage :=
    h.filter_rows fun m hm => by rw [hp m hm, decide_not]
  rw [Store.withMessages, ← hcount, ← hrows]
  exact statement_ok .plain _ h.undisturbed (deleteRows_none _ _)

theorem purge_eq (h : s.Keeps ms) (id : String) : purge id s =
    (.ok (ms.countP fun m => m.queueId = id), s.withMessages (ms.filter fun m => m.queueId ≠ id)) :=
  h.removal_eq fun _ _ => rfl

theorem cleanup_eq (h : s.Keeps ms) (hyears : ∀ m ∈ ms, m.HasFourDigitYears) (id : String)
    {now : Instant} (hnow : now.HasFourDigitYear) : cleanup id now s =
      (.ok (ms.countP fun m => m.queueId = id ∧ m.IsExpired now),
        s.withMessages (ms.filter fun m => ¬(m.queueId = id ∧ m.IsExpired now))) := by
  refine h.removal_eq fun m hm => ?_
  rw [MessageRow.isExpired_ofMessage (hyears m hm) hnow, Bool.decide_and]
  rfl

/-! ### Updates -/

/-- An update of the row of one message that meets a condition affects this row only. -/
theorem updateMessageRow_eq (h : s.Keeps ms) {m : Message} (hm : m ∈ ms) (f : Message → Message)
    {selected : MessageRow → Bool} (hselected : selected (.ofMessage m) = true)
    {change : MessageRow → MessageRow} (hchange : change (.ofMessage m) = .ofMessage (f m)) :
    updateMessageRow .none m.id selected change s.messages =
      .ok (1, (changeMessage m.id f ms).map MessageRow.ofMessage) := by
  have hone : ∀ x ∈ ms, x.id = m.id → x = m := fun x hx hid => h.eq_of_id hm hx hid
  have hcount : s.messages.countP (fun r => r.id = m.id && selected r) = 1 := by
    have hmap : s.messages.countP (fun r => r.id = m.id && selected r) =
        (ms.map Message.id).count m.id := by
      rw [h.rows, List.countP_map, List.count, List.countP_map]
      refine List.countP_congr fun x hx => ?_
      simp only [Function.comp_apply, Bool.and_eq_true, decide_eq_true_eq, beq_iff_eq]
      constructor
      · exact And.left
      · intro hid
        exact ⟨hid, by rw [hone x hx hid, hselected]⟩
    rw [hmap]
    exact List.count_eq_one_of_mem h.ids (List.mem_map_of_mem hm)
  rw [updateMessageRow_none, hcount, h.rows, List.map_map, changeMessage, List.map_map]
  refine congrArg (fun rows => Except.ok (1, rows)) (List.map_congr_left fun x hx => ?_)
  simp only [Function.comp_apply, Bool.and_eq_true, decide_eq_true_eq]
  by_cases hid : x.id = m.id
  · have hx := hone x hx hid
    subst hx
    rw [if_pos ⟨rfl, hselected⟩, if_pos rfl, hchange]
  · rw [if_neg fun hn => hid hn.1, if_neg hid]

/-- A statement that updates the row of one message stores the whole changed message. -/
theorem update_eq (h : s.Keeps ms) {m : Message} (hm : m ∈ ms) (f : Message → Message)
    (report : Report) {selected : MessageRow → Bool} (hselected : selected (.ofMessage m) = true)
    {change : MessageRow → MessageRow} (hchange : change (.ofMessage m) = .ofMessage (f m)) :
    statement report (fun rules rows => updateMessageRow rules m.id selected change rows) s =
      (.ok 1, s.withMessages (changeMessage m.id f ms)) :=
  statement_ok report (fun rules rows => updateMessageRow rules m.id selected change rows)
    h.undisturbed (h.updateMessageRow_eq hm f hselected hchange)

theorem updateMessage_eq (h : s.Keeps ms) {m : Message} (hm : m ∈ ms) (f : Message → Message)
    (hsame : m.SameRecord (f m)) :
    updateMessage (f m) s = (.ok (), s.withMessages (changeMessage m.id f ms)) := by
  unfold updateMessage
  rw [hsame.id]
  refine bind_ok (h.update_eq hm f _ rfl ?_) _
  simp only [MessageRow.ofMessage, hsame.id, hsame.queueId, hsame.label, hsame.body,
    hsame.attributes, hsame.createdAt]

theorem ack_eq (h : s.Keeps ms) {m : Message} (hm : m ∈ ms) (hyears : m.HasFourDigitYears)
    (now : Instant) :
    ack m.id now s = (.ok (), s.withMessages (changeMessage m.id (·.ack now) ms)) :=
  (bind_ok (h.getMessage_eq hm hyears) _).trans
    (h.updateMessage_eq hm (·.ack now) (m.sameRecord_ack now))

theorem ack_missing (h : s.Keeps ms) {id : String} (hid : ∀ m ∈ ms, m.id ≠ id) (now : Instant) :
    ack id now s = (.error (.notFound .message id), s) :=
  bind_error (h.getMessage_missing hid) _

theorem nack_eq (h : s.Keeps ms) {m : Message} (hm : m ∈ ms) (hyears : m.HasFourDigitYears)
    (timeout : UInt32) (now : Instant) : nack m.id timeout now s =
      (.ok (), s.withMessages (changeMessage m.id (·.nack now timeout) ms)) :=
  (bind_ok (h.getMessage_eq hm hyears) _).trans
    (h.updateMessage_eq hm (·.nack now timeout) (m.sameRecord_nack now timeout))

theorem nack_missing (h : s.Keeps ms) {id : String} (hid : ∀ m ∈ ms, m.id ≠ id) (timeout : UInt32)
    (now : Instant) : nack id timeout now s = (.error (.notFound .message id), s) :=
  bind_error (h.getMessage_missing hid) _

/-! ### Leases -/

theorem claim_eq (h : s.Keeps ms) {m : Message} (hm : m ∈ ms) (hyears : m.HasFourDigitYears)
    {now : Instant} (hnow : now.HasFourDigitYear) (hvisible : m.IsVisible now) (q : Queue) :
    claim q now m s = (.ok 1, s.withMessages (changeMessage m.id (·.leaseRenew q now) ms)) := by
  refine h.update_eq hm (·.leaseRenew q now) _ ?_ rfl
  rw [MessageRow.isVisible_ofMessage hyears hnow, decide_eq_true hvisible, Bool.and_true]
  exact decide_eq_true rfl

theorem renew (h : s.Keeps ms) (q : Queue) (now : Instant) (ids : List String) :
    (s.withMessages (renewMessages q now ids ms)).Keeps (renewMessages q now ids ms) := by
  refine h.map fun m _ => ?_
  split_ifs <;> rfl

theorem claimEach_eq (h : s.Keeps ms) {q : Queue} {now : Instant} (hnow : now.HasFourDigitYear)
    {l : List Message} (hmem : ∀ m ∈ l, m ∈ ms) (hids : (l.map Message.id).Nodup)
    (hyears : ∀ m ∈ l, m.HasFourDigitYears) (hvisible : ∀ m ∈ l, m.IsVisible now) :
    claimEach q now l s = (.ok (l.map (·.leaseRenew q now)),
      s.withMessages (renewMessages q now (l.map Message.id) ms)) := by
  induction l generalizing s ms with
  | nil =>
    rw [List.map_nil, List.map_nil, renewMessages_nil, h.withMessages_self]
    rfl
  | cons m r ih =>
    obtain ⟨hm, hmem⟩ := List.forall_mem_cons.mp hmem
    obtain ⟨hmyears, hyears⟩ := List.forall_mem_cons.mp hyears
    obtain ⟨hmvisible, hvisible⟩ := List.forall_mem_cons.mp hvisible
    obtain ⟨hnot, hids⟩ := List.nodup_cons.mp hids
    -- the messages still to be claimed are as they were read
    have hrest : ∀ x ∈ r, x ∈ changeMessage m.id (·.leaseRenew q now) ms := by
      intro x hx
      have hne : x.id ≠ m.id := fun he => hnot (he ▸ List.mem_map_of_mem hx)
      exact List.mem_map.mpr ⟨x, hmem x hx, if_neg hne⟩
    have hmap :
        renewMessages q now (r.map Message.id) (changeMessage m.id (·.leaseRenew q now) ms) =
          renewMessages q now ((m :: r).map Message.id) ms := by
      rw [renewMessages, changeMessage, List.map_map, renewMessages]
      refine List.map_congr_left fun x hx => ?_
      simp only [Function.comp_apply, List.map_cons, List.mem_cons]
      by_cases hid : x.id = m.id
      · have hx : (x.leaseRenew q now).id ∉ r.map Message.id := fun hn => hnot (hid ▸ hn)
        rw [if_pos hid, if_neg hx, if_pos (Or.inl hid)]
      · rw [if_neg hid]
        simp only [hid, false_or]
    have hkeeps := h.change m.id fun m => m.sameRecord_leaseRenew q now
    have hclaims := ih hkeeps hrest hids hyears hvisible
    rw [hmap] at hclaims
    rw [claimEach, bind_ok (h.claim_eq hm hmyears hnow hmvisible q), bind_ok hclaims]
    rfl

theorem claimAll_eq (h : s.Keeps ms) {q : Queue} {now : Instant} (hnow : now.HasFourDigitYear)
    {l : List Message} (hmem : ∀ m ∈ l, m ∈ ms) (hids : (l.map Message.id).Nodup)
    (hyears : ∀ m ∈ l, m.HasFourDigitYears) (hvisible : ∀ m ∈ l, m.IsVisible now) :
    claimAll q now l s = (.ok (l.map (·.leaseRenew q now)),
      s.withMessages (renewMessages q now (l.map Message.id) ms)) := by
  have hclaims := h.claimEach_eq (q := q) hnow hmem hids hyears hvisible
  cases l with
  | nil => exact hclaims
  | cons m r => rw [claimAll, if_neg (by simp), transaction_apply h.undisturbed, hclaims]

theorem candidates_eq (h : s.Keeps ms) (hyears : ∀ m ∈ ms, m.HasFourDigitYears) (queueId : String)
    (label : Option String) (limit : UInt32) {now : Instant} (hnow : now.HasFourDigitYear) :
    candidates queueId label limit now s = (.ok (leasable queueId label limit now ms), s) := by
  refine select_ok _ _ h.undisturbed ?_
  change List.mapM _ ((((visibleRows queueId now s.messages).filter _).mergeSort _).take _) = _
  have hsort (l : List Message) : (l.map MessageRow.ofMessage).mergeSort leaseOrder =
      (l.mergeSort fun a b => leaseOrder (.ofMessage a) (.ofMessage b)).map .ofMessage :=
    (List.map_mergeSort (f := MessageRow.ofMessage) fun _ _ _ _ => rfl).symm
  rw [h.visibleRows_eq hyears queueId hnow, List.filter_map, hsort, ← List.map_take]
  exact mapM_decoded fun m hm =>
    MessageRow.decode?_ofMessage (hyears m (mem_of_mem_leasable hm).1)

/-- **A lease renews the messages that it takes, and answers them as they are stored now.** -/
theorem lease_eq (h : s.Keeps ms) (hyears : ∀ m ∈ ms, m.HasFourDigitYears) (q : Queue)
    (label : Option String) (limit : UInt32) {now : Instant} (hnow : now.HasFourDigitYear) :
    lease q label limit now s =
      (.ok ((leasable q.id label limit now ms).map (·.leaseRenew q now)),
        s.withMessages (renewMessages q now ((leasable q.id label limit now ms).map Message.id)
          ms)) := by
  unfold lease
  split_ifs with hlimit
  · have hnone : leasable q.id label limit now ms = [] := by
      rw [leasable, hlimit]
      rfl
    rw [hnone, List.map_nil, List.map_nil, renewMessages_nil, h.withMessages_self]
    rfl
  · rw [bind_ok (h.candidates_eq hyears q.id label limit hnow)]
    refine h.claimAll_eq hnow (fun m hm => ?_) (nodup_leasable h.ids) (fun m hm => ?_)
      fun m hm => ?_
    · exact (mem_of_mem_leasable hm).1
    · exact hyears m (mem_of_mem_leasable hm).1
    · exact (mem_of_mem_leasable hm).2.2

end Keeps

end Store

end MessageBroker

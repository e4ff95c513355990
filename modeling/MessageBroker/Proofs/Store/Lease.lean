import MessageBroker.Proofs.Store.Chronology
import MessageBroker.Proofs.Store.Lifecycle

/-! # What a lease takes

The backlog of a queue at an instant are the messages that leases may take then, in the order in
which they take them. It is said by instants alone; storage sorts the same messages by texts
(`leasable_eq`). A lease takes the first messages of the backlog, as many as it may
(`Regular.lease_eq`, `leases_are_exact`), and leaves the rest of it, in the same order
(`backlog_renewMessages`). -/

namespace MessageBroker

namespace Message

/-- A lease may take the message: it is in the queue, visible, and has the label that is asked for,
if one is. -/
def IsLeasable (m : Message) (queueId : String) (label : Option String) (now : Instant) : Prop :=
  m.queueId = queueId ∧ m.IsVisible now ∧ ∀ asked ∈ label, m.label = some asked

instance (m : Message) (queueId : String) (label : Option String) (now : Instant) :
    Decidable (m.IsLeasable queueId label now) := inferInstanceAs (Decidable (_ ∧ _ ∧ _))

/-- The message became visible before another, or at once with it and has the smaller
identifier. -/
def DueBefore (a b : Message) : Prop :=
  a.scheduledAt < b.scheduledAt ∨ a.scheduledAt = b.scheduledAt ∧ Text.lt a.id b.id = true

instance (a b : Message) : Decidable (a.DueBefore b) := inferInstanceAs (Decidable (_ ∨ _))

/-- Whether the message is due before another or is in the same place. -/
def precedes (a b : Message) : Bool :=
  a.scheduledAt < b.scheduledAt || (a.scheduledAt = b.scheduledAt && Text.le a.id b.id)

theorem precedes_iff {a b : Message} : a.precedes b = true ↔
    a.scheduledAt < b.scheduledAt ∨ a.scheduledAt = b.scheduledAt ∧ Text.le a.id b.id = true := by
  simp only [precedes, Bool.or_eq_true, Bool.and_eq_true, decide_eq_true_eq]

theorem precedes_total (a b : Message) : (a.precedes b || b.precedes a) = true := by
  rw [Bool.or_eq_true, precedes_iff, precedes_iff]
  rcases Int.lt_trichotomy a.scheduledAt.nanos b.scheduledAt.nanos with hlt | heq | hlt
  · exact Or.inl (Or.inl hlt)
  · have hsame : a.scheduledAt = b.scheduledAt := Instant.mk.injEq _ _ ▸ heq
    rcases Text.le_total a.id b.id with hid | hid
    · exact Or.inl (Or.inr ⟨hsame, hid⟩)
    · exact Or.inr (Or.inr ⟨hsame.symm, hid⟩)
  · exact Or.inr (Or.inl hlt)

theorem precedes_trans (a b c : Message) (hab : a.precedes b = true) (hbc : b.precedes c = true) :
    a.precedes c = true := by
  rw [precedes_iff] at hab hbc ⊢
  rcases hab with hab | ⟨hab, hid⟩
  · rcases hbc with hbc | ⟨hbc, -⟩
    · exact Or.inl (Int.lt_trans hab hbc)
    · exact Or.inl (hbc ▸ hab)
  · rcases hbc with hbc | ⟨hbc, hid'⟩
    · exact Or.inl (hab ▸ hbc)
    · exact Or.inr ⟨hab.trans hbc, Text.le_trans hid hid'⟩

theorem id_eq_of_precedes {a b : Message} (hab : a.precedes b = true) (hba : b.precedes a = true) :
    a.id = b.id := by
  rw [precedes_iff] at hab hba
  rcases hab with hab | ⟨hab, hid⟩ <;> rcases hba with hba | ⟨hba, hid'⟩
  · exact absurd (Int.lt_trans hab hba) (Int.lt_irrefl _)
  · exact absurd (hba ▸ hab) (Int.lt_irrefl _)
  · exact absurd (hab ▸ hba) (Int.lt_irrefl _)
  · exact Text.le_antisymm hid hid'

/-- A lease hides a message from the leases at the same instant. -/
theorem not_isLeasable_leaseRenew {q : Queue} (hdeadline : 1 ≤ q.ackDeadlineSeconds) (m : Message)
    (queueId : String) (label : Option String) (now : Instant) :
    ¬(m.leaseRenew q now).IsLeasable queueId label now := by
  rintro ⟨-, ⟨hdue, -⟩, -⟩
  have hpos : 1 ≤ q.ackDeadlineSeconds.toNat := hdeadline
  simp only [leaseRenew, Instant.le_def, Instant.addSeconds] at hdue
  omega

end Message

namespace Store

/-- The messages of a queue that leases may take, in the order in which they take them. -/
def backlog (queueId : String) (label : Option String) (now : Instant) (ms : List Message) :
    List Message :=
  (ms.filter fun m => m.IsLeasable queueId label now).mergeSort Message.precedes

section Backlogs

variable {queueId : String} {label : Option String} {now : Instant} {ms : List Message}

theorem perm_backlog (queueId : String) (label : Option String) (now : Instant)
    (ms : List Message) :
    (backlog queueId label now ms).Perm (ms.filter fun m => m.IsLeasable queueId label now) :=
  List.mergeSort_perm _ _

theorem mem_backlog {m : Message} :
    m ∈ backlog queueId label now ms ↔ m ∈ ms ∧ m.IsLeasable queueId label now := by
  rw [(perm_backlog queueId label now ms).mem_iff, List.mem_filter, decide_eq_true_eq]

theorem pairwise_backlog (queueId : String) (label : Option String) (now : Instant)
    (ms : List Message) :
    (backlog queueId label now ms).Pairwise fun a b => a.precedes b = true :=
  List.pairwise_mergeSort Message.precedes_trans Message.precedes_total _

theorem nodup_backlog (hids : (ms.map Message.id).Nodup) :
    ((backlog queueId label now ms).map Message.id).Nodup :=
  ((perm_backlog queueId label now ms).map _).nodup_iff.mpr
    (hids.sublist (List.filter_sublist.map _))

theorem pairwise_dueBefore (hids : (ms.map Message.id).Nodup) :
    (backlog queueId label now ms).Pairwise Message.DueBefore := by
  have hdistinct : (backlog queueId label now ms).Pairwise fun a b => a.id ≠ b.id :=
    List.pairwise_map.mp (nodup_backlog hids)
  refine ((pairwise_backlog queueId label now ms).and hdistinct).imp ?_
  rintro a b ⟨hab, hne⟩
  refine (Message.precedes_iff.mp hab).imp_right fun ⟨hsame, hid⟩ => ⟨hsame, ?_⟩
  exact Text.lt_iff.mpr fun hba => hne (Text.le_antisymm hid hba)

theorem backlog_eq_of_pairwise (hids : (ms.map Message.id).Nodup) {l : List Message}
    (hperm : l.Perm (ms.filter fun m => m.IsLeasable queueId label now))
    (hsorted : l.Pairwise fun a b => a.precedes b = true) : backlog queueId label now ms = l := by
  refine ((perm_backlog queueId label now ms).trans hperm.symm).eq_of_pairwise
    (fun a b ha hb hab hba => ?_) (pairwise_backlog queueId label now ms) hsorted
  have hmem : ∀ m ∈ ms.filter fun m => m.IsLeasable queueId label now, m ∈ ms := fun m hm =>
    List.mem_of_mem_filter hm
  exact List.inj_on_of_nodup_map hids (mem_backlog.mp ha).1 (hmem b (hperm.subset hb))
    (Message.id_eq_of_precedes hab hba)

theorem hasLabel_ofMessage (m : Message) (label : Option String) :
    (MessageRow.ofMessage m).hasLabel label = true ↔ ∀ asked ∈ label, m.label = some asked := by
  cases label with
  | none => simp [MessageRow.hasLabel]
  | some asked =>
    rw [MessageRow.hasLabel, decide_eq_true_iff]
    simp [MessageRow.ofMessage]

theorem precedes_of_leaseOrder {a b : Message} (ha : a.HasFourDigitYears)
    (hb : b.HasFourDigitYears) (hab : leaseOrder (.ofMessage a) (.ofMessage b) = true) :
    a.precedes b = true := by
  rw [Message.precedes_iff]
  rcases leaseOrder_iff.mp hab with hlt | ⟨heq, hid⟩
  · exact Or.inl ((Instant.lt_stored_iff ha.scheduledAt hb.scheduledAt).mp hlt)
  · refine Or.inr ⟨?_, hid⟩
    exact (Instant.stored_inj ha.scheduledAt.isRepresentable hb.scheduledAt.isRepresentable).mp heq

/-- **A lease takes the first messages of the backlog.** -/
theorem leasable_eq (hids : (ms.map Message.id).Nodup) (hyears : ∀ m ∈ ms, m.HasFourDigitYears)
    (limit : UInt32) : leasable queueId label limit now ms =
      (backlog queueId label now ms).take limit.toNat := by
  let le (a b : Message) : Bool := leaseOrder (.ofMessage a) (.ofMessage b)
  let l := (ms.filter fun m => m.queueId = queueId ∧ m.IsVisible now).filter fun m =>
    (MessageRow.ofMessage m).hasLabel label
  have hl : l = ms.filter fun m => m.IsLeasable queueId label now := by
    refine List.filter_filter.trans (List.filter_congr fun m _ => ?_)
    rw [Bool.eq_iff_iff, Bool.and_eq_true, hasLabel_ofMessage, decide_eq_true_eq,
      decide_eq_true_eq, Message.IsLeasable, and_comm, and_assoc]
  have hsorted : (l.mergeSort le).Pairwise fun a b => le a b = true :=
    List.pairwise_mergeSort
      (fun a b c => leaseOrder_trans (.ofMessage a) (.ofMessage b) (.ofMessage c))
      (fun a b => leaseOrder_total (.ofMessage a) (.ofMessage b)) l
  have hmem : ∀ m ∈ l.mergeSort le, m.HasFourDigitYears := fun m hm =>
    hyears m (List.mem_of_mem_filter (List.mem_of_mem_filter (List.mem_mergeSort.mp hm)))
  have hbacklog : backlog queueId label now ms = l.mergeSort le := by
    refine backlog_eq_of_pairwise hids (hl ▸ List.mergeSort_perm l le) ?_
    exact hsorted.imp_of_mem fun ha hb hab => precedes_of_leaseOrder (hmem _ ha) (hmem _ hb) hab
  rw [hbacklog]
  rfl

/-! ### After a lease -/

theorem ids_renewMessages (q : Queue) (now : Instant) (ids : List String) (ms : List Message) :
    (renewMessages q now ids ms).map Message.id = ms.map Message.id := by
  rw [renewMessages, List.map_map]
  refine List.map_congr_left fun m _ => ?_
  rw [Function.comp_apply]
  split_ifs <;> rfl

/-- A message that was renewed is not leasable at the same instant, and the others are as before. -/
theorem filter_renewMessages {q : Queue} (hdeadline : 1 ≤ q.ackDeadlineSeconds)
    (ids : List String) (ms : List Message) :
    ((renewMessages q now ids ms).filter fun m => m.IsLeasable queueId label now) =
      (ms.filter fun m => m.IsLeasable queueId label now).filter fun m => m.id ∉ ids := by
  rw [List.filter_filter]
  induction ms with
  | nil => rfl
  | cons m ms ih =>
    have hcons : renewMessages q now ids (m :: ms) =
        (if m.id ∈ ids then m.leaseRenew q now else m) :: renewMessages q now ids ms := rfl
    rw [hcons, List.filter_cons, List.filter_cons, ih]
    by_cases hid : m.id ∈ ids
    · simp [hid, m.not_isLeasable_leaseRenew hdeadline queueId label now]
    · simp [hid]

theorem filter_not_mem_front {α κ : Type} [DecidableEq κ] {key : α → κ} {front rest : List α}
    (h : ((front ++ rest).map key).Nodup) :
    ((front ++ rest).filter fun a => key a ∉ front.map key) = rest := by
  rw [List.map_append] at h
  have hdisjoint := List.disjoint_of_nodup_append h
  rw [List.filter_append, List.filter_eq_nil_iff.mpr, List.filter_eq_self.mpr, List.nil_append]
  · intro a ha
    exact decide_eq_true fun hmem => hdisjoint hmem (List.mem_map_of_mem ha)
  · intro a ha
    simpa using ⟨a, ha, rfl⟩

/-- **A lease leaves the rest of the backlog**, in the same order. -/
theorem backlog_renewMessages (queueId : String) (label : Option String) (now : Instant)
    (hids : (ms.map Message.id).Nodup) {q : Queue} (hdeadline : 1 ≤ q.ackDeadlineSeconds)
    (n : Nat) :
    backlog queueId label now
        (renewMessages q now (((backlog queueId label now ms).take n).map Message.id) ms) =
      (backlog queueId label now ms).drop n := by
  have hnodup : ((backlog queueId label now ms).map Message.id).Nodup := nodup_backlog hids
  have hperm := perm_backlog queueId label now ms
  have hsorted := pairwise_backlog queueId label now ms
  generalize backlog queueId label now ms = l at hnodup hperm hsorted ⊢
  refine backlog_eq_of_pairwise ((ids_renewMessages _ _ _ _).symm ▸ hids) ?_
    (hsorted.sublist (l.drop_sublist n))
  have hrest : (l.filter fun m => m.id ∉ (l.take n).map Message.id) = l.drop n := by
    rw [← List.take_append_drop n l] at hnodup
    have hfront := filter_not_mem_front hnodup
    rw [List.take_append_drop] at hfront
    exact hfront
  rw [filter_renewMessages hdeadline, ← hrest]
  exact hperm.filter _

end Backlogs

section Leases

variable {s : Store} {ms : List Message}

/-- A lease answers the first messages of the backlog, and renews them. -/
theorem Regular.lease_eq_take (h : s.Regular ms) (q : Queue) (label : Option String)
    (limit : UInt32) {now : Instant} (hnow : now.HasFourDigitYear) {taken : List Message}
    (htaken : taken = (backlog q.id label now ms).take limit.toNat) :
    lease q label limit now s = (.ok (taken.map (·.leaseRenew q now)),
      s.withMessages (renewMessages q now (taken.map Message.id) ms)) := by
  rw [h.toKeeps.lease_eq h.years q label limit hnow, leasable_eq h.ids h.years, htaken]

theorem Regular.renew (h : s.Regular ms) {q : Queue} {now : Instant}
    (hnow : now.HasFourDigitYear) {l : List Message}
    (hlater : l ≠ [] → (now.addSeconds q.ackDeadlineSeconds.toNat).HasFourDigitYear) :
    (s.withMessages (renewMessages q now (l.map Message.id) ms)).Regular
      (renewMessages q now (l.map Message.id) ms) := by
  refine ⟨h.toKeeps.renew q now _, fun m' hm' => ?_⟩
  obtain ⟨m, hm, rfl⟩ := List.mem_map.mp hm'
  split_ifs with hid
  · obtain ⟨m₁, hm₁, -⟩ := List.mem_map.mp hid
    exact (h.years m hm).leaseRenew hnow (hlater (List.ne_nil_of_mem hm₁))
  · exact h.years m hm

/-- **Leases are exact.** On a store that holds messages, a lease answers those that it may take, in
the order in which they became visible and by identifier where they did so at once, up to its limit:
each as it is stored, but for one more attempt, the end of the ack deadline, and the present instant
as that of its last change. It replaces these by what it answers and changes nothing else. -/
theorem leases_are_exact (h : s.Regular ms)
    (hattempts : ∀ m ∈ ms, m.deliveryAttempts.toNat + 1 < UInt32.size) (q : Queue)
    (label : Option String) (limit : UInt32) {now : Instant} (hnow : now.HasFourDigitYear) :
    ∃ l taken : List Message, l.Perm (ms.filter fun m => m.IsLeasable q.id label now) ∧
      l.Pairwise Message.DueBefore ∧ taken = l.take limit.toNat ∧
      taken.length = min limit.toNat l.length ∧
      lease q label limit now s = (.ok (taken.map (·.leaseRenew q now)),
        s.withMessages (renewMessages q now (taken.map Message.id) ms)) ∧
      ∀ m ∈ taken, m.SameRecord (m.leaseRenew q now) ∧
        (m.leaseRenew q now).expiredAt = m.expiredAt ∧
        (m.leaseRenew q now).deliveryAttempts.toNat = m.deliveryAttempts.toNat + 1 ∧
        (m.leaseRenew q now).scheduledAt = now.addSeconds q.ackDeadlineSeconds.toNat ∧
        (m.leaseRenew q now).updatedAt = now := by
  refine ⟨backlog q.id label now ms, _, perm_backlog q.id label now ms, pairwise_dueBefore h.ids,
    rfl, List.length_take, h.lease_eq_take q label limit hnow rfl, fun m hm => ?_⟩
  have hmem : m ∈ ms := (mem_backlog.mp (List.mem_of_mem_take hm)).1
  refine ⟨m.sameRecord_leaseRenew q now, rfl, ?_, rfl, rfl⟩
  rw [Message.leaseRenew, UInt32.toNat_add]
  exact Nat.mod_eq_of_lt (hattempts m hmem)

/-- Two messages that became visible at once. -/
def tiedMessages : List Message := [{ sampleMessage with id := "b" }, sampleMessage]

theorem regular_tiedMessages : (empty.addMessages tiedMessages).Regular tiedMessages :=
  ⟨⟨⟨rfl, rfl, rfl⟩, rfl, by decide⟩, by decide⟩

/-- The identifier decides on the order of messages that became visible at once. -/
theorem eq_reverse_of_dueBefore {l : List Message} (hperm : l.Perm tiedMessages)
    (hordered : l.Pairwise Message.DueBefore) : l = tiedMessages.reverse := by
  have hone : ∀ a ∈ tiedMessages, ∀ b ∈ tiedMessages, a.DueBefore b → b.DueBefore a → a = b := by
    decide
  have hreversed : tiedMessages.reverse.Pairwise Message.DueBefore := by decide
  refine (hperm.trans (List.reverse_perm _).symm).eq_of_pairwise
    (fun a b ha hb => ?_) hordered hreversed
  exact hone a (hperm.subset ha) b (List.mem_reverse.mp hb)

/-- Of two messages that became visible at once, a lease for one takes that with the smaller
identifier. -/
theorem tiedMessages_leased : (empty.addMessages tiedMessages).Regular tiedMessages ∧
    (∀ m ∈ tiedMessages, m.deliveryAttempts.toNat + 1 < UInt32.size) ∧
    ∃ m s', lease sampleQueue none 1 .epoch (empty.addMessages tiedMessages) = (.ok [m], s') ∧
      m.id = "a" ∧ m.deliveryAttempts.toNat = 1 := by
  have hattempts : ∀ m ∈ tiedMessages, m.deliveryAttempts.toNat + 1 < UInt32.size := by decide
  have hnow : Instant.epoch.HasFourDigitYear := by decide
  obtain ⟨l, taken, hperm, hordered, htaken, -, hlease, hrenewed⟩ :=
    leases_are_exact regular_tiedMessages hattempts sampleQueue none 1 hnow
  have hfirst : taken = [sampleMessage] := by
    rw [htaken, eq_reverse_of_dueBefore hperm hordered]
    rfl
  rw [hfirst] at hlease hrenewed
  exact ⟨regular_tiedMessages, hattempts, _, _, hlease, rfl,
    (hrenewed _ List.mem_cons_self).2.2.1⟩

end Leases

end Store

end MessageBroker

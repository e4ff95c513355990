import MessageBroker.Proofs.Store.Independence
import MessageBroker.Proofs.Store.Lease

/-! # What a queue counts

At any instant the messages of a queue are of three kinds: those that leases may take, those that
are expired, and those that are neither yet (`countP_queueId`). Its statistics count the first kind,
and show the age of the oldest of them (`Regular.queueStats_eq`). A cleanup removes the second kind,
a purge all three. So the answers of all of them agree (`answers_about_a_queue_agree`). -/

namespace MessageBroker

open Fallible

theorem Instant.secondsSince_anti {a b : Instant} (h : a ≤ b) (now : Instant) :
    now.secondsSince b ≤ now.secondsSince a := by
  rw [Instant.le_def] at h
  unfold secondsSince
  omega

/-- What statistics say of messages: how many they are, and the largest of their ages. -/
def QueueStats.ofMessages (now : Instant) (l : List Message) : QueueStats :=
  ⟨l.length, (l.map fun m => now.secondsSince m.createdAt).max?.getD 0⟩

/-- The largest age is that of the message that was created first. -/
theorem QueueStats.ofMessages_eq {now : Instant} {l : List Message} {m : Message} (hm : m ∈ l)
    (hfirst : ∀ m' ∈ l, m.createdAt ≤ m'.createdAt) :
    ofMessages now l = ⟨l.length, now.secondsSince m.createdAt⟩ := by
  have hmax : (l.map fun m => now.secondsSince m.createdAt).max? =
      some (now.secondsSince m.createdAt) := by
    refine List.max?_eq_some_iff.mpr ⟨List.mem_map_of_mem hm, ?_⟩
    refine List.forall_mem_map.mpr fun m' hm' => ?_
    exact Instant.secondsSince_anti (hfirst m' hm') now
  rw [ofMessages, hmax]
  rfl

theorem Message.isLeasable_none {m : Message} {queueId : String} {now : Instant} :
    m.IsLeasable queueId none now ↔ m.queueId = queueId ∧ m.IsVisible now := by
  rw [Message.IsLeasable]
  exact and_congr_right fun _ =>
    and_iff_left fun asked hasked => absurd hasked (Option.not_mem_none asked)

theorem Message.IsLeasable.not_isExpired {m : Message} {queueId : String} {label : Option String}
    {now : Instant} (h : m.IsLeasable queueId label now) : ¬m.IsExpired now :=
  Int.not_le.mpr h.2.1.2

/-- The message is neither visible yet nor expired. -/
def Message.IsPending (m : Message) (now : Instant) : Prop :=
  ¬m.IsExpired now ∧ now < m.scheduledAt

instance (m : Message) (now : Instant) : Decidable (m.IsPending now) :=
  inferInstanceAs (Decidable (_ ∧ _))

namespace Store

/-! ### Kinds of messages -/

/-- **A message of a queue is of one kind**: leases may take it, or it is expired, or neither
yet. -/
theorem countP_queueId (queueId : String) (now : Instant) (ms : List Message) :
    ms.countP (fun m => m.queueId = queueId) =
      ms.countP (fun m => m.IsLeasable queueId none now) +
      ms.countP (fun m => m.queueId = queueId ∧ m.IsExpired now) +
      ms.countP (fun m => m.queueId = queueId ∧ m.IsPending now) := by
  induction ms with
  | nil => rfl
  | cons m ms ih =>
    have hone : (if m.queueId = queueId then 1 else 0) =
        (if m.IsLeasable queueId none now then 1 else 0) +
        (if m.queueId = queueId ∧ m.IsExpired now then 1 else 0) +
        (if m.queueId = queueId ∧ m.IsPending now then 1 else 0) := by
      by_cases hqueue : m.queueId = queueId
      · simp only [Message.isLeasable_none, Message.IsVisible, Message.IsPending, Message.IsExpired,
          Instant.le_def, Instant.lt_def, hqueue, true_and]
        split_ifs <;> omega
      · simp only [Message.isLeasable_none, hqueue, false_and, if_false]
    simp only [List.countP_cons, decide_eq_true_eq, ih, hone]
    omega

section Queues

variable {s : Store} {ms : List Message} {now : Instant}

/-! ### Statistics -/

/-- The rows that statistics look at are those of the messages that leases may take. -/
theorem Regular.leasableRows_eq (h : s.Regular ms) (id : String) (hnow : now.HasFourDigitYear) :
    visibleRows id now s.messages =
      (ms.filter fun m => m.IsLeasable id none now).map MessageRow.ofMessage := by
  rw [h.toKeeps.visibleRows_eq h.years id hnow]
  exact congrArg _ (List.filter_congr fun m _ => decide_eq_decide.mpr Message.isLeasable_none.symm)

/-- **The statistics of a queue** are those of its backlog. -/
theorem Regular.queueStats_eq (h : s.Regular ms) (id : String) (hnow : now.HasFourDigitYear) :
    queueStats id now s = (.ok (.ofMessages now (backlog id none now ms)), s) := by
  have hvisible := h.leasableRows_eq id hnow
  have hbacklog := perm_backlog id none now ms
  have hyears : ∀ m ∈ ms.filter fun m => m.IsLeasable id none now, m.HasFourDigitYears :=
    fun m hm => h.years m (List.mem_of_mem_filter hm)
  generalize ms.filter (fun m => m.IsLeasable id none now) = l at hvisible hbacklog hyears
  have hlength : (visibleRows id now s.messages).length = (backlog id none now ms).length := by
    rw [hvisible, List.length_map, hbacklog.length_eq]
  have hcounted := select_ok .plain
    (fun rows : List MessageRow => .ok (visibleRows id now rows).length) h.undisturbed
    (congrArg Except.ok hlength)
  unfold queueStats
  rw [bind_ok hcounted]
  split_ifs with hzero
  · rw [List.length_eq_zero_iff.mp hzero]
    rfl
  · obtain ⟨sorted, hsort, hperm, hordered⟩ :=
      mergeSort_createdAt fun m hm => (hyears m hm).createdAt
    cases sorted with
    | nil => exact absurd (hbacklog.trans hperm.symm).length_eq hzero
    | cons m rest =>
      have hm : m ∈ l := hperm.subset List.mem_cons_self
      have hfirst : ∀ m' ∈ backlog id none now ms, m.createdAt ≤ m'.createdAt := by
        intro m' hm'
        rcases List.mem_cons.mp ((hbacklog.trans hperm.symm).subset hm') with rfl | hm'
        · exact Int.le_refl _
        · exact List.rel_of_pairwise_cons hordered hm'
      have hread : Instant.read? (MessageRow.ofMessage m).createdAt = some m.createdAt :=
        Instant.read?_stored (hyears m hm).createdAt.isRepresentable
      have hrows : (TableRow.rows s : List MessageRow) = s.messages := rfl
      rw [bind_pure_apply, select_undisturbed _ _ h.undisturbed, hrows, hvisible, hsort,
        List.map_cons, QueueStats.ofMessages_eq (hbacklog.symm.subset hm) hfirst]
      dsimp only
      rw [hread]
      rfl

theorem Regular.filter (h : s.Regular ms) (p : Message → Bool) :
    (s.withMessages (ms.filter p)).Regular (ms.filter p) :=
  ⟨h.toKeeps.filter p, fun m hm => h.years m (List.mem_of_mem_filter hm)⟩

/-! ### All of them -/

theorem Regular.lease_all (h : s.Regular ms) (q : Queue) {limit : UInt32}
    (hnow : now.HasFourDigitYear) (hlimit : (backlog q.id none now ms).length ≤ limit.toNat) :
    lease q none limit now s = (.ok ((backlog q.id none now ms).map (·.leaseRenew q now)),
      s.withMessages (renewMessages q now ((backlog q.id none now ms).map Message.id) ms)) :=
  h.lease_eq_take q none limit hnow (List.take_of_length_le hlimit).symm

theorem backlog_renewMessages_all (hids : (ms.map Message.id).Nodup) {q : Queue}
    (hdeadline : 1 ≤ q.ackDeadlineSeconds) : backlog q.id none now
      (renewMessages q now ((backlog q.id none now ms).map Message.id) ms) = [] := by
  have hrest := backlog_renewMessages q.id none now hids hdeadline
    (backlog q.id none now ms).length
  rw [List.take_length, List.drop_length] at hrest
  exact hrest

theorem backlog_cleanup (queueId id : String) (label : Option String) (now : Instant)
    (ms : List Message) :
    backlog queueId label now (ms.filter fun m => ¬(m.queueId = id ∧ m.IsExpired now)) =
      backlog queueId label now ms := by
  rw [backlog, backlog, filter_filter_of_imp fun m _ hm => ?_]
  exact decide_eq_true fun hn => (of_decide_eq_true hm).not_isExpired hn.2

/-- **Answers about a queue agree.** At any instant a lease that has room for all messages that the
statistics count takes just as many, and the oldest of them is as old as the statistics say; right
after it none is left for the statistics to count, if its ack deadline ends within the years 0 to
9999. A cleanup does not change the statistics. A purge removes the messages that the statistics
count, those that a cleanup removes, and those that are neither visible yet nor expired. -/
theorem answers_about_a_queue_agree (h : s.Regular ms) {q : Queue}
    (hdeadline : 1 ≤ q.ackDeadlineSeconds) (hnow : now.HasFourDigitYear) :
    ∃ (stats : QueueStats) (expired : Nat), queueStats q.id now s = (.ok stats, s) ∧
      stats.numUndeliveredMessages = ms.countP (fun m => m.IsLeasable q.id none now) ∧
      (∀ limit : UInt32, stats.numUndeliveredMessages ≤ limit.toNat →
        ∃ taken s', lease q none limit now s = (.ok taken, s') ∧
          stats.numUndeliveredMessages = taken.length ∧
          stats.oldestUnackedMessageAgeSeconds =
            (taken.map fun m => now.secondsSince m.createdAt).max?.getD 0 ∧
          ((taken ≠ [] → (now.addSeconds q.ackDeadlineSeconds.toNat).HasFourDigitYear) →
            queueStats q.id now s' = (.ok .zero, s'))) ∧
      (∃ s', cleanup q.id now s = (.ok expired, s') ∧ queueStats q.id now s' = (.ok stats, s')) ∧
      expired = ms.countP (fun m => m.queueId = q.id ∧ m.IsExpired now) ∧
      (purge q.id s).1 = .ok (stats.numUndeliveredMessages + expired +
        ms.countP fun m => m.queueId = q.id ∧ m.IsPending now) := by
  have hcount : (QueueStats.ofMessages now (backlog q.id none now ms)).numUndeliveredMessages =
      ms.countP fun m => m.IsLeasable q.id none now :=
    (perm_backlog q.id none now ms).length_eq.trans List.countP_eq_length_filter.symm
  refine ⟨_, _, h.queueStats_eq q.id hnow, hcount, fun limit hlimit => ?_,
    ⟨_, h.toKeeps.cleanup_eq h.years q.id hnow, ?_⟩, rfl, ?_⟩
  · refine ⟨_, _, h.lease_all q hnow hlimit, ?_, ?_, fun hlater => ?_⟩
    · rw [List.length_map]
      rfl
    · rw [List.map_map]
      rfl
    · have hrenewed := h.renew hnow fun hne => hlater (List.map_eq_nil_iff.not.mpr hne)
      rw [hrenewed.queueStats_eq q.id hnow, backlog_renewMessages_all h.ids hdeadline]
      rfl
  · rw [(h.filter _).queueStats_eq q.id hnow, backlog_cleanup]
  · rw [h.toKeeps.purge_eq, hcount, countP_queueId q.id now]

/-- Three messages of one queue: at second 60 the first is expired, the second is visible and the
third is not visible yet. -/
def threeKinds : List Message :=
  [sampleMessage,
    (Message.ofContent ⟨none, "body", ∅⟩).enqueue "b" sampleQueue (Instant.epoch.addSeconds 60),
    (Message.ofContent ⟨none, "body", ∅⟩).enqueue "c"
      { sampleQueue with deliveryDelaySeconds := 5 } (Instant.epoch.addSeconds 60)]

/-- The statistics count one of them, and none after a lease for one. A purge removes all three. -/
theorem threeKinds_counted : (empty.addMessages threeKinds).Regular threeKinds ∧
    1 ≤ sampleQueue.ackDeadlineSeconds ∧ (Instant.epoch.addSeconds 60).HasFourDigitYear ∧
    ∃ stats taken s', queueStats "q" (Instant.epoch.addSeconds 60) (empty.addMessages threeKinds) =
        (.ok stats, empty.addMessages threeKinds) ∧ stats.numUndeliveredMessages = 1 ∧
      lease sampleQueue none 1 (Instant.epoch.addSeconds 60) (empty.addMessages threeKinds) =
        (.ok taken, s') ∧ taken.length = 1 ∧
      queueStats "q" (Instant.epoch.addSeconds 60) s' = (.ok .zero, s') ∧
      (purge "q" (empty.addMessages threeKinds)).1 = .ok 3 := by
  have hregular : (empty.addMessages threeKinds).Regular threeKinds :=
    ⟨⟨⟨rfl, rfl, rfl⟩, rfl, by decide⟩, by decide⟩
  have hdeadline : 1 ≤ sampleQueue.ackDeadlineSeconds := by decide
  have hnow : (Instant.epoch.addSeconds 60).HasFourDigitYear := by decide
  obtain ⟨stats, expired, hstats, hcount, hlease, -, hexpired, hpurge⟩ :=
    answers_about_a_queue_agree hregular hdeadline hnow
  have hone : stats.numUndeliveredMessages = 1 := hcount.trans (by decide +kernel)
  rw [hone, hexpired] at hpurge
  obtain ⟨taken, s', hleased, hlength, -, hnone⟩ := hlease 1 hone.le
  exact ⟨hregular, hdeadline, hnow, stats, taken, s', hstats, hone, hleased,
    hlength.symm.trans hone, hnone fun _ => by decide,
    hpurge.trans (congrArg Except.ok (by decide +kernel))⟩

end Queues

end Store

end MessageBroker

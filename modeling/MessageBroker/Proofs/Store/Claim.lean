import MessageBroker.Proofs.Store.Keyed

/-! # The halves of a lease

A lease reads candidates (`readCandidates`) and claims them. A claim compares before it writes: it
renews the row of a candidate if the row is visible and has the attempts that were read
(`isClaimable`), and leaves all others. On a store whose rows have identifiers of their own,
`claimAll_eq` gives what the claims of candidates answer and the rows after them, whatever happened
to the rows since they were read. What the candidates were read from is said by
`readCandidates_rows`. -/

namespace MessageBroker.Store

open Fallible

/-! ### Rows under a claim -/

namespace MessageRow

/-- The row is visible and that of a candidate, with the attempts that were read. -/
def isClaimable (r : MessageRow) (now : Instant) (m : Message) : Bool :=
  r.id = m.id && (r.deliveryAttempts = .ofWord m.deliveryAttempts && r.isVisible now)

/-- The row as the claim of a candidate writes it. -/
def renewed (r : MessageRow) (q : Queue) (now : Instant) (m : Message) : MessageRow :=
  { r with
    deliveryAttempts := .ofWord (m.leaseRenew q now).deliveryAttempts
    scheduledAt := (m.leaseRenew q now).scheduledAt.stored
    updatedAt := (m.leaseRenew q now).updatedAt.stored }

/-- The row after the claim of a candidate. -/
def claimed (r : MessageRow) (q : Queue) (now : Instant) (m : Message) : MessageRow :=
  if r.isClaimable now m then r.renewed q now m else r

theorem isClaimable_iff {r : MessageRow} {now : Instant} {m : Message} :
    r.isClaimable now m = true ↔
      r.id = m.id ∧ r.deliveryAttempts = .ofWord m.deliveryAttempts ∧ r.isVisible now = true := by
  simp only [isClaimable, Bool.and_eq_true, decide_eq_true_eq]

theorem id_claimed (r : MessageRow) (q : Queue) (now : Instant) (m : Message) :
    (r.claimed q now m).id = r.id := by
  unfold claimed
  split_ifs <;> rfl

theorem queueId_claimed (r : MessageRow) (q : Queue) (now : Instant) (m : Message) :
    (r.claimed q now m).queueId = r.queueId := by
  unfold claimed
  split_ifs <;> rfl

/-- The claim of one candidate does not decide on that of another. -/
theorem isClaimable_claimed {m m' : Message} (h : m'.id ≠ m.id) (r : MessageRow) (q : Queue)
    (now : Instant) : (r.claimed q now m).isClaimable now m' = r.isClaimable now m' := by
  unfold claimed
  split_ifs with hm
  · have hid : r.id ≠ m'.id := fun he => h (he.symm.trans (isClaimable_iff.mp hm).1)
    simp [isClaimable, renewed, hid]
  · rfl

end MessageRow

/-- The claim of a candidate succeeds on rows. -/
def isGranted (now : Instant) (rows : List MessageRow) (m : Message) : Bool :=
  rows.any (·.isClaimable now m)

/-- The rows after the claims of candidates. -/
def claimedRows (q : Queue) (now : Instant) (l : List Message) (rows : List MessageRow) :
    List MessageRow := l.foldl (fun rows m => rows.map (·.claimed q now m)) rows

section Claims

variable {s : Store} {q : Queue} {now : Instant}

theorem countP_of_id {rows : List MessageRow} (hids : (rows.map MessageRow.id).Nodup)
    {selected : MessageRow → Bool} {id : String} (hid : ∀ r, selected r = true → r.id = id) :
    rows.countP selected = if rows.any selected then 1 else 0 := by
  split_ifs with hany
  · have hle : rows.countP selected ≤ (rows.map MessageRow.id).count id := by
      rw [List.count, List.countP_map]
      exact List.countP_mono_left fun r _ hr => beq_iff_eq.mpr (hid r hr)
    have hone := List.nodup_iff_count_le_one.mp hids id
    have hpos : 0 < rows.countP selected := List.countP_pos_iff.mpr (List.any_eq_true.mp hany)
    omega
  · rw [List.any_eq_true, ← List.countP_pos_iff] at hany
    omega

theorem Keyed.count_claimable (h : s.Keyed) (now : Instant) (m : Message) :
    s.messages.countP (·.isClaimable now m) =
      if isGranted now s.messages m then 1 else 0 :=
  countP_of_id h.ids fun _ hr => (MessageRow.isClaimable_iff.mp hr).1

theorem Keyed.claim_eq (h : s.Keyed) (q : Queue) (now : Instant) (m : Message) :
    claim q now m s = (.ok (if isGranted now s.messages m then 1 else 0),
      { s with messages := s.messages.map (·.claimed q now m) }) := by
  rw [← h.count_claimable]
  exact statement_ok .plain (fun rules rows => updateMessageRow rules m.id
    (fun r => r.deliveryAttempts = .ofWord m.deliveryAttempts && r.isVisible now)
    (·.renewed q now m) rows) h.toUndisturbed (updateMessageRow_none _ _ _ _)

/-- **The claims of candidates are compare-and-swaps.** They answer the candidates whose rows can be
claimed, in order, and renew these rows. -/
theorem Keyed.claimEach_eq (h : s.Keyed) (q : Queue) (now : Instant) {l : List Message}
    (hl : (l.map Message.id).Nodup) : claimEach q now l s =
      (.ok ((l.filter (isGranted now s.messages)).map (·.leaseRenew q now)),
        { s with messages := claimedRows q now l s.messages }) := by
  induction l generalizing s with
  | nil => rfl
  | cons m l ih =>
    obtain ⟨hm, hl⟩ := List.nodup_cons.mp hl
    have hkeyed := h.map fun r => r.id_claimed q now m
    -- the claim of the first candidate does not decide on those of the others
    have hrest : ∀ m' ∈ l, isGranted now (s.messages.map (·.claimed q now m)) m' =
        isGranted now s.messages m' := by
      intro m' hm'
      have hne : m'.id ≠ m.id := fun he => hm (he ▸ List.mem_map_of_mem hm')
      unfold isGranted
      rw [List.any_map]
      exact congrArg (List.any s.messages) (funext fun r => r.isClaimable_claimed hne q now)
    rw [claimEach, bind_ok (h.claim_eq q now m), bind_ok (ih hkeyed hl), List.filter_congr hrest]
    by_cases hgranted : isGranted now s.messages m = true
    · rw [List.filter_cons_of_pos hgranted, if_pos hgranted]
      rfl
    · rw [List.filter_cons_of_neg hgranted, if_neg hgranted]
      rfl

theorem Keyed.claimAll_eq (h : s.Keyed) (q : Queue) (now : Instant) {l : List Message}
    (hl : (l.map Message.id).Nodup) : claimAll q now l s =
      (.ok ((l.filter (isGranted now s.messages)).map (·.leaseRenew q now)),
        { s with messages := claimedRows q now l s.messages }) := by
  have hclaims := h.claimEach_eq q now hl
  cases l with
  | nil => exact hclaims
  | cons m l => rw [claimAll, if_neg (by simp), transaction_apply h.toUndisturbed, hclaims]

/-! ### Claimed rows -/

theorem map_claimedRows {α : Type} {f : MessageRow → α}
    (hf : ∀ (r : MessageRow) (m : Message), f (r.claimed q now m) = f r) (l : List Message)
    (rows : List MessageRow) : (claimedRows q now l rows).map f = rows.map f := by
  induction l generalizing rows with
  | nil => rfl
  | cons m l ih =>
    rw [claimedRows, List.foldl_cons, ← claimedRows, ih, List.map_map]
    exact List.map_congr_left fun r _ => hf r m

theorem map_id_claimedRows (l : List Message) (rows : List MessageRow) :
    (claimedRows q now l rows).map MessageRow.id = rows.map MessageRow.id :=
  map_claimedRows (fun r m => r.id_claimed q now m) l rows

theorem Keyed.afterClaims (h : s.Keyed) (q : Queue) (now : Instant) (l : List Message) :
    Keyed { s with messages := claimedRows q now l s.messages } :=
  h.replace ((map_id_claimedRows l s.messages).symm ▸ h.ids)

/-- A row after claims is a row before them, or the renewed row of a candidate. -/
theorem mem_claimedRows {l : List Message} (hl : (l.map Message.id).Nodup)
    {rows : List MessageRow} {r' : MessageRow} (hr' : r' ∈ claimedRows q now l rows) :
    (r' ∈ rows ∧ ∀ m ∈ l, r'.isClaimable now m = false) ∨
      ∃ m ∈ l, ∃ r ∈ rows, r.isClaimable now m = true ∧ r' = r.renewed q now m := by
  induction l generalizing rows with
  | nil => exact Or.inl ⟨hr', fun m hm => absurd hm List.not_mem_nil⟩
  | cons m l ih =>
    obtain ⟨hm, hl⟩ := List.nodup_cons.mp hl
    have hne : ∀ m' ∈ l, m'.id ≠ m.id := fun m' hm' he => hm (he ▸ List.mem_map_of_mem hm')
    rcases ih hl hr' with ⟨hmem, hnone⟩ | ⟨m', hm', r₁, hr₁, hclaimable, rfl⟩
    · obtain ⟨r, hr, rfl⟩ := List.mem_map.mp hmem
      by_cases hclaimable : r.isClaimable now m = true
      · right
        exact ⟨m, List.mem_cons_self, r, hr, hclaimable, if_pos hclaimable⟩
      · left
        have hstays : r.claimed q now m = r := if_neg hclaimable
        rw [hstays] at hnone ⊢
        exact ⟨hr, List.forall_mem_cons.mpr ⟨Bool.eq_false_of_not_eq_true hclaimable, hnone⟩⟩
    · right
      obtain ⟨r, hr, rfl⟩ := List.mem_map.mp hr₁
      rw [r.isClaimable_claimed (hne m' hm')] at hclaimable
      have hstays : r.claimed q now m = r := by
        refine if_neg fun hr => hne m' hm' ?_
        rw [← (MessageRow.isClaimable_iff.mp hclaimable).1, (MessageRow.isClaimable_iff.mp hr).1]
      rw [hstays]
      exact ⟨m', List.mem_cons_of_mem _ hm', r, hr, hclaimable, rfl⟩

/-- A candidate that is granted has its row with the attempts that were read, and one more after the
claims. -/
theorem Keyed.attempts_claimedRows (h : s.Keyed) {l : List Message} (hl : (l.map Message.id).Nodup)
    {m : Message} (hm : m ∈ l) (hgranted : isGranted now s.messages m = true) {r' : MessageRow}
    (hr' : r' ∈ claimedRows q now l s.messages) (hid : r'.id = m.id) :
    r'.deliveryAttempts = .ofWord (m.deliveryAttempts + 1) := by
  obtain ⟨r, hr, hclaimable⟩ := List.any_eq_true.mp hgranted
  have hrid := (MessageRow.isClaimable_iff.mp hclaimable).1
  rcases mem_claimedRows hl hr' with ⟨hmem, hnone⟩ | ⟨m', hm', r₁, -, hclaimable', rfl⟩
  · have hsame : r' = r := h.eq_of_id hr hmem (hid.trans hrid.symm)
    have hfalse := hnone m hm
    rw [hsame, hclaimable] at hfalse
    cases hfalse
  · have hid' := (MessageRow.isClaimable_iff.mp hclaimable').1
    have hsame : m' = m := List.inj_on_of_nodup_map hl hm' hm (hid'.symm.trans hid)
    rw [hsame]
    rfl

end Claims

/-! ### What candidates are read from -/

/-- The first half of a lease. -/
def readCandidates (q : Queue) (label : Option String) (limit : UInt32) (now : Instant) :
    Access (List Message) := if limit = 0 then pure [] else candidates q.id label limit now

theorem lease_eq_bind (q : Queue) (label : Option String) (limit : UInt32) (now : Instant) :
    lease q label limit now = readCandidates q label limit now >>= claimAll q now := by
  unfold lease readCandidates
  split_ifs <;> rfl

theorem reads_readCandidates (q : Queue) (label : Option String) (limit : UInt32) (now : Instant) :
    Reads (readCandidates q label limit now) := by
  unfold readCandidates
  split_ifs
  · exact preserves_pure []
  · exact reads_select _ _

theorem map_eq_of_forall₂ {α β γ : Type} {R : α → β → Prop} {f : α → γ} {g : β → γ}
    {l : List α} {l' : List β} (h : List.Forall₂ R l l') (hR : ∀ a b, R a b → g b = f a) :
    l'.map g = l.map f := by
  induction h with
  | nil => rfl
  | cons hab _ ih => rw [List.map_cons, List.map_cons, ih, hR _ _ hab]

theorem map_id_of_decode? {rows : List MessageRow} {ms : List Message}
    (h : List.Forall₂ (fun r m => r.decode? = some m) rows ms) :
    ms.map Message.id = rows.map MessageRow.id :=
  map_eq_of_forall₂ h fun _ _ hm => (MessageRow.decode?_eq_some hm).1

theorem exists_of_mem_right {α β : Type} {R : α → β → Prop} {l : List α} {l' : List β}
    (h : List.Forall₂ R l l') {b : β} (hb : b ∈ l') : ∃ a ∈ l, R a b := by
  induction h with
  | nil => exact absurd hb List.not_mem_nil
  | @cons a₀ b₀ _ _ hR _ ih =>
    rcases List.mem_cons.mp hb with rfl | hb
    · exact ⟨a₀, List.mem_cons_self, hR⟩
    · obtain ⟨a, ha, hab⟩ := ih hb
      exact ⟨a, List.mem_cons_of_mem _ ha, hab⟩

/-- The candidates of a lease have identifiers of their own, and are read from visible rows of its
queue. -/
theorem readCandidates_rows {s : Store} (hids : (s.messages.map MessageRow.id).Nodup) {q : Queue}
    {label : Option String} {limit : UInt32} {now : Instant} {ms : List Message}
    (hms : (readCandidates q label limit now s).1 = .ok ms) :
    (ms.map Message.id).Nodup ∧ ∀ m ∈ ms, ∃ r ∈ s.messages, r.decode? = some m ∧
      r.queueId = q.id ∧ r.hasLabel label = true ∧ r.isVisible now = true := by
  unfold readCandidates at hms
  split_ifs at hms
  · have hnil : [] = ms := Except.ok.inj hms
    rw [← hnil]
    exact ⟨List.nodup_nil, fun m hm => absurd hm List.not_mem_nil⟩
  · unfold candidates at hms
    have hquery := of_select .plain hms
    have hread := forall₂_of_mapM_decoded hquery
    constructor
    · rw [map_id_of_decode? hread]
      refine List.Nodup.sublist ((List.take_sublist _ _).map _) ?_
      refine ((List.mergeSort_perm _ _).map _).nodup_iff.mpr ?_
      exact hids.sublist ((List.filter_sublist.trans List.filter_sublist).map _)
    · intro m hm
      obtain ⟨r, hr, hdecode⟩ := exists_of_mem_right hread hm
      have hmem := List.mem_mergeSort.mp (List.mem_of_mem_take hr)
      simp only [visibleRows, List.mem_filter, Bool.and_eq_true, decide_eq_true_eq] at hmem
      obtain ⟨⟨hrow, hqueue, hvisible⟩, hlabel⟩ := hmem
      exact ⟨r, hrow, hdecode, hqueue, hlabel, hvisible⟩

theorem Keyed.readCandidates_rows {s : Store} (h : s.Keyed) {q : Queue} {label : Option String}
    {limit : UInt32} {now : Instant} {ms : List Message}
    (hms : (readCandidates q label limit now s).1 = .ok ms) :
    (ms.map Message.id).Nodup ∧ ∀ m ∈ ms, ∃ r ∈ s.messages, r.decode? = some m ∧
      r.queueId = q.id ∧ r.hasLabel label = true ∧ r.isVisible now = true :=
  Store.readCandidates_rows h.ids hms

/-- **A lease that is not interfered with** renews all candidates that it read. -/
theorem Keyed.lease_eq {s : Store} (h : s.Keyed) {q : Queue} {label : Option String}
    {limit : UInt32} {now : Instant} {ms : List Message}
    (hms : (readCandidates q label limit now s).1 = .ok ms) :
    lease q label limit now s = (.ok (ms.map (·.leaseRenew q now)),
      { s with messages := claimedRows q now ms s.messages }) := by
  have hread : readCandidates q label limit now s = (.ok ms, s) :=
    Prod.ext hms (reads_readCandidates q label limit now s)
  obtain ⟨hids, hrows⟩ := h.readCandidates_rows hms
  have hgranted : ∀ m ∈ ms, isGranted now s.messages m = true := by
    intro m hm
    obtain ⟨r, hr, hdecode, -, -, hvisible⟩ := hrows m hm
    obtain ⟨hid, -, -, -, hattempts⟩ := MessageRow.decode?_eq_some hdecode
    have hclaimable := MessageRow.isClaimable_iff.mpr ⟨hid.symm, hattempts, hvisible⟩
    exact List.any_eq_true.mpr ⟨r, hr, hclaimable⟩
  rw [lease_eq_bind, bind_ok hread, h.claimAll_eq q now hids, List.filter_eq_self.mpr hgranted]

end MessageBroker.Store

import MessageBroker.Proofs.Store.Claim
import MessageBroker.Proofs.Store.Lifecycle

/-! # Claims of rows that others change

The claims of a lease meet rows that changed since its candidates were read, that rules pass over,
and in which the claims before have set off thefts. No store is assumed undisturbed here, only that
no update of a message fails (`Writable`). Then a claim is granted if its candidate's row is there,
has the attempts that were read, is visible, and is not passed over (`isGrantedUnder`). It writes
that row, after which thefts may count attempts, and no others (`Writable.exists_claim`); a claim
that is not granted leaves all rows. The lemma about several claims is `Writable.exists_claimEach`:
every row is as the answer says (`IsClaimedAs`), whichever claims were granted. -/

namespace MessageBroker.Store

open Fallible

/-! ### Rules that pass rows over -/

/-- No update of a message is refused with a failure. -/
def Rules.IsSilent (rules : Rules) : Prop :=
  ∀ j ∈ rules.rejections, j.table = .messages → j.event = .update → j.message = .none

instance (rules : Rules) : Decidable rules.IsSilent := inferInstanceAs (Decidable (∀ _ ∈ _, _))

/-- Whether the rules let an update of a message take place. -/
def Rules.permits (rules : Rules) (r : MessageRow) : Bool :=
  !rules.rejections.any (·.applies .update r)

section Rows

variable {rules : Rules} {r : MessageRow}

theorem Rules.permits_iff :
    rules.permits r = true ↔ ∀ j ∈ rules.rejections, j.applies .update r = false := by
  simp only [permits, Bool.not_eq_true', List.any_eq_false, Bool.not_eq_true]

theorem Rules.IsSilent.admits (h : rules.IsSilent) (r : MessageRow) :
    rules.admits .update r = .ok (rules.permits r) := by
  unfold Rules.admits Rules.permits
  rcases hfind : rules.rejections.find? (·.applies .update r) with _ | j
  · have hnone : rules.rejections.any (·.applies .update r) = false := by
      rw [List.any_eq_false]
      exact List.find?_eq_none.mp hfind
    rw [hnone, hfind]
    rfl
  · have happlies : j.applies .update r = true :=
      List.find?_some (p := fun j : Rejection => j.applies .update r) hfind
    have hmem := List.mem_of_find?_eq_some hfind
    have hsome : rules.rejections.any (·.applies .update r) = true :=
      List.any_eq_true.mpr ⟨j, hmem, happlies⟩
    simp only [Rejection.applies, Bool.and_eq_true, decide_eq_true_eq] at happlies
    obtain ⟨⟨htable, hevent⟩, -⟩ := happlies
    rw [hsome, hfind]
    simp only [h j hmem htable hevent]
    rfl

theorem Rules.IsSilent.updateRows_eq (h : rules.IsSilent) (selected : MessageRow → Bool)
    (change : MessageRow → MessageRow) (rows : List MessageRow) :
    updateRows rules selected change rows = .ok (rows.countP fun r => selected r && rules.permits r,
      rows.map fun r => if selected r && rules.permits r then change r else r) := by
  induction rows with
  | nil => rfl
  | cons r rest ih =>
    rw [updateRows, ih, List.countP_cons, List.map_cons, h.admits]
    cases selected r <;> cases rules.permits r <;> rfl

end Rows

/-! ### Counted attempts -/

/-- Of a row nothing changed but its number of attempts, in which thefts from it were counted. -/
structure MessageRow.Counts (thefts : List Theft) (r r' : MessageRow) : Prop where
  row : ∃ n, r' = { r with deliveryAttempts := Cell.succ^[n] r.deliveryAttempts }
  stays : (∀ t ∈ thefts, t.victim ≠ r.id) → r' = r

namespace MessageRow.Counts

variable {thefts thefts' : List Theft} {r r' r'' : MessageRow}

theorem refl (thefts : List Theft) (r : MessageRow) : Counts thefts r r := ⟨⟨0, rfl⟩, fun _ => rfl⟩

theorem id_eq (h : Counts thefts r r') : r'.id = r.id := by
  obtain ⟨n, rfl⟩ := h.row
  rfl

theorem trans (h : Counts thefts r r') (h' : Counts thefts r' r'') : Counts thefts r r'' := by
  constructor
  · obtain ⟨n, rfl⟩ := h.row
    obtain ⟨n', rfl⟩ := h'.row
    exact ⟨n' + n, by rw [Function.iterate_add_apply]⟩
  · intro hne
    rw [h'.stays (h.id_eq ▸ hne), h.stays hne]

theorem mono (h : Counts thefts' r r') (hsub : thefts' ⊆ thefts) : Counts thefts r r' :=
  ⟨h.row, fun hne => h.stays fun t ht => hne t (hsub ht)⟩

end MessageRow.Counts

theorem forall₂_trans {α : Type} {R S T : α → α → Prop} {l l' l'' : List α}
    (h : List.Forall₂ R l l') (h' : List.Forall₂ S l' l'')
    (hT : ∀ a b c, R a b → S b c → T a c) : List.Forall₂ T l l'' := by
  induction h generalizing l'' with
  | nil =>
    cases h'
    exact List.Forall₂.nil
  | cons hR _ ih =>
    cases h' with
    | cons hS hrest => exact List.Forall₂.cons (hT _ _ _ hR hS) (ih hrest)

/-- Thefts count attempts of their victims, and do nothing else. -/
theorem Rules.IsSilent.exists_stealFrom {rules : Rules} (h : rules.IsSilent) (depth : Nat)
    (thefts : List Theft) (id : String) (rows : List MessageRow) :
    ∃ rows', stealFrom rules depth thefts id rows = .ok rows' ∧
      List.Forall₂ (MessageRow.Counts thefts) rows rows' := by
  induction depth generalizing thefts id rows with
  | zero => exact ⟨rows, rfl, List.forall₂_same.mpr fun r _ => .refl thefts r⟩
  | succ depth ih =>
    rw [stealFrom]
    have hsub : thefts.filter (·.id = id) ⊆ thefts := fun t ht => List.mem_of_mem_filter ht
    generalize thefts.filter (·.id = id) = l at hsub
    -- the thefts that the update sets off follow one another, each on the rows of the one before
    induction l generalizing rows with
    | nil => exact ⟨rows, rfl, List.forall₂_same.mpr fun r _ => .refl thefts r⟩
    | cons t l ihl =>
      obtain ⟨ht, hsub⟩ := List.cons_subset.mp hsub
      have hcounted : List.Forall₂ (MessageRow.Counts thefts) rows (rows.map fun r =>
          if decide (r.id = t.victim) && rules.permits r then
            { r with deliveryAttempts := r.deliveryAttempts.succ } else r) := by
        refine List.forall₂_map_right_iff.mpr (List.forall₂_same.mpr fun r _ => ?_)
        split_ifs with hvictim
        · rw [Bool.and_eq_true, decide_eq_true_eq] at hvictim
          exact ⟨⟨1, rfl⟩, fun hne => absurd hvictim.1.symm (hne t ht)⟩
        · exact .refl thefts r
      rw [List.foldlM_cons, h.updateRows_eq]
      simp only [bind, Except.bind]
      split_ifs
      · obtain ⟨rows', hrest, hrows'⟩ := ihl _ hsub
        exact ⟨rows', hrest, forall₂_trans hcounted hrows' fun _ _ _ => .trans⟩
      · obtain ⟨rows₁, hstolen, hrows₁⟩ := ih (thefts.erase t) t.victim _
        rw [hstolen]
        obtain ⟨rows', hrest, hrows'⟩ := ihl rows₁ hsub
        have hmono : List.Forall₂ (MessageRow.Counts thefts) _ rows₁ :=
          hrows₁.imp fun _ _ hr => hr.mono List.erase_subset
        have hlater := forall₂_trans hmono hrows' fun _ _ _ => MessageRow.Counts.trans
        exact ⟨rows', hrest, forall₂_trans hcounted hlater fun _ _ _ => .trans⟩

/-- An update of a message writes the rows that it selects and that are not passed over. Thefts
follow. -/
theorem Rules.IsSilent.exists_updateMessageRow {rules : Rules} (h : rules.IsSilent) (id : String)
    (selected : MessageRow → Bool) (change : MessageRow → MessageRow) (rows : List MessageRow) :
    ∃ rows', updateMessageRow rules id selected change rows =
        .ok (rows.countP fun r => (r.id = id && selected r) && rules.permits r, rows') ∧
      List.Forall₂ (fun r r' => MessageRow.Counts rules.thefts
        (if (r.id = id && selected r) && rules.permits r then change r else r) r') rows rows' := by
  rw [updateMessageRow, h.updateRows_eq]
  simp only [bind, Except.bind]
  split_ifs with hnone
  · rw [hnone]
    refine ⟨_, rfl, List.forall₂_map_right_iff.mpr (List.forall₂_same.mpr fun r _ => ?_)⟩
    exact .refl rules.thefts _
  · obtain ⟨rows', hstolen, hrows'⟩ := h.exists_stealFrom rules.thefts.length rules.thefts id
      (rows.map fun r => if (r.id = id && selected r) && rules.permits r then change r else r)
    rw [hstolen]
    exact ⟨rows', rfl, List.forall₂_map_left_iff.mp hrows'⟩

/-! ### Single claims -/

/-- The messages of a store can be reached, no two share an identifier, and no update of one
fails. -/
structure Writable (s : Store) : Prop where
  closed : s.closed = false
  present : Table.messages ∉ s.missing
  ids : (s.messages.map MessageRow.id).Nodup
  silent : s.rules.IsSilent

/-- The claim of a candidate of a lease succeeds on rows, under rules. -/
def isGrantedUnder (rules : Rules) (now : Instant) (rows : List MessageRow) (m : Message) : Bool :=
  rows.any fun r => r.isClaimable now m && rules.permits r

theorem isGrantedUnder_iff {rules : Rules} {now : Instant} {rows : List MessageRow} {m : Message} :
    isGrantedUnder rules now rows m = true ↔ ∃ r ∈ rows, r.id = m.id ∧
      r.deliveryAttempts = .ofWord m.deliveryAttempts ∧
      Text.le r.scheduledAt now.stored = true ∧ Text.lt now.stored r.expiredAt = true ∧
      ∀ j ∈ rules.rejections, j.applies .update r = false := by
  simp only [isGrantedUnder, List.any_eq_true, Bool.and_eq_true, MessageRow.isClaimable_iff,
    MessageRow.isVisible, Rules.permits_iff, and_assoc]

/-- The row after the claim of a candidate, before any theft. -/
def MessageRow.claimedUnder (r : MessageRow) (rules : Rules) (q : Queue) (now : Instant)
    (m : Message) : MessageRow :=
  if r.isClaimable now m && rules.permits r then r.renewed q now m else r

/-- What the claims of candidates make of a row if they answer messages: it is that of its candidate
if this is answered, and stays if not. Thefts may count attempts in either case. -/
structure MessageRow.IsClaimedAs (thefts : List Theft) (q : Queue) (now : Instant)
    (ms leased : List Message) (r r' : MessageRow) : Prop where
  renewed : ∀ m ∈ ms, m.id = r.id → m.leaseRenew q now ∈ leased →
    Counts thefts (r.renewed q now m) r'
  stays : (∀ m ∈ ms, m.id = r.id → m.leaseRenew q now ∉ leased) → Counts thefts r r'

section Claims

variable {s : Store} {q : Queue} {now : Instant}

namespace Writable

theorem failure? (h : s.Writable) : s.failure? .messages = none := by
  rw [Store.failure?, h.closed, if_neg h.present]
  rfl

theorem replace (h : s.Writable) {rows : List MessageRow}
    (hids : rows.map MessageRow.id = s.messages.map MessageRow.id) :
    Writable { s with messages := rows } :=
  ⟨h.closed, h.present, hids ▸ h.ids, h.silent⟩

theorem statement_ok {α : Type} (h : s.Writable) (report : Report)
    (run : Rules → List MessageRow → Except StorageFailure (α × List MessageRow)) {a : α}
    {rows : List MessageRow} (hrun : run s.rules s.messages = .ok (a, rows)) :
    statement report run s = (.ok a, { s with messages := rows }) := by
  have hfailure : s.failure? (Row.table MessageRow) = none := h.failure?
  have hrun' : run s.rules (TableRow.rows s) = .ok (a, rows) := hrun
  simp only [statement, hfailure, hrun']
  rfl

/-- **The claim of a candidate** writes its row if it is granted, and leaves all rows if not. Thefts
count attempts afterwards. -/
theorem exists_claim (h : s.Writable) (q : Queue) (now : Instant) (m : Message) :
    ∃ rows, claim q now m s = (.ok (if isGrantedUnder s.rules now s.messages m then 1 else 0),
        { s with messages := rows }) ∧
      List.Forall₂
        (fun r r' => MessageRow.Counts s.rules.thefts (r.claimedUnder s.rules q now m) r')
        s.messages rows := by
  have hcount : (s.messages.countP fun r => r.isClaimable now m && s.rules.permits r) =
      if isGrantedUnder s.rules now s.messages m then 1 else 0 :=
    countP_of_id h.ids fun r hr =>
      (MessageRow.isClaimable_iff.mp ((Bool.and_eq_true _ _).mp hr).1).1
  obtain ⟨rows, hrun, hrows⟩ := h.silent.exists_updateMessageRow m.id
    (fun r => r.deliveryAttempts = .ofWord m.deliveryAttempts && r.isVisible now)
    (·.renewed q now m) s.messages
  refine ⟨rows, ?_, hrows⟩
  rw [← hcount]
  exact h.statement_ok .plain (fun rules rows => updateMessageRow rules m.id
    (fun r => r.deliveryAttempts = .ofWord m.deliveryAttempts && r.isVisible now)
    (·.renewed q now m) rows) hrun

theorem isGrantedUnder_eq (h : s.Writable) {now : Instant} {m : Message} {r : MessageRow}
    (hr : r ∈ s.messages) (hid : r.id = m.id) : isGrantedUnder s.rules now s.messages m =
      (r.isClaimable now m && s.rules.permits r) := by
  rw [Bool.eq_iff_iff, isGrantedUnder, List.any_eq_true]
  constructor
  · rintro ⟨r', hr', hclaimable⟩
    have hid' := (MessageRow.isClaimable_iff.mp ((Bool.and_eq_true _ _).mp hclaimable).1).1
    rwa [List.inj_on_of_nodup_map h.ids hr' hr (hid'.trans hid.symm)] at hclaimable
  · exact fun hclaimable => ⟨r, hr, hclaimable⟩

end Writable

/-! ### Claims of several candidates -/

theorem id_mem_of_leased {l leased : List Message} (h : leased ⊆ l.map (·.leaseRenew q now))
    {m : Message} (hm : m.leaseRenew q now ∈ leased) : m.id ∈ l.map Message.id := by
  obtain ⟨m', hm', he⟩ := List.mem_map.mp (h hm)
  have hid : (m'.leaseRenew q now).id = m.id := he ▸ rfl
  exact List.mem_map.mpr ⟨m', hm', hid⟩

namespace MessageRow

theorem id_claimedUnder (r : MessageRow) (rules : Rules) (q : Queue) (now : Instant) (m : Message) :
    (r.claimedUnder rules q now m).id = r.id := by
  unfold claimedUnder
  split_ifs <;> rfl

/-- What a claim writes does not depend on the attempts counted before. -/
theorem Counts.renewed_eq {thefts : List Theft} {r r' : MessageRow} (h : Counts thefts r r')
    (q : Queue) (now : Instant) (m : Message) : r'.renewed q now m = r.renewed q now m := by
  obtain ⟨n, rfl⟩ := h.row
  rfl

theorem IsClaimedAs.id_eq {thefts : List Theft} {ms leased : List Message} {r r' : MessageRow}
    (h : IsClaimedAs thefts q now ms leased r r') : r'.id = r.id := by
  by_cases hleased : ∃ m ∈ ms, m.id = r.id ∧ m.leaseRenew q now ∈ leased
  · obtain ⟨m, hm, hid, hmem⟩ := hleased
    exact (h.renewed m hm hid hmem).id_eq
  · push Not at hleased
    exact (h.stays hleased).id_eq

/-- What the claim of a candidate and then those of others make of a row. -/
theorem isClaimedAs_cons {rules : Rules} {m : Message} {l leased : List Message}
    (hm : ∀ m' ∈ l, m'.id ≠ m.id) (hleased : leased ⊆ l.map (·.leaseRenew q now)) {granted : Bool}
    {r r₁ r₂ : MessageRow}
    (hgranted : r.id = m.id → granted = (r.isClaimable now m && rules.permits r))
    (hfirst : Counts rules.thefts (r.claimedUnder rules q now m) r₁)
    (hrest : IsClaimedAs rules.thefts q now l leased r₁ r₂) :
    IsClaimedAs rules.thefts q now (m :: l)
      (if granted then m.leaseRenew q now :: leased else leased) r r₂ := by
  have hid₁ : r₁.id = r.id := hfirst.id_eq.trans (r.id_claimedUnder rules q now m)
  have hanswered : ∀ m' : Message, m'.leaseRenew q now ∈ leased → m'.id ≠ m.id := by
    intro m' hm'
    obtain ⟨m'', hmem, he⟩ := List.mem_map.mp (id_mem_of_leased hleased hm')
    exact he ▸ hm m'' hmem
  by_cases hid : r.id = m.id
  · have hlater : Counts rules.thefts r₁ r₂ :=
      hrest.stays fun m' hm' he _ => hm m' hm' (he.trans (hid₁.trans hid))
    unfold claimedUnder at hfirst
    rw [← hgranted hid] at hfirst
    have hboth := hfirst.trans hlater
    cases granted with
    | false => exact ⟨fun m' _ he hmem => absurd (he.trans hid) (hanswered m' hmem), fun _ => hboth⟩
    | true =>
      refine ⟨fun m' hm' he _ => ?_, fun hnot => ?_⟩
      · rcases List.mem_cons.mp hm' with rfl | hm'
        · exact hboth
        · exact absurd (he.trans hid) (hm m' hm')
      · exact absurd List.mem_cons_self (hnot m List.mem_cons_self hid.symm)
  · have hother : r.claimedUnder rules q now m = r :=
      if_neg fun hr => hid (isClaimable_iff.mp ((Bool.and_eq_true _ _).mp hr).1).1
    rw [hother] at hfirst
    have hmem_iff : ∀ m' : Message, m'.id = r.id →
        (m'.leaseRenew q now ∈ (if granted then m.leaseRenew q now :: leased else leased) ↔
          m'.leaseRenew q now ∈ leased) := by
      intro m' he
      have hne : m'.leaseRenew q now ≠ m.leaseRenew q now := by
        intro heq
        have hsame : (m'.leaseRenew q now).id = m.id := heq ▸ rfl
        exact hid (he.symm.trans hsame)
      split_ifs
      · rw [List.mem_cons, or_iff_right hne]
      · rfl
    refine ⟨fun m' hm' he hmem => ?_, fun hnot => ?_⟩
    · rcases List.mem_cons.mp hm' with rfl | hm'
      · exact absurd he.symm hid
      · rw [← hfirst.renewed_eq q now m']
        exact hrest.renewed m' hm' (he.trans hid₁.symm) ((hmem_iff m' he).mp hmem)
    · refine hfirst.trans (hrest.stays fun m' hm' he hmem => ?_)
      have he' : m'.id = r.id := he.trans hid₁
      exact hnot m' (List.mem_cons_of_mem m hm') he' ((hmem_iff m' he').mpr hmem)

end MessageRow

theorem claimEach_append (q : Queue) (now : Instant) (l l' : List Message) :
    claimEach q now (l ++ l') = do
      return (← claimEach q now l) ++ (← claimEach q now l') := by
  induction l with
  | nil => simp [claimEach]
  | cons m l ih =>
    rw [List.cons_append, claimEach, claimEach, ih]
    simp only [bind_assoc, pure_bind]
    refine bind_congr fun affected => bind_congr fun leased => bind_congr fun leased' => ?_
    split_ifs <;> rfl

namespace Writable

/-- **The claims of candidates succeed**, whichever of them are granted, and make of every row what
their answer says. -/
theorem exists_claimEach (h : s.Writable) (q : Queue) (now : Instant) {l : List Message}
    (hl : (l.map Message.id).Nodup) : ∃ leased rows,
      claimEach q now l s = (.ok leased, { s with messages := rows }) ∧
      leased.Sublist (l.map (·.leaseRenew q now)) ∧
      List.Forall₂ (MessageRow.IsClaimedAs s.rules.thefts q now l leased) s.messages rows := by
  induction l generalizing s with
  | nil =>
    refine ⟨[], s.messages, rfl, List.Sublist.refl [], List.forall₂_same.mpr fun r _ => ?_⟩
    exact ⟨fun m hm => absurd hm List.not_mem_nil, fun _ => .refl s.rules.thefts r⟩
  | cons m l ih =>
    obtain ⟨hm, hl⟩ := List.nodup_cons.mp hl
    obtain ⟨rows₁, hclaim, hrows₁⟩ := h.exists_claim q now m
    have hids : rows₁.map MessageRow.id = s.messages.map MessageRow.id :=
      map_eq_of_forall₂ hrows₁ fun r _ hr => hr.id_eq.trans (r.id_claimedUnder s.rules q now m)
    obtain ⟨leased, rows, hclaims, hsub, hrows⟩ := ih (h.replace hids) hl
    refine ⟨if isGrantedUnder s.rules now s.messages m then m.leaseRenew q now :: leased
      else leased, rows, ?_, ?_, ?_⟩
    · rw [claimEach, bind_ok hclaim, bind_ok hclaims]
      cases isGrantedUnder s.rules now s.messages m <;> rfl
    · rw [List.map_cons]
      split_ifs
      · exact hsub.cons_cons _
      · exact hsub.cons _
    · have hne : ∀ m' ∈ l, m'.id ≠ m.id := fun m' hm' he => hm (he ▸ List.mem_map_of_mem hm')
      have hclaimable : ∀ r ∈ s.messages, r.id = m.id →
          isGrantedUnder s.rules now s.messages m = (r.isClaimable now m && s.rules.permits r) :=
        fun r hr hid => h.isGrantedUnder_eq hr hid
      have hgranted := (List.forall₂_and_left _ _).mpr ⟨hclaimable, hrows₁⟩
      exact forall₂_trans hgranted hrows fun _ _ _ hr hr₁ =>
        MessageRow.isClaimedAs_cons hne hsub.subset hr.1 hr.2 hr₁

theorem mem_leased_iff (h : s.Writable) {before after : List Message} {m : Message}
    (hids : ((before ++ m :: after).map Message.id).Nodup) {leased : List Message} {s' : Store}
    (hclaims : claimEach q now (before ++ m :: after) s = (.ok leased, s')) :
    ∃ leased₁ rows₁, claimEach q now before s = (.ok leased₁, { s with messages := rows₁ }) ∧
      (m.leaseRenew q now ∈ leased ↔ isGrantedUnder s.rules now rows₁ m = true) := by
  rw [List.map_append, List.map_cons, List.nodup_append, List.nodup_cons] at hids
  obtain ⟨hbefore, ⟨hm, hafter⟩, hne⟩ := hids
  obtain ⟨leased₁, rows₁, hclaims₁, hsub₁, hrows₁⟩ := h.exists_claimEach q now hbefore
  have h₁ : Writable { s with messages := rows₁ } :=
    h.replace (map_eq_of_forall₂ hrows₁ fun _ _ hr => hr.id_eq)
  obtain ⟨rows₂, hclaim, hrows₂⟩ := h₁.exists_claim q now m
  have h₂ : Writable { s with messages := rows₂ } :=
    h₁.replace (map_eq_of_forall₂ hrows₂ fun r _ hr =>
      hr.id_eq.trans (r.id_claimedUnder s.rules q now m))
  obtain ⟨leased₃, rows₃, hclaims₃, hsub₃, -⟩ := h₂.exists_claimEach q now hafter
  refine ⟨leased₁, rows₁, hclaims₁, ?_⟩
  have hnot₁ : m.leaseRenew q now ∉ leased₁ := fun hmem =>
    hne _ (id_mem_of_leased hsub₁.subset hmem) _ List.mem_cons_self rfl
  have hnot₃ : m.leaseRenew q now ∉ leased₃ := fun hmem =>
    hm (id_mem_of_leased hsub₃.subset hmem)
  rw [claimEach_append, bind_ok hclaims₁, claimEach, bind_apply, bind_ok hclaim, bind_ok hclaims₃]
    at hclaims
  cases hgranted : isGrantedUnder s.rules now rows₁ m with
  | false =>
    have hleased : leased₁ ++ leased₃ = leased := by
      simpa [hgranted, pure_apply] using congrArg Prod.fst hclaims
    simp [← hleased, hnot₁, hnot₃]
  | true =>
    have hleased : leased₁ ++ m.leaseRenew q now :: leased₃ = leased := by
      simpa [hgranted, pure_apply] using congrArg Prod.fst hclaims
    simp [← hleased]

end Writable

theorem claimAll_of_claimEach (hclosed : s.closed = false) {l leased : List Message} {s' : Store}
    (h : claimEach q now l s = (.ok leased, s')) : claimAll q now l s = (.ok leased, s') := by
  have hconnect : connect s = (.ok (), s) := by
    rw [connect, hclosed]
    rfl
  cases l with
  | nil => exact h
  | cons m l => simp [claimAll, transaction, hconnect, h]

/-- **Claims are compare-and-swaps.** Candidates of a lease are claimed whatever became of their
rows since they were read, with any thefts and any rejections that pass rows over. The claims
succeed and answer candidates in their order. One of them is answered if and only if the claims
before it have left its row with the attempts that were read, visible, and not to be passed over.
The row of a candidate that is answered gets one attempt more than was read, the end of the ack
deadline and the present instant, and keeps all else; all other rows stay. Thefts count attempts of
their victims in addition. If nothing comes between, this is what the lease answers. -/
theorem claims_are_exact {s₀ : Store} (hids : (s₀.messages.map MessageRow.id).Nodup)
    {label : Option String} {limit : UInt32} {ms : List Message}
    (hread : (readCandidates q label limit now s₀).1 = .ok ms) (h : s.Writable) :
    ∃ leased rows, claimAll q now ms s = (.ok leased, { s with messages := rows }) ∧
      leased.Sublist (ms.map (·.leaseRenew q now)) ∧
      (∀ before m after, ms = before ++ m :: after → ∃ leased₁ rows₁,
        claimAll q now before s = (.ok leased₁, { s with messages := rows₁ }) ∧
        (m.leaseRenew q now ∈ leased ↔ ∃ r ∈ rows₁, r.id = m.id ∧
          r.deliveryAttempts = .ofWord m.deliveryAttempts ∧
          Text.le r.scheduledAt now.stored = true ∧ Text.lt now.stored r.expiredAt = true ∧
          ∀ j ∈ s.rules.rejections, j.applies .update r = false)) ∧
      List.Forall₂ (fun r r' =>
        (∀ m ∈ ms, m.id = r.id → m.leaseRenew q now ∈ leased →
          MessageRow.Counts s.rules.thefts { r with
            deliveryAttempts := .ofWord (m.deliveryAttempts + 1)
            scheduledAt := (now.addSeconds q.ackDeadlineSeconds.toNat).stored
            updatedAt := now.stored } r') ∧
        ((∀ m ∈ ms, m.id = r.id → m.leaseRenew q now ∉ leased) →
          MessageRow.Counts s.rules.thefts r r')) s.messages rows ∧
      (s = s₀ → lease q label limit now s = (.ok leased, { s with messages := rows })) := by
  obtain ⟨hnodup, -⟩ := readCandidates_rows hids hread
  obtain ⟨leased, rows, hclaims, hsub, hrows⟩ := h.exists_claimEach q now hnodup
  have hall := claimAll_of_claimEach h.closed hclaims
  refine ⟨leased, rows, hall, hsub, ?_, hrows.imp fun _ _ hr => ⟨hr.renewed, hr.stays⟩, ?_⟩
  · rintro before m after rfl
    obtain ⟨leased₁, rows₁, hclaims₁, hiff⟩ := h.mem_leased_iff hnodup hclaims
    exact ⟨leased₁, rows₁, claimAll_of_claimEach h.closed hclaims₁, hiff.trans isGrantedUnder_iff⟩
  · rintro rfl
    have hcandidates : readCandidates q label limit now s = (.ok ms, s) :=
      Prod.ext hread (reads_readCandidates q label limit now s)
    rw [lease_eq_bind, bind_ok hcandidates, hall]

end Claims

/-- Three messages of a queue. -/
def threeMessages : List Message :=
  [sampleMessage, { sampleMessage with id := "b" }, { sampleMessage with id := "c" }]

/-- The first message was leased since. Whenever the second one is, the third one counts an
attempt. -/
def contendedStore : Store :=
  { empty.addMessages (sampleMessage.leaseRenew sampleQueue .epoch :: threeMessages.tail) with
    rules := ⟨[], [⟨"b", "c"⟩]⟩ }

/-- Of three candidates the second one is answered, although the first one is not. Its claim takes
the third one away. -/
theorem contendedStore_claims :
    ((empty.addMessages threeMessages).messages.map MessageRow.id).Nodup ∧
    (readCandidates sampleQueue none 3 .epoch (empty.addMessages threeMessages)).1 =
      .ok threeMessages ∧ contendedStore.Writable ∧
    ∃ leased s', claimAll sampleQueue .epoch threeMessages contendedStore = (.ok leased, s') ∧
      ∀ m ∈ threeMessages, m.leaseRenew sampleQueue .epoch ∈ leased ↔ m.id = "b" := by
  have hids : ((empty.addMessages threeMessages).messages.map MessageRow.id).Nodup := by decide
  have hread : (readCandidates sampleQueue none 3 .epoch (empty.addMessages threeMessages)).1 =
      .ok threeMessages := by cbv
  have hwritable : contendedStore.Writable := ⟨rfl, by decide, by decide, by decide⟩
  obtain ⟨leased, rows, hclaims, -, hleased, -⟩ := claims_are_exact hids hread hwritable
  refine ⟨hids, hread, hwritable, leased, _, hclaims, ?_⟩
  have hiff (before : List Message) (m : Message) (after : List Message)
      (hsplit : threeMessages = before ++ m :: after) :
      m.leaseRenew sampleQueue .epoch ∈ leased ↔
        isGrantedUnder contendedStore.rules .epoch
          (claimAll sampleQueue .epoch before contendedStore).2.messages m = true := by
    obtain ⟨leased₁, rows₁, hbefore, hm⟩ := hleased before m after hsplit
    rw [hm, hbefore, isGrantedUnder_iff]
  have hfirst := hiff [] sampleMessage threeMessages.tail rfl
  have hsecond := hiff [sampleMessage] { sampleMessage with id := "b" }
    [{ sampleMessage with id := "c" }] rfl
  have hthird := hiff [sampleMessage, { sampleMessage with id := "b" }]
    { sampleMessage with id := "c" } [] rfl
  refine List.forall_mem_cons.mpr ⟨hfirst.trans ?_, List.forall_mem_cons.mpr
    ⟨hsecond.trans ?_, List.forall_mem_singleton.mpr (hthird.trans ?_)⟩⟩
  all_goals decide +kernel

end MessageBroker.Store

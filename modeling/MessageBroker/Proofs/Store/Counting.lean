import MessageBroker.Proofs.Store.Attempts

/-! # What the rows of a queue add up to

`depth` counts the rows of a queue, and `attemptsOf` adds up their attempts. New messages count for
the first and not for the second (`attemptsOf_addMessages`), a removal of none of them changes
neither (`attemptsOf_removal`), and acknowledgements and returns keep both
(`Keyed.attemptsOf_rewritten`). The claims of `n` candidates add `n` attempts, except that one after
the last that can be counted starts again from none (`Keyed.attemptsOf_claimedRows`). -/

namespace MessageBroker.Store

/-- The attempts that a row holds. -/
def MessageRow.attempts (r : MessageRow) : Nat := (r.deliveryAttempts.word?.getD 0).toNat

/-- The attempts that a row adds to those of a queue. -/
def MessageRow.attemptsFor (queueId : String) (r : MessageRow) : Nat :=
  if r.queueId = queueId then r.attempts else 0

/-- The number of rows of a queue. -/
def depth (queueId : String) (rows : List MessageRow) : Nat := rows.countP (·.queueId = queueId)

/-- The attempts of the rows of a queue, added up. -/
def attemptsOf (queueId : String) (rows : List MessageRow) : Nat :=
  (rows.map (·.attemptsFor queueId)).sum

namespace MessageRow

theorem attempts_of_eq {r : MessageRow} {n : UInt32} (h : r.deliveryAttempts = .ofWord n) :
    r.attempts = n.toNat := by
  rw [attempts, h, Cell.word?_ofWord]
  rfl

theorem attemptsFor_of_eq {r r' : MessageRow} (hqueue : r'.queueId = r.queueId)
    (hattempts : r'.deliveryAttempts = r.deliveryAttempts) (queueId : String) :
    r'.attemptsFor queueId = r.attemptsFor queueId := by
  unfold attemptsFor attempts
  rw [hqueue, hattempts]

theorem attemptsFor_of_ne {r : MessageRow} {queueId : String} (h : r.queueId ≠ queueId) :
    r.attemptsFor queueId = 0 := if_neg h

end MessageRow

/-! ### Sums over rows -/

section Sums

variable {ρ : Type} {l : List ρ} {f g : ρ → Nat}

theorem sum_map_filter {p : ρ → Bool} (h : ∀ r ∈ l, p r = false → f r = 0) :
    ((l.filter p).map f).sum = (l.map f).sum := by
  induction l with
  | nil => rfl
  | cons r l ih =>
    obtain ⟨hr, hl⟩ := List.forall_mem_cons.mp h
    cases hp : p r with
    | true => rw [List.filter_cons_of_pos hp, List.map_cons, List.map_cons, List.sum_cons, ih hl,
        List.sum_cons]
    | false =>
      rw [List.filter_cons_of_neg (by simp [hp]), ih hl, List.map_cons, List.sum_cons, hr hp,
        Nat.zero_add]

theorem sum_map_of_eq_off [DecidableEq ρ] (hl : l.Nodup) {r₀ : ρ} (hr₀ : r₀ ∈ l)
    (hoff : ∀ r ∈ l, r ≠ r₀ → g r = f r) : (l.map g).sum + f r₀ = (l.map f).sum + g r₀ := by
  have hrest : (l.erase r₀).map g = (l.erase r₀).map f := by
    refine List.map_congr_left fun r hr => ?_
    obtain ⟨hne, hmem⟩ := hl.mem_erase_iff.mp hr
    exact hoff r hmem hne
  have hsum := List.sum_map_erase f hr₀
  have hsum' := List.sum_map_erase g hr₀
  rw [hrest] at hsum'
  omega

end Sums

/-! ### Rows that come and go -/

section Rows

variable {s : Store} {rows : List MessageRow} {queueId : String}

theorem depth_addMessages (s : Store) (ms : List Message) (queueId : String) :
    depth queueId (s.addMessages ms).messages =
      depth queueId s.messages + ms.countP (·.queueId = queueId) := by
  unfold depth addMessages
  rw [List.countP_append, List.countP_map]
  rfl

theorem attemptsOf_addMessages (s : Store) {ms : List Message}
    (hms : ∀ m ∈ ms, m.deliveryAttempts = 0) (queueId : String) :
    attemptsOf queueId (s.addMessages ms).messages = attemptsOf queueId s.messages := by
  have hnone : ∀ m ∈ ms, (MessageRow.ofMessage m).attemptsFor queueId = 0 := by
    intro m hm
    have hzero : (MessageRow.ofMessage m).attempts = 0 :=
      MessageRow.attempts_of_eq (n := 0) (congrArg Cell.ofWord (hms m hm))
    simp [MessageRow.attemptsFor, hzero]
  unfold attemptsOf addMessages
  rw [List.map_append, List.sum_append, List.map_map, Nat.add_eq_left]
  refine List.sum_eq_zero fun n hn => ?_
  obtain ⟨m, hm, rfl⟩ := List.mem_map.mp hn
  exact hnone m hm

theorem depth_removal {selected : MessageRow → Bool} {id : String}
    (hselected : ∀ r, selected r = true → r.queueId = id) (rows : List MessageRow)
    (queueId : String) : depth queueId (rows.filter fun r => !selected r) +
      (if id = queueId then rows.countP selected else 0) = depth queueId rows := by
  unfold depth
  rw [List.countP_eq_countP_filter_add rows (fun r => r.queueId = queueId) selected, Nat.add_comm,
    Nat.add_right_cancel_iff, List.countP_filter]
  split_ifs with hid
  · refine List.countP_congr fun r _ => ?_
    simp only [Bool.and_eq_true, decide_eq_true_eq]
    exact ⟨fun hr => ⟨(hselected r hr).trans hid, hr⟩, fun hr => hr.2⟩
  · refine (List.countP_eq_zero.mpr fun r _ hr => ?_).symm
    simp only [Bool.and_eq_true, decide_eq_true_eq] at hr
    exact hid ((hselected r hr.2).symm.trans hr.1)

theorem attemptsOf_removal {selected : MessageRow → Bool} {id : String}
    (hselected : ∀ r, selected r = true → r.queueId = id)
    (hnone : (if id = queueId then rows.countP selected else 0) = 0) :
    attemptsOf queueId (rows.filter fun r => !selected r) = attemptsOf queueId rows := by
  refine sum_map_filter fun r hr hremoved => ?_
  have hr' : selected r = true := by simpa using hremoved
  refine MessageRow.attemptsFor_of_ne fun hqueue => ?_
  rw [if_pos ((hselected r hr').symm.trans hqueue)] at hnone
  exact List.countP_eq_zero.mp hnone r hr hr'

/-! ### Rows that change -/

theorem depth_of_map_eq {rows' : List MessageRow}
    (h : rows'.map MessageRow.queueId = rows.map MessageRow.queueId) (queueId : String) :
    depth queueId rows' = depth queueId rows := by
  have hcount (l : List MessageRow) :
      depth queueId l = (l.map MessageRow.queueId).countP (· = queueId) := by
    rw [List.countP_map]
    rfl
  rw [hcount, hcount, h]

theorem depth_claimedRows (q : Queue) (now : Instant) (l : List Message) (rows : List MessageRow)
    (queueId : String) : depth queueId (claimedRows q now l rows) = depth queueId rows :=
  depth_of_map_eq (map_claimedRows (fun r m => r.queueId_claimed q now m) l rows) queueId

theorem depth_rewritten (rows : List MessageRow) (id : String) (m : Message) (queueId : String) :
    depth queueId (rows.map fun r => if r.id = id then r.rewritten m else r) =
      depth queueId rows := by
  refine depth_of_map_eq ?_ queueId
  rw [List.map_map]
  refine List.map_congr_left fun r _ => ?_
  rw [Function.comp_apply]
  split_ifs <;> rfl

theorem Keyed.attemptsOf_rewritten (h : s.Keyed) {r₀ : MessageRow} (hr₀ : r₀ ∈ s.messages)
    {m : Message} (hattempts : r₀.deliveryAttempts = .ofWord m.deliveryAttempts)
    (queueId : String) :
    attemptsOf queueId (s.messages.map fun r => if r.id = r₀.id then r.rewritten m else r) =
      attemptsOf queueId s.messages := by
  unfold attemptsOf
  rw [List.map_map]
  refine congrArg List.sum (List.map_congr_left fun r hr => ?_)
  rw [Function.comp_apply]
  split_ifs with hid
  · obtain rfl := h.eq_of_id hr₀ hr hid
    have hqueue : (r.rewritten m).queueId = r.queueId := rfl
    exact MessageRow.attemptsFor_of_eq hqueue hattempts.symm queueId
  · rfl

/-! ### Rows that are claimed -/

theorem toNat_succ (n : UInt32) :
    (n + 1).toNat + (if n + 1 = 0 then 2 ^ 32 else 0) = n.toNat + 1 := by
  by_cases hn : n = 4294967295
  · rw [hn]
    decide
  · have hsucc := succ_toNat hn
    have hne : n + 1 ≠ 0 := by
      intro he
      rw [he] at hsucc
      cases hsucc
    rw [if_neg hne, hsucc, Nat.add_zero]

variable {q : Queue} {now : Instant}

theorem Keyed.attemptsOf_claimed (h : s.Keyed) {m : Message} {r₀ : MessageRow}
    (hr₀ : r₀ ∈ s.messages) (hclaimable : r₀.isClaimable now m = true) (hqueue : r₀.queueId = q.id)
    (queueId : String) : attemptsOf queueId (s.messages.map (·.claimed q now m)) +
      (if q.id = queueId then if m.deliveryAttempts + 1 = 0 then 2 ^ 32 else 0 else 0) =
      attemptsOf queueId s.messages + if q.id = queueId then 1 else 0 := by
  obtain ⟨hid, hattempts, -⟩ := MessageRow.isClaimable_iff.mp hclaimable
  have hoff : ∀ r ∈ s.messages, r ≠ r₀ →
      (r.claimed q now m).attemptsFor queueId = r.attemptsFor queueId := by
    intro r hr hne
    have hnot : ¬r.isClaimable now m = true := fun hr' =>
      hne (h.eq_of_id hr₀ hr ((MessageRow.isClaimable_iff.mp hr').1.trans hid.symm))
    rw [MessageRow.claimed, if_neg hnot]
  have hsum := sum_map_of_eq_off (f := (·.attemptsFor queueId))
    (g := fun r => (r.claimed q now m).attemptsFor queueId) h.ids.of_map hr₀ hoff
  have hbefore : r₀.attemptsFor queueId =
      if q.id = queueId then m.deliveryAttempts.toNat else 0 := by
    rw [MessageRow.attemptsFor, hqueue, MessageRow.attempts_of_eq hattempts]
  have hafter : (r₀.claimed q now m).attemptsFor queueId =
      if q.id = queueId then (m.deliveryAttempts + 1).toNat else 0 := by
    have hword : (r₀.renewed q now m).deliveryAttempts = .ofWord (m.deliveryAttempts + 1) := rfl
    have hrenewed : (r₀.renewed q now m).queueId = q.id := hqueue
    rw [MessageRow.claimed, if_pos hclaimable, MessageRow.attemptsFor, hrenewed,
      MessageRow.attempts_of_eq hword]
  have hsucc := toNat_succ m.deliveryAttempts
  unfold attemptsOf
  rw [List.map_map, Function.comp_def]
  rw [hbefore, hafter] at hsum
  split_ifs at hsum hsucc ⊢ <;> omega

/-- **Claims add as many attempts as there are candidates.** -/
theorem Keyed.attemptsOf_claimedRows (h : s.Keyed) {l : List Message}
    (hl : (l.map Message.id).Nodup)
    (hclaimable : ∀ m ∈ l, ∃ r ∈ s.messages, r.isClaimable now m = true ∧ r.queueId = q.id)
    (queueId : String) : attemptsOf queueId (claimedRows q now l s.messages) +
      2 ^ 32 * (if q.id = queueId then l.countP fun m => m.deliveryAttempts + 1 = 0 else 0) =
      attemptsOf queueId s.messages + if q.id = queueId then l.length else 0 := by
  induction l generalizing s with
  | nil => simp [claimedRows]
  | cons m l ih =>
    obtain ⟨hm, hl⟩ := List.nodup_cons.mp hl
    obtain ⟨⟨r₀, hr₀, hr₀m, hqueue⟩, hrest⟩ := List.forall_mem_cons.mp hclaimable
    -- the claim of the first candidate does not decide on those of the others
    have hrest' : ∀ m' ∈ l, ∃ r ∈ s.messages.map (·.claimed q now m),
        r.isClaimable now m' = true ∧ r.queueId = q.id := by
      intro m' hm'
      obtain ⟨r, hr, hrm', hrq⟩ := hrest m' hm'
      have hne : m'.id ≠ m.id := fun he => hm (he ▸ List.mem_map_of_mem hm')
      refine ⟨_, List.mem_map_of_mem hr, ?_, (r.queueId_claimed q now m).trans hrq⟩
      rw [r.isClaimable_claimed hne]
      exact hrm'
    have hfirst := h.attemptsOf_claimed hr₀ hr₀m hqueue queueId
    have hothers := ih (h.map fun r => r.id_claimed q now m) hl hrest'
    have hfold : claimedRows q now (m :: l) s.messages =
        claimedRows q now l (s.messages.map (·.claimed q now m)) := rfl
    rw [hfold, List.countP_cons, List.length_cons]
    simp only [decide_eq_true_eq]
    dsimp only at hothers
    split_ifs at hfirst hothers ⊢ <;> linarith

end Rows

end MessageBroker.Store

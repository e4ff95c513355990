import MessageBroker.Proofs.Store.Claim
import MessageBroker.Proofs.Store.Trace

/-! # Attempts are never taken back

`Follows s s' new` says that every row of `s'` continues a row of `s`, with at least its attempts,
or is that of a new message. Every operation leaves such a store (`Keyed.step`), so a row that has a
number of attempts has as many as long as it exists (`Follows.attemptsFrom`). -/

namespace MessageBroker.Store

open Fallible

/-! ### Rows that continue others -/

/-- A row has the identifier of another and, if it has attempts, at least those of the other. -/
structure MessageRow.Continues (r r' : MessageRow) : Prop where
  id : r'.id = r.id
  attempts : ∀ n, r'.deliveryAttempts = .ofWord n →
    ∃ n₀, r.deliveryAttempts = .ofWord n₀ ∧ n₀.toNat ≤ n.toNat

theorem MessageRow.continues_of_eq {r r' : MessageRow} (hid : r'.id = r.id)
    (hattempts : r'.deliveryAttempts = r.deliveryAttempts) : r.Continues r' :=
  ⟨hid, fun n hn => ⟨n, hattempts ▸ hn, Nat.le_refl _⟩⟩

/-- Every row of a keyed store continues a row of another store or is that of a new message. -/
structure Follows (s s' : Store) (new : List Message) : Prop where
  keyed : s'.Keyed
  rows : ∀ r' ∈ s'.messages, (∃ r ∈ s.messages, r.Continues r') ∨ ∃ m ∈ new, m.id = r'.id

/-- The row with an identifier, if there is one, has at least a number of attempts. -/
def AttemptsFrom (s : Store) (id : String) (n : Nat) : Prop :=
  ∀ r ∈ s.messages, r.id = id → ∀ k, r.deliveryAttempts = .ofWord k → n ≤ k.toNat

/-- The attempts of every row can be counted once more. -/
def BelowMax (s : Store) : Prop := ∀ r ∈ s.messages, r.deliveryAttempts ≠ .ofWord 4294967295

instance (s : Store) : Decidable s.BelowMax :=
  inferInstanceAs (Decidable (∀ r ∈ s.messages, r.deliveryAttempts ≠ .ofWord 4294967295))

section Rows

variable {s s' : Store} {new : List Message}

theorem Follows.attemptsFrom (h : s.Follows s' new) {id : String} {n : Nat}
    (hn : s.AttemptsFrom id n) (hnew : ∀ m ∈ new, m.id ≠ id) : s'.AttemptsFrom id n := by
  intro r' hr' hid k hk
  rcases h.rows r' hr' with ⟨r, hr, hcontinues⟩ | ⟨m, hm, he⟩
  · obtain ⟨k₀, hk₀, hle⟩ := hcontinues.attempts k hk
    exact (hn r hr (hcontinues.id.symm.trans hid) k₀ hk₀).trans hle
  · exact absurd (he.trans hid) (hnew m hm)

theorem Keyed.follows_self (h : s.Keyed) : s.Follows s [] :=
  ⟨h, fun r hr => Or.inl ⟨r, hr, MessageRow.continues_of_eq rfl rfl⟩⟩

theorem Keyed.follows_filter (h : s.Keyed) (p : MessageRow → Bool) :
    s.Follows { s with messages := s.messages.filter p } [] := by
  refine ⟨h.filter p, fun r hr => Or.inl ⟨r, ?_, MessageRow.continues_of_eq rfl rfl⟩⟩
  exact List.mem_of_mem_filter hr

theorem follows_addMessages {l : List Message} (h : (s.addMessages l).Keyed) :
    s.Follows (s.addMessages l) l := by
  refine ⟨h, fun r hr => ?_⟩
  rcases List.mem_append.mp hr with hr | hr
  · exact Or.inl ⟨r, hr, MessageRow.continues_of_eq rfl rfl⟩
  · obtain ⟨m, hm, rfl⟩ := List.mem_map.mp hr
    exact Or.inr ⟨m, hm, rfl⟩

theorem succ_toNat {n : UInt32} (h : n ≠ 4294967295) : (n + 1).toNat = n.toNat + 1 := by
  have hbound := n.toNat_lt_size
  have hne : n.toNat ≠ 4294967295 := fun he => h (UInt32.toNat_inj.mp he)
  simp only [UInt32.size] at hbound
  rw [UInt32.toNat_add]
  exact Nat.mod_eq_of_lt (by simp; omega)

theorem Keyed.follows_claimedRows (h : s.Keyed) (hbelow : s.BelowMax) (q : Queue) (now : Instant)
    {l : List Message} (hl : (l.map Message.id).Nodup) :
    s.Follows { s with messages := claimedRows q now l s.messages } [] := by
  refine ⟨h.afterClaims q now l, fun r' hr' => Or.inl ?_⟩
  rcases mem_claimedRows hl hr' with ⟨hr, -⟩ | ⟨m, -, r, hr, hclaimable, rfl⟩
  · exact ⟨r', hr, MessageRow.continues_of_eq rfl rfl⟩
  · obtain ⟨-, hattempts, -⟩ := MessageRow.isClaimable_iff.mp hclaimable
    have hne : m.deliveryAttempts ≠ 4294967295 := fun he => hbelow r hr (he ▸ hattempts)
    refine ⟨r, hr, rfl, fun n hn => ⟨m.deliveryAttempts, hattempts, ?_⟩⟩
    have hword : m.deliveryAttempts + 1 = n := Cell.ofWord_inj hn
    rw [← hword, succ_toNat hne]
    exact Nat.le_succ _

theorem Keyed.follows_rewrite (h : s.Keyed) {id : String} {f : Message → Message}
    (hid : ∀ m, (f m).id = m.id) (hattempts : ∀ m, (f m).deliveryAttempts = m.deliveryAttempts)
    (hs' : (getMessage id >>= fun m => updateMessage (f m)) s = (.ok (), s')) :
    s.Follows s' [] := by
  obtain ⟨r₀, hr₀, -, m, hdecode, rfl⟩ := exists_of_rewrite h.toUndisturbed hid hs'
  refine ⟨h.map fun r => ?_, fun r' hr' => Or.inl ?_⟩
  · split_ifs <;> rfl
  · obtain ⟨r, hr, rfl⟩ := List.mem_map.mp hr'
    refine ⟨r, hr, ?_⟩
    split_ifs with he
    · obtain rfl := h.eq_of_id hr₀ hr he
      refine MessageRow.continues_of_eq rfl ?_
      rw [(MessageRow.decode?_eq_some hdecode).2.2.2.2, MessageRow.rewritten, hattempts]
    · exact MessageRow.continues_of_eq rfl rfl

end Rows

/-! ### All operations -/

section Steps

variable {s s' : Store}

theorem Keyed.follows_of_messageSide (h : s.Keyed) (hs : s'.messageSide = s.messageSide) :
    s.Follows s' [] := by
  simp only [messageSide, Prod.mk.injEq] at hs
  obtain ⟨hmessages, hrules, hmissing, hclosed⟩ := hs
  refine ⟨⟨⟨hrules ▸ h.rules, hmissing ▸ h.missing, hclosed ▸ h.closed⟩, hmessages ▸ h.ids⟩, ?_⟩
  intro r hr
  exact Or.inl ⟨r, hmessages ▸ hr, MessageRow.continues_of_eq rfl rfl⟩

theorem Keyed.follows_createMessage (h : s.Keyed) {m : Message}
    (hs' : createMessage m s = (.ok (), s')) : s.Follows s' [m] := by
  obtain ⟨rfl, hkeyed⟩ := h.of_createMessage hs'
  exact follows_addMessages hkeyed

theorem Keyed.follows_createMessages (h : s.Keyed) {l : List Message}
    (hs' : createMessages l s = (.ok (), s')) : s.Follows s' l := by
  obtain ⟨rfl, hkeyed⟩ := h.of_createMessages hs'
  exact follows_addMessages hkeyed

theorem Keyed.follows_lease (h : s.Keyed) (hbelow : s.BelowMax) {q : Queue} {label : Option String}
    {limit : UInt32} {now : Instant} {ms : List Message}
    (hs' : lease q label limit now s = (.ok ms, s')) : s.Follows s' [] := by
  rw [lease_eq_bind] at hs'
  obtain ⟨l, s₁, hl, hclaims⟩ := exists_of_bind_apply hs'
  have hs₁ : s₁ = s := (congrArg Prod.snd hl).symm.trans (reads_readCandidates q label limit now s)
  have hids := (h.readCandidates_rows (congrArg Prod.fst hl)).1
  rw [hs₁, h.claimAll_eq q now hids] at hclaims
  cases hclaims
  exact h.follows_claimedRows hbelow q now hids

theorem Keyed.follows_ack (h : s.Keyed) {id : String} {now : Instant}
    (hs' : ack id now s = (.ok (), s')) : s.Follows s' [] :=
  h.follows_rewrite (f := (·.ack now)) (fun _ => rfl) (fun _ => rfl) hs'

theorem Keyed.follows_nack (h : s.Keyed) {id : String} {timeout : UInt32} {now : Instant}
    (hs' : nack id timeout now s = (.ok (), s')) : s.Follows s' [] :=
  h.follows_rewrite (f := (·.nack now timeout)) (fun _ => rfl) (fun _ => rfl) hs'

theorem Keyed.follows_delete (h : s.Keyed) (selected : MessageRow → Bool) {n : Nat}
    (hs' : statement .plain (fun rules rows => deleteRows rules selected rows) s = (.ok n, s')) :
    s.Follows s' [] := by
  rw [statement_ok .plain _ h.toUndisturbed (deleteRows_none _ _)] at hs'
  cases hs'
  exact h.follows_filter _

theorem Keyed.step_ok {x : Step} (h : x.before.Keyed) (hbelow : x.before.BelowMax)
    {result : Result} (hanswer : x.answer = .ok result) :
    x.before.Follows x.after x.operation.submitted := by
  by_cases hwrites : x.operation.writesMessages = true
  · cases hop : x.operation with
    | createMessage m =>
      obtain ⟨_, hs'⟩ := x.exists_ok hanswer (a := createMessage m) (by rw [hop]; rfl)
      exact h.follows_createMessage hs'
    | createMessages l =>
      obtain ⟨_, hs'⟩ := x.exists_ok hanswer (a := createMessages l) (by rw [hop]; rfl)
      exact h.follows_createMessages hs'
    | lease q label limit now =>
      obtain ⟨_, hs'⟩ := x.exists_ok hanswer (a := lease q label limit now) (by rw [hop]; rfl)
      exact h.follows_lease hbelow hs'
    | ack id now =>
      obtain ⟨_, hs'⟩ := x.exists_ok hanswer (a := ack id now) (by rw [hop]; rfl)
      exact h.follows_ack hs'
    | nack id timeout now =>
      obtain ⟨_, hs'⟩ := x.exists_ok hanswer (a := nack id timeout now) (by rw [hop]; rfl)
      exact h.follows_nack hs'
    | purge id =>
      obtain ⟨_, hs'⟩ := x.exists_ok hanswer (a := purge id) (by rw [hop]; rfl)
      exact h.follows_delete (fun r => r.queueId = id) hs'
    | cleanup id now =>
      obtain ⟨_, hs'⟩ := x.exists_ok hanswer (a := cleanup id now) (by rw [hop]; rfl)
      exact h.follows_delete (fun r => r.queueId = id && r.isExpired now) hs'
    | _ => simp [hop, Operation.writesMessages] at hwrites
  · have hidle := Bool.eq_false_of_not_eq_true hwrites
    have hperformed : perform x.operation x.before = (x.answer, x.after) := x.performed
    have hside := preserves_perform hidle x.before
    rw [hperformed] at hside
    have hsubmitted : x.operation.submitted = [] := by
      cases hop : x.operation <;> simp_all [Operation.submitted, Operation.writesMessages]
    rw [hsubmitted]
    exact h.follows_of_messageSide hside

/-- **Every operation leaves rows with the attempts they had**, or more. -/
theorem Keyed.step {x : Step} (h : x.before.Keyed) (hbelow : x.before.BelowMax) :
    x.before.Follows x.after x.inserted := by
  unfold Step.inserted
  rcases hanswer : x.answer with e | result
  · have hclean := failsClean_perform x.operation x.before e
    have hperformed : perform x.operation x.before = (x.answer, x.after) := x.performed
    rw [hperformed, hanswer] at hclean
    have hafter : x.after = x.before := hclean rfl
    rw [hafter]
    exact h.follows_self
  · exact h.step_ok hbelow hanswer

end Steps

end MessageBroker.Store

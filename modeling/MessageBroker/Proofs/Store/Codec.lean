import MessageBroker.Proofs.Instant.Order
import MessageBroker.Proofs.Instant.RoundTrip
import MessageBroker.Proofs.Json.RoundTrip
import MessageBroker.Store.Messages

/-! # Stored forms

A queue, a topic, a subscription or a message whose instants are representable is read back from its
row. The conditions that statements put on the row of a message whose instants have years of four
digits, which compare texts, are the conditions on the message (`isVisible_ofMessage`,
`isExpired_ofMessage`). -/

namespace MessageBroker

/-- The instants of a message. -/
def Message.instants (m : Message) : List Instant :=
  [m.expiredAt, m.scheduledAt, m.createdAt, m.updatedAt]

/-- All instants of a message lie within the years 0 to 9999. -/
def Message.HasFourDigitYears (m : Message) : Prop := ∀ t ∈ m.instants, t.HasFourDigitYear

instance (m : Message) : Decidable m.HasFourDigitYears :=
  inferInstanceAs (Decidable (∀ t ∈ m.instants, t.HasFourDigitYear))

namespace Message.HasFourDigitYears

variable {m : Message}

theorem expiredAt (h : m.HasFourDigitYears) : m.expiredAt.HasFourDigitYear :=
  h _ (by simp [instants])

theorem scheduledAt (h : m.HasFourDigitYears) : m.scheduledAt.HasFourDigitYear :=
  h _ (by simp [instants])

theorem createdAt (h : m.HasFourDigitYears) : m.createdAt.HasFourDigitYear :=
  h _ (by simp [instants])

theorem updatedAt (h : m.HasFourDigitYears) : m.updatedAt.HasFourDigitYear :=
  h _ (by simp [instants])

end Message.HasFourDigitYears

namespace Store

theorem Cell.eq_of_word? {c : Cell} {n : UInt32} (h : c.word? = some n) : c = .ofWord n := by
  cases c with
  | integer i =>
    simp only [Cell.word?] at h
    split_ifs at h with hi
    have hword : UInt32.ofNat i.toNat = n := Option.some.inj h
    rw [← hword, Cell.ofWord, UInt32.toNat_ofNat_of_lt' (by omega), Int.toNat_of_nonneg hi.1]
  | text t => cases h

theorem Cell.ofWord_inj {m n : UInt32} (h : ofWord m = ofWord n) : m = n := by
  have hword := word?_ofWord m
  rw [h, word?_ofWord] at hword
  exact (Option.some.inj hword).symm

/-- **The dictionary in a column is read back**, in whatever order its entries are written. -/
theorem texts?_written {d : Dict String} {l : List (String × String)} (hl : l.Perm d.entries) :
    texts? (Json.object (l.map fun (k, v) => (k, .text v))).render = some d := by
  rw [texts?, Json.decode_object Json.readsBack_text hl]
  rfl

theorem lists?_written {d : Dict (List String)} {l : List (String × List String)}
    (hl : l.Perm d.entries) :
    lists? (Json.object (l.map fun (k, v) => (k, .array (v.map .text)))).render = some d := by
  rw [lists?, Json.decode_object Json.readsBack_texts hl]
  rfl

theorem texts?_storedTexts (d : Dict String) : texts? (storedTexts d) = some d :=
  texts?_written (List.Perm.refl _)

theorem lists?_storedLists (d : Dict (List String)) : lists? (storedLists d) = some d :=
  lists?_written (List.Perm.refl _)

theorem QueueRow.decode?_ofQueue {q : Queue} (hcreated : q.createdAt.IsRepresentable)
    (hupdated : q.updatedAt.IsRepresentable) : (ofQueue q).decode? = some q := by
  simp only [decode?, ofQueue, Cell.word?_ofWord, Instant.read?_stored hcreated,
    Instant.read?_stored hupdated]
  rfl

theorem TopicRow.decode?_ofTopic {t : Topic} (h : t.createdAt.IsRepresentable) :
    (ofTopic t).decode? = some t := by
  simp only [decode?, ofTopic, Instant.read?_stored h]
  rfl

theorem SubscriptionRow.decode?_ofSubscription {s : Subscription}
    (h : s.createdAt.IsRepresentable) : (ofSubscription s).decode? = some s := by
  simp only [decode?, ofSubscription, lists?_storedLists, Instant.read?_stored h]
  rfl

theorem QueueRow.id_of_decode? {r : QueueRow} {q : Queue} (h : r.decode? = some q) :
    q.id = r.id := by
  simp only [decode?, Option.bind_eq_bind, Option.bind_eq_some_iff, Option.pure_def] at h
  obtain ⟨_, -, _, -, _, -, _, -, _, -, hq⟩ := h
  cases hq
  rfl

theorem TopicRow.id_of_decode? {r : TopicRow} {t : Topic} (h : r.decode? = some t) :
    t.id = r.id := by
  simp only [decode?, Option.bind_eq_bind, Option.bind_eq_some_iff, Option.pure_def] at h
  obtain ⟨_, -, ht⟩ := h
  cases ht
  rfl

theorem SubscriptionRow.id_of_decode? {r : SubscriptionRow} {s : Subscription}
    (h : r.decode? = some s) : s.id = r.id := by
  simp only [decode?, Option.bind_eq_bind, Option.bind_eq_some_iff, Option.pure_def] at h
  obtain ⟨_, -, _, -, hs⟩ := h
  cases hs
  rfl

namespace MessageRow

variable {m : Message}

/-- **A stored message is read back.** -/
theorem decode?_ofMessage_of_isRepresentable (h : ∀ t ∈ m.instants, t.IsRepresentable) :
    (ofMessage m).decode? = some m := by
  have hread : ∀ t ∈ m.instants, Instant.read? t.stored = some t := fun t ht =>
    Instant.read?_stored (h t ht)
  simp only [Message.instants, List.forall_mem_cons] at hread
  obtain ⟨hexpired, hscheduled, hcreated, hupdated, -⟩ := hread
  simp only [decode?, ofMessage, texts?_storedTexts, Cell.word?_ofWord, hexpired, hscheduled,
    hcreated, hupdated]
  rfl

theorem decode?_ofMessage (h : m.HasFourDigitYears) : (ofMessage m).decode? = some m :=
  decode?_ofMessage_of_isRepresentable fun t ht => (h t ht).isRepresentable

theorem decode?_eq_some {r : MessageRow} (h : r.decode? = some m) :
    m.id = r.id ∧ m.queueId = r.queueId ∧ m.label = r.label ∧ m.body = r.body ∧
      r.deliveryAttempts = .ofWord m.deliveryAttempts := by
  unfold decode? at h
  simp only [Option.bind_eq_bind, Option.bind_eq_some_iff, Option.pure_def] at h
  obtain ⟨attributes, -, attempts, hattempts, expiredAt, -, scheduledAt, -, createdAt, -,
    updatedAt, -, hm⟩ := h
  cases hm
  exact ⟨rfl, rfl, rfl, rfl, Cell.eq_of_word? hattempts⟩

theorem read?_expiredAt {r : MessageRow} (h : r.decode? = some m) :
    Instant.read? r.expiredAt = some m.expiredAt := by
  unfold decode? at h
  simp only [Option.bind_eq_bind, Option.bind_eq_some_iff, Option.pure_def] at h
  obtain ⟨_, -, _, -, _, hexpired, _, -, _, -, _, -, hm⟩ := h
  cases hm
  exact hexpired

/-- The condition for a lease, which compares texts, is that the message is visible. -/
theorem isVisible_iff {now : Instant} (hscheduled : m.scheduledAt.HasFourDigitYear)
    (hexpired : m.expiredAt.HasFourDigitYear) (hnow : now.HasFourDigitYear) :
    (ofMessage m).isVisible now = true ↔ m.IsVisible now := by
  rw [isVisible, Bool.and_eq_true]
  exact and_congr (Instant.le_stored_iff hscheduled hnow) (Instant.lt_stored_iff hnow hexpired)

theorem isExpired_iff {now : Instant} (hexpired : m.expiredAt.HasFourDigitYear)
    (hnow : now.HasFourDigitYear) : (ofMessage m).isExpired now = true ↔ m.IsExpired now :=
  Instant.le_stored_iff hexpired hnow

theorem isVisible_ofMessage (h : m.HasFourDigitYears) {now : Instant}
    (hnow : now.HasFourDigitYear) : (ofMessage m).isVisible now = decide (m.IsVisible now) := by
  rw [Bool.eq_iff_iff, decide_eq_true_iff]
  exact isVisible_iff h.scheduledAt h.expiredAt hnow

theorem isExpired_ofMessage (h : m.HasFourDigitYears) {now : Instant}
    (hnow : now.HasFourDigitYear) : (ofMessage m).isExpired now = decide (m.IsExpired now) := by
  rw [Bool.eq_iff_iff, decide_eq_true_iff]
  exact isExpired_iff h.expiredAt hnow

end MessageRow

end Store

end MessageBroker

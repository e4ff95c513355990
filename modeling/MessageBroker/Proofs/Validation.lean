import Mathlib
import MessageBroker.Error
import MessageBroker.Message
import MessageBroker.Queue
import MessageBroker.Subscription
import MessageBroker.Topic

/-! # Valid entities

Checks find no violation if and only if all of them pass (`toResult_ofChecks_eq_ok_iff`), and what
they answer otherwise is that validation failed. So what a valid queue, message, topic or
subscription is can be said without its checks (`Queue.validate_eq_ok_iff` and its like). -/

namespace MessageBroker

/-! ### Checks -/

theorem Check.violation?_text_eq_none_iff {field value : String} :
    (Check.text field value).violation? = none ↔ value ≠ "" := by
  rw [violation?]
  split_ifs with h <;> simp [h]

theorem Check.violation?_nonzero_eq_none_iff {field : String} {value : UInt32} :
    (Check.nonzero field value).violation? = none ↔ value ≠ 0 := by
  rw [violation?]
  split_ifs with h <;> simp [h]

theorem isValidId_empty : isValidId "" = false := by decide

theorem Check.violation?_id_eq_none_iff {field value : String} :
    (Check.id field value).violation? = none ↔ isValidId value = true := by
  rw [violation?]
  split_ifs with hempty hvalid
  · simp [hempty, isValidId_empty]
  · simp [hvalid]
  · simp [hvalid]

/-! ### Errors -/

namespace ValidationErrors

theorem isEmpty_insertNew (d : Dict Violation) (field : String) (v : Violation) :
    (d.insertNew field v).isEmpty = false := by
  by_contra h
  have hempty : (d.insertNew field v).entries = [] := by
    simpa [Dict.isEmpty] using h
  have hget := Dict.get?_insertNew d field field v
  rw [Dict.get?, hempty] at hget
  rcases hd : d.get? field with _ | w <;> simp [hd, Dict.lookup] at hget

theorem isEmpty_add {e : ValidationErrors} {c : Check} :
    (e.add c).isEmpty = true ↔ e.isEmpty = true ∧ c.violation? = .none := by
  unfold add
  rcases hc : c.violation? with _ | v
  · simp
  · simp [isEmpty, isEmpty_insertNew]

theorem isEmpty_foldl_add {e : ValidationErrors} {checks : List Check} :
    (checks.foldl add e).isEmpty = true ↔
      e.isEmpty = true ∧ ∀ c ∈ checks, c.violation? = .none := by
  induction checks generalizing e with
  | nil => simp
  | cons c checks ih => rw [List.foldl_cons, ih, isEmpty_add, List.forall_mem_cons, and_assoc]

theorem isEmpty_ofChecks {checks : List Check} :
    (ofChecks checks).isEmpty = true ↔ ∀ c ∈ checks, c.violation? = .none := by
  have hnone : none.isEmpty = true := rfl
  rw [ofChecks, isEmpty_foldl_add, and_iff_right hnone]

theorem toResult_eq_ok_iff {e : ValidationErrors} : e.toResult = .ok () ↔ e.isEmpty = true := by
  rw [toResult]
  split_ifs with h <;> simp [h]

/-- **Validation succeeds if and only if every check passes.** -/
theorem toResult_ofChecks_eq_ok_iff {checks : List Check} :
    (ofChecks checks).toResult = .ok () ↔ ∀ c ∈ checks, c.violation? = .none :=
  toResult_eq_ok_iff.trans isEmpty_ofChecks

theorem exists_of_toResult_eq_error {e : ValidationErrors} {error : Error}
    (h : e.toResult = .error error) : ∃ errors, error = .validationFailed errors := by
  unfold toResult at h
  split_ifs at h
  exact ⟨e, (Except.error.inj h).symm⟩

end ValidationErrors

/-! ### Entities -/

theorem Queue.validate_eq_ok_iff {q : Queue} : q.validate = .ok () ↔
    isValidId q.id = true ∧ q.ackDeadlineSeconds ≠ 0 ∧ q.messageRetentionSeconds ≠ 0 := by
  rw [validate, ValidationErrors.toResult_ofChecks_eq_ok_iff, checks]
  simp [Check.violation?_id_eq_none_iff, Check.violation?_nonzero_eq_none_iff]

theorem Message.validate_eq_ok_iff {m : Message} : m.validate = .ok () ↔ m.body ≠ "" := by
  rw [validate, ValidationErrors.toResult_ofChecks_eq_ok_iff, checks]
  simp [Check.violation?_text_eq_none_iff]

theorem Topic.validate_eq_ok_iff {t : Topic} : t.validate = .ok () ↔ isValidId t.id = true := by
  rw [validate, ValidationErrors.toResult_ofChecks_eq_ok_iff, checks]
  simp [Check.violation?_id_eq_none_iff]

theorem Subscription.validate_eq_ok_iff {s : Subscription} : s.validate = .ok () ↔
    isValidId s.id = true ∧ isValidId s.topicId = true ∧ isValidId s.queueId = true := by
  rw [validate, ValidationErrors.toResult_ofChecks_eq_ok_iff, checks]
  simp [Check.violation?_id_eq_none_iff]

end MessageBroker

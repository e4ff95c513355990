import MessageBroker.Proofs.Dict
import MessageBroker.Proofs.Validation

/-! # The first failure of every field

The errors of a list of checks have at a field what the first failing check on it found
(`get?_ofChecks`). So they do not depend on how checks on different fields are interleaved
(`ofChecks_exchange`), and their wording lists the failing fields in ascending order. The checks of
an entity are on fields of their own, so each of its faults is reported (`reports_ofChecks`). -/

namespace MessageBroker

/-! ### Identifiers -/

/-- The characters of identifiers. -/
def idChars : List Char :=
  "ABCDEFGHIJKLMNOPQRSTUVWXYZabcdefghijklmnopqrstuvwxyz0123456789._-".toList

theorem toNat_lt_of_mem_idChars {c : Char} (h : c ∈ idChars) : c.toNat < 128 := by
  have hall : idChars.all (fun c => c.toNat < 128) = true := by decide +kernel
  exact of_decide_eq_true (List.all_eq_true.mp hall c h)

theorem toNat_lt_of_isIdChar {c : Char} (h : isIdChar c = true) : c.toNat < 128 := by
  by_contra hc
  have hle {d : Char} (hd : d.toNat < 128) : ¬c ≤ d := fun hcd => hc ((show c.toNat ≤ d.toNat
    from hcd).trans_lt hd)
  have hne {d : Char} (hd : d.toNat < 128) : c ≠ d := fun he => hc (he ▸ hd)
  simp [isIdChar, hle (show 'Z'.toNat < 128 by decide), hle (show 'z'.toNat < 128 by decide),
    hle (show '9'.toNat < 128 by decide), hne (show '.'.toNat < 128 by decide),
    hne (show '_'.toNat < 128 by decide), hne (show '-'.toNat < 128 by decide)] at h

theorem isIdChar_iff {c : Char} : isIdChar c = true ↔ c ∈ idChars := by
  -- the characters of ASCII are compared one by one; no other is a character of identifiers
  have hascii : ∀ n < 128, isIdChar (Char.ofNat n) = idChars.contains (Char.ofNat n) := by
    decide +kernel
  by_cases hc : c.toNat < 128
  · have hcase := hascii c.toNat hc
    rw [Char.ofNat_toNat] at hcase
    rw [hcase, List.contains_iff_mem]
  · exact iff_of_false (fun h => hc (toNat_lt_of_isIdChar h))
      fun h => hc (toNat_lt_of_mem_idChars h)

theorem isValidId_iff {value : String} :
    isValidId value = true ↔ value ≠ "" ∧ ∀ c ∈ value.toList, c ∈ idChars := by
  simp [isValidId, isIdChar_iff]

/-- What is wrong with a text as an identifier. -/
def IsIdFault (value message : String) : Prop :=
  (value = "" ∧ message = "cannot be blank") ∨
    (value ≠ "" ∧ (∃ c ∈ value.toList, c ∉ idChars) ∧ message = "must be in a valid format")

/-! ### Failures of a check -/

namespace Check

/-- The check fails with this wording. -/
def FailsWith (message : String) : Check → Prop
  | .text _ value => value = "" ∧ message = "cannot be blank"
  | .nonzero _ value => value = 0 ∧ message = "cannot be blank"
  | .id _ value => IsIdFault value message

/-- The check does not fail. -/
def Passes (c : Check) : Prop := ∀ message, ¬c.FailsWith message

theorem exists_failsWith {c : Check} (h : ¬c.Passes) : ∃ message, c.FailsWith message :=
  not_forall_not.mp h

theorem violation?_map_message_iff {c : Check} {message : String} :
    c.violation?.map Violation.message = some message ↔ c.FailsWith message := by
  cases c with
  | text field value =>
    rw [violation?, FailsWith]
    split_ifs with h <;> simp [h, Violation.message, eq_comm]
  | nonzero field value =>
    rw [violation?, FailsWith]
    split_ifs with h <;> simp [h, Violation.message, eq_comm]
  | id field value =>
    rw [violation?, FailsWith, IsIdFault]
    split_ifs with hempty hvalid
    · simp [hempty, Violation.message, eq_comm]
    · refine iff_of_false (by simp) ?_
      rintro (⟨h, -⟩ | ⟨-, ⟨c, hc, hbad⟩, -⟩)
      · exact hempty h
      · exact hbad ((isValidId_iff.mp hvalid).2 c hc)
    · have hbad : ∃ c ∈ value.toList, c ∉ idChars := by
        by_contra hall
        push Not at hall
        exact hvalid (isValidId_iff.mpr ⟨hempty, hall⟩)
      simp [hempty, hbad, Violation.message, eq_comm]

theorem violation?_eq_none_iff {c : Check} : c.violation? = none ↔ c.Passes := by
  simp only [Passes, ← violation?_map_message_iff]
  rcases c.violation? with _ | v <;> simp

/-- How a check fails on a field, if it is about the field and fails. -/
def violationOn? (field : String) (c : Check) : Option Violation :=
  if c.field = field then c.violation? else none

theorem violationOn?_eq_some_iff {c : Check} {field : String} {v : Violation} :
    c.violationOn? field = some v ↔ c.field = field ∧ c.violation? = some v := by
  rw [violationOn?]
  split_ifs with h <;> simp [h]

theorem violationOn?_eq_none_iff {c : Check} {field : String} :
    c.violationOn? field = none ↔ (c.field = field → c.Passes) := by
  rw [violationOn?]
  split_ifs with h <;> simp [h, violation?_eq_none_iff]

end Check

/-! ### The errors of a list of checks -/

namespace ValidationErrors

theorem get?_add (e : ValidationErrors) (c : Check) (field : String) :
    (e.add c).get? field = (e.get? field).or (c.violationOn? field) := by
  unfold add Check.violationOn? get?
  rcases c.violation? with _ | v
  · simp
  · rw [Dict.get?_insertNew]
    split_ifs with hfield hc hc
    · rw [hfield, Option.or_some]
    · exact absurd hfield.symm hc
    · exact absurd hc.symm hfield
    · rw [Option.or_none]

theorem get?_foldl_add (e : ValidationErrors) (checks : List Check) (field : String) :
    (checks.foldl add e).get? field =
      (e.get? field).or (checks.findSome? (Check.violationOn? field)) := by
  induction checks generalizing e with
  | nil => simp
  | cons c checks ih =>
    have hfirst : (c :: checks).findSome? (Check.violationOn? field) =
        (c.violationOn? field).or (checks.findSome? (Check.violationOn? field)) := by
      rw [List.findSome?_cons]
      rcases c.violationOn? field with _ | v <;> simp
    rw [List.foldl_cons, ih, get?_add, hfirst, Option.or_assoc]

theorem get?_ofChecks (checks : List Check) (field : String) :
    (ofChecks checks).get? field = checks.findSome? (Check.violationOn? field) := by
  rw [ofChecks, get?_foldl_add]
  rfl

theorem get?_ofChecks_eq_none_iff {checks : List Check} {field : String} :
    (ofChecks checks).get? field = .none ↔ ∀ c ∈ checks, c.field = field → c.Passes := by
  rw [get?_ofChecks, List.findSome?_eq_none_iff]
  simp only [Check.violationOn?_eq_none_iff]

theorem isEmpty_ofChecks_iff {checks : List Check} :
    (ofChecks checks).isEmpty = true ↔ ∀ c ∈ checks, c.Passes := by
  simp only [isEmpty_ofChecks, Check.violation?_eq_none_iff]

theorem toResult_ofChecks_eq_error {checks : List Check} (h : ¬∀ c ∈ checks, c.Passes) :
    (ofChecks checks).toResult = .error (.validationFailed (ofChecks checks)) := by
  rw [toResult, if_neg fun hempty => h (isEmpty_ofChecks_iff.mp hempty)]

theorem ext_get? {e e' : ValidationErrors} (h : ∀ field, e.get? field = e'.get? field) :
    e = e' := by
  cases e with | mk d =>
  cases e' with | mk d' =>
  exact congrArg mk (Dict.ext_get? h)

theorem ofChecks_exchange (before : List Check) {a b : Check} (after : List Check)
    (h : a.field ≠ b.field) :
    ofChecks (before ++ a :: b :: after) = ofChecks (before ++ b :: a :: after) := by
  refine ext_get? fun field => ?_
  -- a field that is looked at is that of one of the two checks at most
  have hone : a.violationOn? field = .none ∨ b.violationOn? field = .none := by
    by_cases ha : a.field = field
    · exact Or.inr (if_neg fun hb => h (ha.trans hb.symm))
    · exact Or.inl (if_neg ha)
  simp only [get?_ofChecks, List.findSome?_append, List.findSome?_cons]
  rcases hone with hone | hone
  · rw [hone]
  · rw [hone]

end ValidationErrors

/-- Of the checks on a field the first that fails fails with this wording. -/
def IsFirstFailure (checks : List Check) (field message : String) : Prop :=
  ∃ before c after, checks = before ++ c :: after ∧ c.field = field ∧ c.FailsWith message ∧
    ∀ b ∈ before, b.field = field → b.Passes

namespace ValidationErrors

theorem get?_ofChecks_map_message_iff {checks : List Check} {field message : String} :
    ((ofChecks checks).get? field).map Violation.message = some message ↔
      IsFirstFailure checks field message := by
  simp only [get?_ofChecks, Option.map_eq_some_iff, List.findSome?_eq_some_iff,
    Check.violationOn?_eq_some_iff, Check.violationOn?_eq_none_iff, IsFirstFailure,
    ← Check.violation?_map_message_iff]
  constructor
  · rintro ⟨v, ⟨before, c, after, hsplit, ⟨hfield, hc⟩, hbefore⟩, hmessage⟩
    exact ⟨before, c, after, hsplit, hfield, ⟨v, hc, hmessage⟩, hbefore⟩
  · rintro ⟨before, c, after, hsplit, hfield, ⟨v, hc, hmessage⟩, hbefore⟩
    exact ⟨v, ⟨before, c, after, hsplit, ⟨hfield, hc⟩, hbefore⟩, hmessage⟩

/-- The wording of errors lists what they have, in ascending order of the fields. -/
theorem message_eq (e : ValidationErrors) : ∃ failures : List (String × String),
    failures.Pairwise (fun a b => Text.lt a.1 b.1 = true) ∧
    (∀ field message,
      (field, message) ∈ failures ↔ (e.get? field).map Violation.message = some message) ∧
    e.message = "; ".intercalate (failures.map fun f => f.1 ++ ": " ++ f.2) := by
  refine ⟨e.violations.entries.map fun f => (f.1, f.2.message), ?_, fun field message => ?_, ?_⟩
  · exact List.pairwise_map.mpr e.violations.sorted
  · rw [List.mem_map, Option.map_eq_some_iff]
    constructor
    · rintro ⟨⟨field, v⟩, hmem, he⟩
      cases he
      exact ⟨v, Dict.mem_entries_iff.mp hmem, rfl⟩
    · rintro ⟨v, hv, rfl⟩
      exact ⟨(field, v), Dict.mem_entries_iff.mpr hv, rfl⟩
  · rw [message, List.map_map]
    rfl

end ValidationErrors

/-! ### Entities -/

/-- A validation passes if there are no faults, and otherwise fails with errors that have at every
field the wording of its fault, and nothing at the other fields. -/
def Reports (answer : Except Error Unit) (IsFault : String → String → Prop) : Prop :=
  (answer = .ok () ∧ ∀ field message, ¬IsFault field message) ∨
    ∃ errors, answer = .error (.validationFailed errors) ∧
      (∃ field message, IsFault field message) ∧
      ∀ field message,
        (errors.get? field).map Violation.message = some message ↔ IsFault field message

/-- Of checks on fields of their own every failure is the first. -/
theorem isFirstFailure_iff {checks : List Check} (h : (checks.map Check.field).Nodup)
    {field message : String} : IsFirstFailure checks field message ↔
      ∃ c ∈ checks, c.field = field ∧ c.FailsWith message := by
  constructor
  · rintro ⟨before, c, after, rfl, hfield, hc, -⟩
    exact ⟨c, by simp, hfield, hc⟩
  · rintro ⟨c, hmem, hfield, hc⟩
    obtain ⟨before, after, rfl⟩ := List.append_of_mem hmem
    refine ⟨before, c, after, rfl, hfield, hc, fun b hb he => ?_⟩
    rw [List.map_append, List.map_cons] at h
    have hne := (List.nodup_append.mp h).2.2 b.field (List.mem_map_of_mem hb) c.field (by simp)
    exact absurd (he.trans hfield.symm) hne

theorem reports_ofChecks {checks : List Check} (h : (checks.map Check.field).Nodup)
    {IsFault : String → String → Prop}
    (hfaults : ∀ field message,
      (∃ c ∈ checks, c.field = field ∧ c.FailsWith message) ↔ IsFault field message) :
    Reports (ValidationErrors.ofChecks checks).toResult IsFault := by
  by_cases hpass : ∀ c ∈ checks, c.Passes
  · have hempty := ValidationErrors.isEmpty_ofChecks_iff.mpr hpass
    refine Or.inl ⟨ValidationErrors.toResult_eq_ok_iff.mpr hempty, fun field message hfault => ?_⟩
    obtain ⟨c, hc, -, hfails⟩ := (hfaults field message).mpr hfault
    exact hpass c hc message hfails
  · refine Or.inr ⟨_, ValidationErrors.toResult_ofChecks_eq_error hpass, ?_, fun _ _ => ?_⟩
    · push Not at hpass
      obtain ⟨c, hc, hfails⟩ := hpass
      obtain ⟨message, hmessage⟩ := Check.exists_failsWith hfails
      exact ⟨c.field, message, (hfaults _ _).mp ⟨c, hc, rfl, hmessage⟩⟩
    · exact ValidationErrors.get?_ofChecks_map_message_iff.trans
        ((isFirstFailure_iff h).trans (hfaults _ _))

/-- The wording of what is wrong with a field of a queue. -/
def Queue.IsFault (q : Queue) (field message : String) : Prop :=
  (field = "id" ∧ IsIdFault q.id message) ∨
    (field = "ack_deadline_seconds" ∧ q.ackDeadlineSeconds = 0 ∧ message = "cannot be blank") ∨
    (field = "message_retention_seconds" ∧ q.messageRetentionSeconds = 0 ∧
      message = "cannot be blank")

/-- The wording of what is wrong with a field of a subscription. -/
def Subscription.IsFault (s : Subscription) (field message : String) : Prop :=
  (field = "id" ∧ IsIdFault s.id message) ∨ (field = "topic_id" ∧ IsIdFault s.topicId message) ∨
    (field = "queue_id" ∧ IsIdFault s.queueId message)

/-- The wording of what is wrong with a field of a topic. -/
def Topic.IsFault (t : Topic) (field message : String) : Prop :=
  field = "id" ∧ IsIdFault t.id message

/-- The wording of what is wrong with a field of a message. -/
def Message.IsFault (m : Message) (field message : String) : Prop :=
  field = "body" ∧ m.body = "" ∧ message = "cannot be blank"

theorem Queue.reports_validate (q : Queue) : Reports q.validate q.IsFault := by
  refine reports_ofChecks (by simp [checks, Check.field]) fun field message => ?_
  simp [checks, IsFault, Check.field, Check.FailsWith, @eq_comm _ field]

theorem Subscription.reports_validate (s : Subscription) : Reports s.validate s.IsFault := by
  refine reports_ofChecks (by simp [checks, Check.field]) fun field message => ?_
  simp [checks, IsFault, Check.field, Check.FailsWith, @eq_comm _ field]

theorem Topic.reports_validate (t : Topic) : Reports t.validate t.IsFault := by
  refine reports_ofChecks (by simp [checks]) fun field message => ?_
  simp [checks, IsFault, Check.field, Check.FailsWith, @eq_comm _ field]

theorem Message.reports_validate (m : Message) : Reports m.validate m.IsFault := by
  refine reports_ofChecks (by simp [checks]) fun field message => ?_
  simp [checks, IsFault, Check.field, Check.FailsWith, @eq_comm _ field]

open ValidationErrors in
/-- **Validation reports exactly the first failure of every field.** An identifier fails by any
character that is not one of identifiers, such as a line break or one that is not ASCII. -/
theorem first_failures_are_reported :
    (∀ checks : List Check,
      (∀ field message, ((ofChecks checks).get? field).map Violation.message = some message ↔
        IsFirstFailure checks field message) ∧
      (∀ field, (ofChecks checks).get? field = .none ↔
        ∀ c ∈ checks, c.field = field → c.Passes) ∧
      ((ofChecks checks).isEmpty = true ↔ ∀ c ∈ checks, c.Passes) ∧
      ((ofChecks checks).toResult = .ok () ↔ ∀ c ∈ checks, c.Passes) ∧
      ((¬∀ c ∈ checks, c.Passes) →
        (ofChecks checks).toResult = .error (.validationFailed (ofChecks checks))) ∧
      ∃ failures : List (String × String),
        failures.Pairwise (fun a b => Text.lt a.1 b.1 = true) ∧
        (∀ field message,
          (field, message) ∈ failures ↔ IsFirstFailure checks field message) ∧
        (ofChecks checks).message =
          "; ".intercalate (failures.map fun f => f.1 ++ ": " ++ f.2)) ∧
    (∀ before a b after, a.field ≠ b.field →
      ofChecks (before ++ a :: b :: after) = ofChecks (before ++ b :: a :: after)) ∧
    (∀ field value, ∀ c ∈ value.toList, c = '\n' ∨ 128 ≤ c.toNat →
      (Check.id field value).violation? = some .invalidFormat) ∧
    (∀ q : Queue, Reports q.validate q.IsFault) ∧
    (∀ s : Subscription, Reports s.validate s.IsFault) ∧
    (∀ t : Topic, Reports t.validate t.IsFault) ∧
    ∀ m : Message, Reports m.validate m.IsFault := by
  refine ⟨fun checks => ⟨fun _ _ => get?_ofChecks_map_message_iff,
    fun _ => get?_ofChecks_eq_none_iff, isEmpty_ofChecks_iff,
    toResult_eq_ok_iff.trans isEmpty_ofChecks_iff, toResult_ofChecks_eq_error, ?_⟩,
    fun before _ _ after h => ofChecks_exchange before after h, ?_, Queue.reports_validate,
    Subscription.reports_validate, Topic.reports_validate, Message.reports_validate⟩
  · obtain ⟨failures, hsorted, hfailures, hmessage⟩ := (ofChecks checks).message_eq
    exact ⟨failures, hsorted, fun field message => (hfailures field message).trans
      get?_ofChecks_map_message_iff, hmessage⟩
  · intro field value c hc hother
    have hbad : c ∉ idChars := by
      rintro hmem
      rcases hother with rfl | hother
      · exact absurd hmem (by decide +kernel)
      · exact absurd (toNat_lt_of_mem_idChars hmem) (Nat.not_lt.mpr hother)
    have hempty : value ≠ "" := fun h => by simp [h] at hc
    have hinvalid : ¬isValidId value = true := fun h => hbad ((isValidId_iff.mp h).2 c hc)
    rw [Check.violation?, if_neg hempty, if_neg hinvalid]

/-- Of two failing checks on a field the first is reported, also after an exchange with a check on
another field. -/
theorem brokenLine_reported :
    (Check.nonzero "b" 0).field ≠ (Check.id "a" "x\n").field ∧
    ValidationErrors.ofChecks ([] ++ .nonzero "b" 0 :: .id "a" "x\n" :: [.text "a" ""]) =
      ValidationErrors.ofChecks ([] ++ .id "a" "x\n" :: .nonzero "b" 0 :: [.text "a" ""]) ∧
    (ValidationErrors.ofChecks [.nonzero "b" 0, .id "a" "x\n", .text "a" ""]).message =
      "a: must be in a valid format; b: cannot be blank" := by
  have hne : (Check.nonzero "b" 0).field ≠ (Check.id "a" "x\n").field := by decide
  exact ⟨hne, first_failures_are_reported.2.1 [] _ _ _ hne, by decide +kernel⟩

end MessageBroker

import Mathlib.Data.List.Forall2
import MessageBroker.Http.Response
import MessageBroker.Proofs.Instant.RoundTrip

/-! # What answers show

The JSON values of answers are described by the forms that their parts have: `Shows` says which
members a value has that shows a result, and `Reports` which status and which members an answer has
that reports an error. An object has its members in any order. The forms know the fields of what is
shown, and not how it is written: `shows_resultJson` and `reports_ofError` say that what is written
has them. -/

namespace MessageBroker

namespace Json

/-! ### Forms of values -/

/-- The value is a text. -/
def IsText (s : String) (v : Json) : Prop := v = .text s

/-- The value is a number. -/
def IsNumber (n : Nat) (v : Json) : Prop := v = .number n

/-- The value is the text of an instant: as in storage, but with `Z` for the offset. It is read back
as the instant. -/
def IsInstant (t : Instant) (v : Json) : Prop :=
  ∃ digits : List Char, v = .text (String.ofList (digits ++ ['Z'])) ∧
    t.stored = String.ofList (digits ++ ['+', '0', '0', ':', '0', '0']) ∧
    (t.IsRepresentable → Instant.read? (String.ofList (digits ++ ['Z'])) = some t)

/-- The value is an object with exactly the given members in any order, each of its given form. -/
def IsObject (members : List (String × (Json → Prop))) (v : Json) : Prop :=
  ∃ l l' : List (String × Json), v = .object l ∧ l.Perm l' ∧
    List.Forall₂ (fun m e => e.1 = m.1 ∧ m.2 e.2) members l'

section Forms

variable {α : Type} (form : α → Json → Prop)

/-- The value is that of something, or null. -/
def IsOptional : Option α → Json → Prop
  | none, v => v = .null
  | some a, v => form a v

/-- The value is an array with an item for each element, in order. -/
def IsArray (as : List α) (v : Json) : Prop := ∃ l, v = .array l ∧ List.Forall₂ form as l

/-- The value is an object with a member for each entry. -/
def IsDict (d : Dict α) : Json → Prop := IsObject (d.entries.map fun e => (e.1, form e.2))

end Forms

/-! ### What is written has a form -/

theorem isText_text (s : String) : IsText s (.text s) := rfl

theorem isInstant_ofInstant (t : Instant) : IsInstant t (.ofInstant t) :=
  ⟨t.localText, rfl, rfl, Instant.read?_shown⟩

theorem isObject_object {members : List (String × (Json → Prop))} {l : List (String × Json)}
    (h : List.Forall₂ (fun m e => e.1 = m.1 ∧ m.2 e.2) members l) : IsObject members (.object l) :=
  ⟨l, l, rfl, .refl l, h⟩

section Forms

variable {α : Type} {form : α → Json → Prop} {f : α → Json}

theorem isArray_map (h : ∀ a, form a (f a)) (as : List α) : IsArray form as (.array (as.map f)) :=
  ⟨as.map f, rfl, List.forall₂_map_right_iff.mpr (List.forall₂_same.mpr fun a _ => h a)⟩

theorem isDict_ofDict (h : ∀ a, form a (f a)) (d : Dict α) : IsDict form d (.ofDict f d) := by
  refine isObject_object (List.forall₂_map_left_iff.mpr (List.forall₂_map_right_iff.mpr ?_))
  exact List.forall₂_same.mpr fun e _ => ⟨rfl, h e.2⟩

end Forms

theorem isArray_texts (l : List String) : IsArray IsText l (.array (l.map .text)) :=
  isArray_map isText_text l

theorem isDict_ofTexts (d : Dict String) : IsDict IsText d (.ofDict .text d) :=
  isDict_ofDict isText_text d

theorem isOptional_ofOptionalText (o : Option String) :
    IsOptional IsText o (.ofOptionalText o) := by
  cases o <;> rfl

end Json

namespace Http

open Json

/-! ### Results -/

/-- The value shows a queue. -/
def ShowsQueue (q : Queue) : Json → Prop :=
  IsObject [("id", IsText q.id),
    ("ack_deadline_seconds", IsNumber q.ackDeadlineSeconds.toNat),
    ("message_retention_seconds", IsNumber q.messageRetentionSeconds.toNat),
    ("delivery_delay_seconds", IsNumber q.deliveryDelaySeconds.toNat),
    ("created_at", IsInstant q.createdAt), ("updated_at", IsInstant q.updatedAt)]

/-- The value shows the backlog of a queue. -/
def ShowsStats (s : QueueStats) : Json → Prop :=
  IsObject [("num_undelivered_messages", IsNumber s.numUndeliveredMessages),
    ("oldest_unacked_message_age_seconds", IsNumber s.oldestUnackedMessageAgeSeconds)]

/-- The value shows a message, but not when it becomes visible and expires. -/
def ShowsMessage (m : Message) : Json → Prop :=
  IsObject [("id", IsText m.id), ("queue_id", IsText m.queueId),
    ("label", IsOptional IsText m.label), ("body", IsText m.body),
    ("attributes", IsDict IsText m.attributes),
    ("delivery_attempts", IsNumber m.deliveryAttempts.toNat), ("created_at", IsInstant m.createdAt)]

/-- The value shows a topic. -/
def ShowsTopic (t : Topic) : Json → Prop :=
  IsObject [("id", IsText t.id), ("created_at", IsInstant t.createdAt)]

/-- The value shows a subscription. -/
def ShowsSubscription (s : Subscription) : Json → Prop :=
  IsObject [("id", IsText s.id), ("topic_id", IsText s.topicId), ("queue_id", IsText s.queueId),
    ("message_filters", IsDict (IsArray IsText) s.messageFilters),
    ("created_at", IsInstant s.createdAt)]

/-- The value shows a result. -/
def Shows : Store.Result → Json → Prop
  | .done => (· = .null)
  | .count n => IsNumber n
  | .health success => IsObject [("success", (· = .bool success))]
  | .queue q => ShowsQueue q
  | .queues qs => IsArray ShowsQueue qs
  | .stats s => ShowsStats s
  | .message m => ShowsMessage m
  | .messages ms => IsArray ShowsMessage ms
  | .topic t => ShowsTopic t
  | .topics ts => IsArray ShowsTopic ts
  | .subscription s => ShowsSubscription s
  | .subscriptions ss => IsArray ShowsSubscription ss

/-- The value shows a part of a listing, with its place. -/
def ShowsPage (offset limit : UInt32) (result : Store.Result) : Json → Prop :=
  IsObject [("data", Shows result), ("offset", IsNumber offset.toNat),
    ("limit", IsNumber limit.toNat)]

theorem showsQueue (q : Queue) : ShowsQueue q q.toJson := by
  refine isObject_object ?_
  simp [IsText, IsNumber, ofWord, isInstant_ofInstant]

theorem showsStats (s : QueueStats) : ShowsStats s s.toJson := by
  refine isObject_object ?_
  simp [IsNumber, ofNat]

theorem showsMessage (m : Message) : ShowsMessage m m.toJson := by
  have hattributes := isDict_ofTexts m.attributes
  refine isObject_object ?_
  simp [IsText, IsNumber, ofWord, isInstant_ofInstant, isOptional_ofOptionalText, hattributes]

theorem showsTopic (t : Topic) : ShowsTopic t t.toJson := by
  refine isObject_object ?_
  simp [IsText, isInstant_ofInstant]

theorem showsSubscription (s : Subscription) : ShowsSubscription s s.toJson := by
  have hfilters := isDict_ofDict isArray_texts s.messageFilters
  refine isObject_object ?_
  simp [IsText, isInstant_ofInstant, hfilters]

/-- **What is written of a result shows it.** -/
theorem shows_resultJson (result : Store.Result) : Shows result (Response.resultJson result) := by
  cases result with
  | done | count => rfl
  | health success => exact isObject_object (.cons ⟨rfl, rfl⟩ .nil)
  | queue q => exact showsQueue q
  | queues qs => exact isArray_map showsQueue qs
  | stats s => exact showsStats s
  | message m => exact showsMessage m
  | messages ms => exact isArray_map showsMessage ms
  | topic t => exact showsTopic t
  | topics ts => exact isArray_map showsTopic ts
  | subscription s => exact showsSubscription s
  | subscriptions ss => exact isArray_map showsSubscription ss

theorem showsPage_listing (offset limit : UInt32) (result : Store.Result) :
    ShowsPage offset limit result
      (Response.listing offset limit (Response.resultJson result)) := by
  refine isObject_object ?_
  simp [IsNumber, ofWord, shows_resultJson]

/-! ### Errors -/

/-- The value is the wording of a violation. -/
def IsViolation : Violation → Json → Prop
  | .blank => IsText "cannot be blank"
  | .invalidFormat => IsText "must be in a valid format"

/-- What an answer tells of an error: the status, the code, the message, and the form of details. -/
inductive Tells : Error → Nat → Nat → String → Option (Json → Prop) → Prop
  | unknown : Tells .unknown 500 1 "internal server error" none
  | migration : Tells .migration 500 1 "internal server error" none
  | malformedRequest (message : String) : Tells (.malformedRequest message) 400 2
    "malformed request body" (some (IsText message))
  | validationFailed (errors : ValidationErrors) : Tells (.validationFailed errors) 400 3
    "request validation failed" (some (IsDict IsViolation errors.violations))
  | queueExists (id : String) : Tells (.alreadyExists .queue id) 400 4 "queue already exists" none
  | queueNotFound (id : String) : Tells (.notFound .queue id) 404 5 "queue not found" none
  | messageNotFound (id : String) : Tells (.notFound .message id) 404 6 "message not found" none
  | topicExists (id : String) : Tells (.alreadyExists .topic id) 400 7 "topic already exists" none
  | topicNotFound (id : String) : Tells (.notFound .topic id) 404 8 "topic not found" none
  | subscriptionExists (id : String) : Tells (.alreadyExists .subscription id) 400 9
    "subscription already exists" none
  | subscriptionNotFound (id : String) : Tells (.notFound .subscription id) 404 10
    "subscription not found" none
  | messageExists (id : String) : Tells (.alreadyExists .message id) 400 11
    "message already exists" none
  | storageUnavailable : Tells .storageUnavailable 503 12 "storage unavailable" none

/-- An answer reports an error: with its status, and an object of its code, its message, and its
details if it has some. -/
def Reports (error : Error) (response : Response) : Prop :=
  ∃ status code message details v, Tells error status code message details ∧
    response = ⟨status, some v⟩ ∧
      IsObject ([("code", IsNumber code), ("message", IsText message)] ++
        (details.map fun form => ("details", form)).toList) v

theorem tells (error : Error) : ∃ details,
    Tells error error.status error.code error.publicMessage details ∧
      List.Forall₂ (fun m e => e.1 = m.1 ∧ m.2 e.2)
        (details.map fun form => ("details", form)).toList
        (error.details?.map fun d => ("details", d)).toList := by
  cases error with
  | unknown => exact ⟨none, .unknown, .nil⟩
  | migration => exact ⟨none, .migration, .nil⟩
  | storageUnavailable => exact ⟨none, .storageUnavailable, .nil⟩
  | malformedRequest message =>
    exact ⟨_, .malformedRequest message, .cons ⟨rfl, rfl⟩ .nil⟩
  | validationFailed errors =>
    have hwording (v : Violation) : IsViolation v (.text v.message) := by cases v <;> rfl
    have hviolations := isDict_ofDict hwording errors.violations
    exact ⟨_, .validationFailed errors, .cons ⟨rfl, hviolations⟩ .nil⟩
  | notFound entity id =>
    refine ⟨none, ?_, .nil⟩
    cases entity with
    | queue => exact .queueNotFound id
    | message => exact .messageNotFound id
    | topic => exact .topicNotFound id
    | subscription => exact .subscriptionNotFound id
  | alreadyExists entity id =>
    refine ⟨none, ?_, .nil⟩
    cases entity with
    | queue => exact .queueExists id
    | message => exact .messageExists id
    | topic => exact .topicExists id
    | subscription => exact .subscriptionExists id

/-- **What is answered to an error reports it.** -/
theorem reports_ofError (error : Error) : Reports error (Response.ofError error) := by
  obtain ⟨details, htells, hdetails⟩ := tells error
  refine ⟨_, _, _, _, _, htells, rfl, isObject_object ?_⟩
  exact .cons ⟨rfl, rfl⟩ (.cons ⟨rfl, rfl⟩ hdetails)

end Http

end MessageBroker

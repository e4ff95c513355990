import MessageBroker.Error
import MessageBroker.Store.Row

/-! # Rules

Conditions that a store checks whenever a row changes. A rejection refuses a change of one kind to
the rows of a table that hold a value in a column. If it has a text, the statement fails with it;
otherwise the row is passed over. Among the rejections that apply, the newest decides (`admits`). A
theft counts a further attempt for one message whenever another one is updated. -/

namespace MessageBroker.Store

/-- The tables of a store. -/
inductive Table
  | queues
  | messages
  | topics
  | subscriptions
  deriving DecidableEq

namespace Table

def all : List Table := [queues, messages, topics, subscriptions]

def name : Table → String
  | queues => "queues"
  | messages => "messages"
  | topics => "topics"
  | subscriptions => "subscriptions"

end Table

/-- The changes of a row. -/
inductive Event
  | insert
  | update
  | delete
  deriving DecidableEq

/-- A refusal of changes. -/
structure Rejection where
  table : Table
  event : Event
  column : String
  value : String
  /-- The text of the failure. Without one the row is passed over. -/
  message : Option String
  deriving DecidableEq

/-- An attempt counted for the victim whenever the message is updated. -/
structure Theft where
  id : String
  victim : String
  deriving DecidableEq

/-- The rules in force, each kind from the newest on. -/
structure Rules where
  rejections : List Rejection
  thefts : List Theft
  deriving DecidableEq

/-- No rules. -/
def Rules.none : Rules := ⟨[], []⟩

/-- The rules that remain when a table is removed. -/
def Rules.withoutTable (rules : Rules) (t : Table) : Rules :=
  ⟨rules.rejections.filter (·.table ≠ t), if t = .messages then [] else rules.thefts⟩

/-- A kind of rows, with what rules look at. -/
class Row (ρ : Type) where
  table : Table
  id : ρ → String
  /-- Whether a column holds a value. -/
  holds : ρ → String → String → Bool

instance : Row QueueRow := ⟨.queues, QueueRow.id, QueueRow.holds⟩
instance : Row MessageRow := ⟨.messages, MessageRow.id, MessageRow.holds⟩
instance : Row TopicRow := ⟨.topics, TopicRow.id, TopicRow.holds⟩
instance : Row SubscriptionRow := ⟨.subscriptions, SubscriptionRow.id, SubscriptionRow.holds⟩

/-- Whether a rejection refuses a change of a row. -/
def Rejection.applies {ρ : Type} [Row ρ] (j : Rejection) (event : Event) (r : ρ) : Bool :=
  j.table = Row.table ρ && j.event = event && Row.holds r j.column j.value

/-- Whether a change of a row takes place. -/
def Rules.admits {ρ : Type} [Row ρ] (rules : Rules) (event : Event) (r : ρ) :
    Except StorageFailure Bool :=
  match rules.rejections.find? (·.applies event r) with
  | .none => .ok true
  | some j =>
    match j.message with
    | .none => .ok false
    | some text => .error (.database false text)

/-! ### Changes of rows under rules -/

/-- Rows with one more, unless its identifier is taken. The number of rows added comes with them. -/
def insertRow {ρ : Type} [Row ρ] (rules : Rules) (r : ρ) (rows : List ρ) :
    Except StorageFailure (Nat × List ρ) := do
  if ← rules.admits .insert r then
    if rows.any fun other => Row.id other = Row.id r then
      throw (.database true ("UNIQUE constraint failed: " ++ (Row.table ρ).name ++ ".id"))
    else return (1, rows ++ [r])
  else return (0, rows)

/-- Rows with a change made to those selected. The number of rows changed comes with them. -/
def updateRows {ρ : Type} [Row ρ] (rules : Rules) (selected : ρ → Bool) (change : ρ → ρ) :
    List ρ → Except StorageFailure (Nat × List ρ)
  | [] => .ok (0, [])
  | r :: rest => do
    let admitted ← if selected r then rules.admits .update r else pure false
    let (n, rest) ← updateRows rules selected change rest
    if admitted then return (n + 1, change r :: rest) else return (n, r :: rest)

/-- Rows without those selected. The number of rows deleted comes with them. -/
def deleteRows {ρ : Type} [Row ρ] (rules : Rules) (selected : ρ → Bool) :
    List ρ → Except StorageFailure (Nat × List ρ)
  | [] => .ok (0, [])
  | r :: rest => do
    let admitted ← if selected r then rules.admits .delete r else pure false
    let (n, rest) ← deleteRows rules selected rest
    if admitted then return (n + 1, rest) else return (n, r :: rest)

/-- Messages after the thefts that an update of one sets off. A theft is an update itself, but does
not set itself off again, so each step has fewer thefts to choose from. -/
def stealFrom (rules : Rules) : Nat → List Theft → String → List MessageRow →
    Except StorageFailure (List MessageRow)
  | 0, _, _, rows => .ok rows
  | depth + 1, thefts, id, rows =>
    (thefts.filter (·.id = id)).foldlM (fun rows t => do
      let (n, rows) ← updateRows rules (·.id = t.victim)
        (fun r => { r with deliveryAttempts := r.deliveryAttempts.succ }) rows
      if n = 0 then return rows else stealFrom rules depth (thefts.erase t) t.victim rows) rows

/-- Messages with a change made to one, and the thefts that follow. -/
def updateMessageRow (rules : Rules) (id : String) (selected : MessageRow → Bool)
    (change : MessageRow → MessageRow) (rows : List MessageRow) :
    Except StorageFailure (Nat × List MessageRow) := do
  let (n, rows) ← updateRows rules (fun r => r.id = id && selected r) change rows
  if n = 0 then return (0, rows)
  else return (n, ← stealFrom rules rules.thefts.length rules.thefts id rows)

end MessageBroker.Store

import MessageBroker.Store.Schema

/-! # The store

Four tables of rows, in the order of their insertion, with the rules that changes are subject to. An
access to the store answers a result or an error together with the store as it is then. A statement
that fails leaves the store as it was (`statement`), and so does a transaction (`transaction`). -/

namespace MessageBroker

/-- The tables of a database, and whether they can be reached. -/
structure Store where
  queues : List Store.QueueRow
  messages : List Store.MessageRow
  topics : List Store.TopicRow
  subscriptions : List Store.SubscriptionRow
  indexes : List Store.Index
  rules : Store.Rules
  /-- The tables that do not exist. -/
  missing : List Store.Table
  /-- Whether connections to the store are refused. -/
  closed : Bool
  deriving DecidableEq

namespace Store

/-- The store with empty tables. -/
def empty : Store := ⟨[], [], [], [], Index.all, Rules.none, [], false⟩

instance : Inhabited Store := ⟨empty⟩

/-- A kind of rows that a store has a table of. -/
class TableRow (ρ : Type) extends Row ρ where
  rows : Store → List ρ
  withRows : Store → List ρ → Store

instance : TableRow QueueRow := ⟨Store.queues, fun s rows => { s with queues := rows }⟩
instance : TableRow MessageRow := ⟨Store.messages, fun s rows => { s with messages := rows }⟩
instance : TableRow TopicRow := ⟨Store.topics, fun s rows => { s with topics := rows }⟩
instance : TableRow SubscriptionRow :=
  ⟨Store.subscriptions, fun s rows => { s with subscriptions := rows }⟩

/-- The store without the rows of a table. -/
def cleared (s : Store) : Table → Store
  | .queues => { s with queues := [] }
  | .messages => { s with messages := [] }
  | .topics => { s with topics := [] }
  | .subscriptions => { s with subscriptions := [] }

/-- Why a table cannot be reached. -/
def failure? (s : Store) (t : Table) : Option StorageFailure :=
  if s.closed then some .poolClosed
  else if t ∈ s.missing then some (.database false ("no such table: " ++ t.name))
  else none

/-! ### Accesses -/

/-- A computation on the store. -/
abbrev Access (α : Type) : Type := ExceptT Error (StateM Store) α

/-- The answer of an access, and the store after it. -/
def Access.on {α : Type} (access : Access α) (s : Store) : Except Error α × Store := access s

/-- How the failure of a statement is reported: as one about a single record, or in general. -/
inductive Report
  | ofRecord (entity : Entity) (id : String)
  | plain

/-- The error that reports a failure. -/
def Report.error : Report → StorageFailure → Error
  | ofRecord entity id, f => Error.ofRecordFailure entity id f
  | plain, f => Error.ofFailure f

/-- A statement on the rows of a table, which changes all of them that it should, or none. -/
def statement {ρ : Type} [TableRow ρ] {α : Type} (report : Report)
    (run : Rules → List ρ → Except StorageFailure (α × List ρ)) : Access α := fun s =>
  match s.failure? (Row.table ρ) with
  | some f => (.error (report.error f), s)
  | none =>
    match run s.rules (TableRow.rows s) with
    | .error f => (.error (report.error f), s)
    | .ok (a, rows) => (.ok a, TableRow.withRows s rows)

/-- A statement that only reads. -/
def select {ρ : Type} [TableRow ρ] {α : Type} (report : Report)
    (query : List ρ → Except StorageFailure α) : Access α :=
  statement report fun _ rows => (query rows).map fun a => (a, rows)

/-- Nothing, if the store can be reached. -/
def connect : Access Unit := fun s =>
  (if s.closed then .error (Error.ofFailure .poolClosed) else .ok (), s)

/-- An access of which nothing remains if it fails. -/
def transaction {α : Type} (access : Access α) : Access α := fun s =>
  match connect s with
  | (.error e, _) => (.error e, s)
  | (.ok (), _) =>
    match access s with
    | (.error e, _) => (.error e, s)
    | (.ok a, s') => (.ok a, s')

/-! ### Reading rows -/

/-- A decoded row, or the failure of decoding it. -/
def decoded {α : Type} : Option α → Except StorageFailure α
  | some a => .ok a
  | none => .error .columnDecode

/-- The row with an identifier. -/
def rowOf {ρ : Type} [Row ρ] (id : String) (rows : List ρ) : Except StorageFailure ρ :=
  match rows.find? fun r => Row.id r = id with
  | some r => .ok r
  | none => .error .rowNotFound

/-- Rows in ascending order of identifiers. -/
def sortedById {ρ : Type} [Row ρ] (rows : List ρ) : List ρ :=
  rows.mergeSort fun a b => Text.le (Row.id a) (Row.id b)

/-- The part of a list that starts at an offset and has a limited length. -/
def page {α : Type} (offset limit : UInt32) (l : List α) : List α :=
  (l.drop offset.toNat).take limit.toNat

/-! ### Statements on single rows -/

/-- Fails with an error unless a row was affected. -/
def requireAffected (e : Error) (affected : Nat) : Access Unit :=
  if affected = 0 then throw e else pure ()

/-- A new row. -/
def insert {ρ : Type} [TableRow ρ] (entity : Entity) (r : ρ) : Access Unit := do
  let _ ← statement (.ofRecord entity (Row.id r)) fun rules rows => insertRow rules r rows

/-- The entity with an identifier. -/
def get {ρ : Type} [TableRow ρ] {α : Type} (entity : Entity) (decode? : ρ → Option α)
    (id : String) : Access α :=
  select (.ofRecord entity id) fun rows => do decoded (decode? (← rowOf id rows))

/-- The removal of the row with an identifier. -/
def delete (ρ : Type) [TableRow ρ] (entity : Entity) (id : String) : Access Unit := do
  let affected ← statement (.ofRecord entity id) fun rules rows =>
    deleteRows rules (fun r : ρ => Row.id r = id) rows
  requireAffected (.notFound entity id) affected

/-- A page of the selected rows, decoded, in ascending order of identifiers. -/
def listPage {ρ : Type} [TableRow ρ] {α : Type} (decode? : ρ → Option α) (selected : ρ → Bool)
    (offset limit : UInt32) : Access (List α) :=
  select .plain fun rows =>
    (page offset limit (sortedById (rows.filter selected))).mapM fun r => decoded (decode? r)

/-- Whether the store answers. -/
def health : Access Bool := do
  connect
  return true

end Store

end MessageBroker

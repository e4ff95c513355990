import MessageBroker.Store.Operation
import MessageBroker.Store.Fault

/-! # Migration

A database is a store with a record of the migration that created its tables. Migrating a database
without record runs the script of the schema and records that, unless a statement fails; with a
record, nothing is done if the record is that of the known migration, and else migrating fails. -/

namespace MessageBroker

/-! ### Running a script -/

namespace Store

/-- The names of the tables that exist. -/
def tableNames (s : Store) : List String := (Table.all.filter (· ∉ s.missing)).map Table.name

/-- Whether there is an index with a name. -/
def hasIndex (s : Store) (name : String) : Bool := s.indexes.any (·.name = name)

/-- The store after a statement, or why it fails. A table that is created has no rows. -/
def define (s : Store) : Definition → Except StorageFailure Store
  | .table ifNotExists t =>
    if t ∈ s.missing then
      if s.hasIndex t.name then
        .error (.database false ("there is already an index named " ++ t.name))
      else .ok { s.cleared t with missing := s.missing.filter (· ≠ t) }
    else if ifNotExists then .ok s
    else .error (.database false ("table " ++ t.name ++ " already exists"))
  | .index ifNotExists i =>
    if i.table ∈ s.missing then .error (.database false ("no such table: main." ++ i.table.name))
    else if i.name ∈ s.tableNames then
      .error (.database false ("there is already a table named " ++ i.name))
    else if s.hasIndex i.name then
      if ifNotExists then .ok s
      else .error (.database false ("index " ++ i.name ++ " already exists"))
    else
      match i.columns.find? (· ∉ i.table.columns) with
      | some column => .error (.database false ("no such column: " ++ column))
      | none => .ok { s with indexes := s.indexes ++ [i] }

/-- The store after statements in order, or why one of them fails. -/
def defineAll (s : Store) (statements : List Definition) : Except StorageFailure Store :=
  statements.foldlM define s

end Store

/-! ### Databases -/

/-- The record of a migration. -/
structure MigrationRecord where
  /-- The version is that of the known migration. -/
  knownVersion : Bool
  /-- The migration recorded has the same text as the known one. -/
  sameText : Bool
  finished : Bool
  deriving DecidableEq

namespace MigrationRecord

/-- The record that migrating leaves. -/
def complete : MigrationRecord := ⟨true, true, true⟩

end MigrationRecord

/-- A database. -/
structure Database where
  store : Store
  record : Option MigrationRecord
  /-- Whether there is a table of records. -/
  hasRecords : Bool
  /-- Whether statistics on the tables are kept. -/
  analysed : Bool
  deriving DecidableEq

namespace Database

/-- The database of a new file. -/
def blank : Database :=
  ⟨{ Store.empty with indexes := [], missing := Store.Table.all }, none, false, false⟩

/-- Success or an error of migrating, and the database after it. If a statement of the script fails,
nothing remains of those before it. -/
def migrate (d : Database) : Except Error Unit × Database :=
  if d.store.closed then (.error .migration, d)
  else
    let d := { d with hasRecords := true }
    match d.record with
    | none =>
      match d.store.defineAll Store.script with
      | .error _ => (.error .migration, d)
      | .ok store => (.ok (), { d with store, record := some .complete })
    | some record => (if record = .complete then .ok () else .error .migration, d)

/-- The database once all connections to it are closed, which analyses the tables. -/
def release (d : Database) : Database :=
  { d with store := { d.store with closed := false }, analysed := true }

/-- The names of the tables, in ascending order. -/
def tables (d : Database) : List String :=
  let names := (if d.hasRecords then ["_sqlx_migrations"] else []) ++ d.store.tableNames
    ++ (if d.analysed then ["sqlite_stat1", "sqlite_stat4"] else [])
  names.mergeSort Text.le

/-! ### Tampering -/

/-- A change of the record from outside. -/
inductive Tampering
  | changeText
  | changeVersion
  | unfinish
  | forget
  deriving DecidableEq

/-- The record after a change. -/
def Tampering.on : Tampering → Option MigrationRecord → Option MigrationRecord
  | changeText, r => r.map fun r => { r with sameText := false }
  | changeVersion, r => r.map fun r => { r with knownVersion := false }
  | unfinish, r => r.map fun r => { r with finished := false }
  | forget, _ => none

/-- The database after a change of its record. -/
def tamper (d : Database) (t : Tampering) : Database := { d with record := t.on d.record }

end Database

end MessageBroker

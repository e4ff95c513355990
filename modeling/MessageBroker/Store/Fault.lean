import MessageBroker.Store.Basic

/-! # Faults

Disturbances of a store from outside: rules that refuse changes or count attempts, overwritten
columns, removed tables, refused connections. `inject` applies one. -/

namespace MessageBroker.Store

/-- A disturbance of a store. -/
inductive Fault
  | reject (r : Rejection)
  | steal (t : Theft)
  /-- The removal of all rules. -/
  | clear
  | setColumn (t : Table) (id column value : String)
  | dropTable (t : Table)
  | close
  deriving DecidableEq

/-- The store without a table, and the rules and indexes on it. -/
def withoutTable (s : Store) (t : Table) : Store :=
  { s.cleared t with
    missing := if t ∈ s.missing then s.missing else t :: s.missing
    rules := s.rules.withoutTable t
    indexes := s.indexes.filter (·.table ≠ t) }

/-- Rows of which the one with an identifier is changed. -/
def changeRow {ρ : Type} [Row ρ] (id : String) (change : ρ → ρ) (rows : List ρ) : List ρ :=
  rows.map fun r => if Row.id r = id then change r else r

/-- The store with a column of a row overwritten. -/
def withColumn (s : Store) (t : Table) (id column value : String) : Store :=
  match t with
  | .queues => { s with queues := changeRow id (·.withColumn column value) s.queues }
  | .messages => { s with messages := changeRow id (·.withColumn column value) s.messages }
  | .topics => { s with topics := changeRow id (·.withColumn column value) s.topics }
  | .subscriptions =>
    { s with subscriptions := changeRow id (·.withColumn column value) s.subscriptions }

/-- The store after a fault. -/
def Fault.inject : Fault → Store → Store
  | reject r, s => { s with rules := { s.rules with rejections := r :: s.rules.rejections } }
  | steal t, s => { s with rules := { s.rules with thefts := t :: s.rules.thefts } }
  | clear, s => { s with rules := .none }
  | setColumn t id column value, s => s.withColumn t id column value
  | dropTable t, s => s.withoutTable t
  | close, s => { s with closed := true }

end MessageBroker.Store

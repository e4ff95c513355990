import MessageBroker.Text.Decimal

/-! # Metrics

What a broker counts: the messages enqueued and leased, by queue, and the requests answered, by
method, route and status. `Tally.count_add` says what an addition to a tally does; `lines` are the
lines of the page that a monitor reads. -/

namespace MessageBroker

/-- How much was counted for each of several keys. -/
structure Tally (κ : Type) where
  entries : List (κ × Nat)
  deriving DecidableEq

namespace Tally

variable {κ : Type} [DecidableEq κ]

/-- The tally of nothing. -/
def empty : Tally κ := ⟨[]⟩

/-- Entries with `n` more for a key. -/
def addEntry (key : κ) (n : Nat) : List (κ × Nat) → List (κ × Nat)
  | [] => [(key, n)]
  | (k, m) :: r => if k = key then (k, m + n) :: r else (k, m) :: addEntry key n r

/-- The number counted for a key among the entries. -/
def countEntry (key : κ) : List (κ × Nat) → Nat
  | [] => 0
  | (k, m) :: r => if k = key then m else countEntry key r

/-- The tally with `n` more for a key. -/
def add (t : Tally κ) (key : κ) (n : Nat) : Tally κ := ⟨addEntry key n t.entries⟩

/-- The number counted for a key. -/
def count (t : Tally κ) (key : κ) : Nat := countEntry key t.entries

theorem count_add (t : Tally κ) (key k : κ) (n : Nat) :
    (t.add key n).count k = t.count k + if key = k then n else 0 := by
  obtain ⟨l⟩ := t
  simp only [add, count]
  induction l with
  | nil => simp only [addEntry, countEntry]; split <;> simp
  | cons e r ih =>
    obtain ⟨k', m⟩ := e
    simp only [addEntry]
    split
    next h =>
      subst h
      simp only [countEntry]
      split
      next => rfl
      next => rfl
    next h =>
      simp only [countEntry]
      split
      next hk =>
        subst hk
        rw [if_neg fun h' => h h'.symm]
        rfl
      next => exact ih

end Tally

/-- What is counted of a request. -/
structure RequestKind where
  method : String
  /-- The pattern of the route that the path matches. -/
  route : String
  status : Nat
  deriving DecidableEq

/-- The counters of a broker. -/
structure Metrics where
  requests : Tally RequestKind
  /-- Messages enqueued, by queue. -/
  enqueued : Tally String
  /-- Messages leased, by queue. -/
  leased : Tally String
  deriving DecidableEq

namespace Metrics

/-- Counters at zero. -/
def zero : Metrics := ⟨.empty, .empty, .empty⟩

/-- The counters after the enqueuing of one message. -/
def addEnqueued (m : Metrics) (queueId : String) : Metrics :=
  { m with enqueued := m.enqueued.add queueId 1 }

/-- The counters after a lease of `n` messages. -/
def addLeased (m : Metrics) (queueId : String) (n : Nat) : Metrics :=
  { m with leased := m.leased.add queueId n }

/-- The counters after a request. -/
def addRequest (m : Metrics) (kind : RequestKind) : Metrics :=
  { m with requests := m.requests.add kind 1 }

/-! ### The page -/

/-- The characters of a label's value. A quote and a line break are escaped. A backslash is, too,
unless it escapes the quote or backslash after it. -/
def escapeLabel : List Char → List Char
  | [] => []
  | '\\' :: '\\' :: r => '\\' :: '\\' :: escapeLabel r
  | '\\' :: '"' :: r => '\\' :: '"' :: escapeLabel r
  | '\\' :: r => '\\' :: '\\' :: escapeLabel r
  | '"' :: r => '\\' :: '"' :: escapeLabel r
  | '\n' :: r => '\\' :: 'n' :: escapeLabel r
  | c :: r => c :: escapeLabel r

/-- A label with its value. -/
def labelText (name value : String) : String :=
  name ++ "=\"" ++ String.ofList (escapeLabel value.toList) ++ "\""

/-- The line of one number. -/
def sampleLine (name : String) (labels : List (String × String)) (n : Nat) : String :=
  name ++ "\x7b" ++ ",".intercalate (labels.map fun (label, value) => labelText label value)
    ++ "\x7d " ++ Text.Decimal.ofInt n

/-- The lines of a kind of numbers, none if there are no numbers. -/
def family (name kind help suffix : String) (samples : List (List (String × String) × Nat)) :
    List String :=
  if samples.isEmpty then []
  else ["# HELP " ++ name ++ " " ++ help, "# TYPE " ++ name ++ " " ++ kind]
    ++ samples.map fun (labels, n) => sampleLine (name ++ suffix) labels n

/-- How many requests there were of each method and route. -/
def timedRequests (m : Metrics) : Tally (String × String) :=
  m.requests.entries.foldl (fun t (kind, n) => t.add (kind.method, kind.route) n) .empty

/-- The lines of the page. -/
def lines (m : Metrics) : List String :=
  family "rowmq_http_requests_total" "counter" "HTTP requests by method, route and status" ""
      (m.requests.entries.map fun (kind, n) =>
        ([("method", kind.method), ("route", kind.route),
          ("status", Text.Decimal.ofInt kind.status)], n))
    ++ family "rowmq_http_request_duration_seconds" "summary"
      "HTTP request latency by method and route" "_count"
      (m.timedRequests.entries.map fun ((method, route), n) =>
        ([("method", method), ("route", route)], n))
    ++ family "rowmq_messages_enqueued_total" "counter" "Messages enqueued, by queue" ""
      (m.enqueued.entries.map fun (queueId, n) => ([("queue_id", queueId)], n))
    ++ family "rowmq_messages_leased_total" "counter" "Messages handed out by leases, by queue" ""
      (m.leased.entries.map fun (queueId, n) => ([("queue_id", queueId)], n))

end Metrics

end MessageBroker

import MessageBroker.Config.Basic
import MessageBroker.Database.Migration

/-! # Directories

The files of a working directory, some of which are databases, and the databases in other
directories. Opening a database creates its file if there is none, and migrates it; a path without a
name, and `:memory:`, open a database of which nothing remains. Neither a file in a directory that
does not exist nor one that holds something else can be opened. -/

namespace MessageBroker

/-- Where a database is kept. -/
inductive Location
  /-- Nowhere: it lasts while it is open. -/
  | transient
  | file (name : String)
  | elsewhere (path : String)
  deriving DecidableEq

/-- Why a database cannot be opened. -/
inductive OpenFailure
  /-- There is no such directory. -/
  | noDirectory
  /-- The file is no database. -/
  | noDatabase
  /-- No connection becomes free. -/
  | noConnection
  | migration
  deriving DecidableEq

/-- The error that reports a failure to open a database. -/
def OpenFailure.error : OpenFailure → Error
  | noDirectory => Error.ofFailure (.database false "unable to open database file")
  | noDatabase => Error.ofFailure (.database false "file is not a database")
  | noConnection => Error.ofFailure .poolTimedOut
  | migration => .migration

namespace Location

/-- The location that a path names, if its directory exists. Other directories than the working
directory are given by their paths, which end with a slash. -/
def ofPath? (folders : List String) (path : String) : Option Location :=
  if path = "" ∨ path = ":memory:" then some .transient
  else
    let parts := path.splitOn "/"
    let name := parts.getLastD ""
    let inner := parts.dropLast.filter fun part => part ≠ "" ∧ part ≠ "."
    let root := if path.toList.head? = some '/' then "/" else ""
    let folder := root ++ String.join (inner.map (· ++ "/"))
    if name = "" ∨ name = "." ∨ name = ".." then none
    else if folder = "" then some (.file name)
    else if folder ∈ folders then some (.elsewhere (folder ++ name))
    else none

/-- The name of a file in the working directory. -/
def name? : Location → Option String
  | .file name => some name
  | _ => none

end Location

/-- A working directory. -/
structure Directory where
  /-- The other directories that can be written to. -/
  folders : List String
  /-- The files that are no databases. -/
  others : List Location
  databases : Dict Database
  /-- The databases in other directories, by path. -/
  elsewhere : Dict Database

namespace Directory

/-- A directory with some files, none of which holds a database. A file of one byte counts as an
empty one, and an empty file is a new database. -/
def ofFiles (folders : List String) (files : List (String × List UInt8)) : Directory where
  folders
  others := (files.filter (1 < ·.2.length)).map (.file ·.1)
  databases := (files.filter (·.2.length ≤ 1)).foldl (fun d f => d.insert f.1 .blank) ∅
  elsewhere := ∅

/-- The names of the files, in ascending order. -/
def files (d : Directory) : List String :=
  (d.others.filterMap Location.name? ++ d.databases.entries.map (·.1)).mergeSort Text.le

/-- The database at a location, or that of a new file. -/
def database (d : Directory) : Location → Database
  | .transient => .blank
  | .file name => (d.databases.get? name).getD .blank
  | .elsewhere path => (d.elsewhere.get? path).getD .blank

/-- The directory with a database kept at a location. -/
def keep (d : Directory) (db : Database) : Location → Directory
  | .transient => d
  | .file name => { d with databases := d.databases.insert name db }
  | .elsewhere path => { d with elsewhere := d.elsewhere.insert path db }

/-- A database opened with settings, and where it is kept, or why it cannot be opened; and the
directory after it. -/
def openDatabase (d : Directory) (c : Config) :
    Except OpenFailure (Location × Database) × Directory :=
  if c.maxConnections = 0 then (.error .noConnection, d)
  else
    match Location.ofPath? d.folders c.dbPath with
    | none => (.error .noDirectory, d)
    | some location =>
      if location ∈ d.others then (.error .noDatabase, d)
      else
        match (d.database location).migrate with
        | (.ok (), db) => (.ok (location, db), d.keep db location)
        | (.error _, db) => (.error .migration, d.keep db location)

/-- What a use of a database gives, which is opened before and closed after it, or why it cannot be
opened; and the directory after it. -/
def withDatabase {α : Type} (d : Directory) (c : Config) (use : Database → α × Database) :
    Except OpenFailure α × Directory :=
  match d.openDatabase c with
  | (.error f, d) => (.error f, d)
  | (.ok (location, db), d) =>
    let (a, db) := use db
    (.ok a, d.keep db.release location)

end Directory

end MessageBroker

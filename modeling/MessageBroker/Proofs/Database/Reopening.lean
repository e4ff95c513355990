import MessageBroker.Database.Directory
import MessageBroker.Proofs.Database.Migration

/-! # Databases that are opened again

Visits to a directory, each of which opens a database, makes actions on it and closes it. What a
visit carries out on a database is a history of actions that begins with a migration
(`database_visit`), so a run of visits leaves each database as the history of the run does
(`database_afterAll`), and the databases at other locations as they were. Hence a database has at
any time the rows that the operations of its visits leave, made one after the other on empty tables,
and what decides whether it can be opened again is whether the record of its migration was
changed. -/

namespace MessageBroker

open Database (Action Begins Clean Spoiled operations)

/-- A visit to a directory: the settings with which a database is opened, and what is then done with
it before it is closed. -/
structure Visit where
  config : Config
  actions : List Action

namespace Directory

variable {dir : Directory} {c : Config} {l l' : Location} {v : Visit}

/-- A configuration allows connections, and names a location at which a database is or can be
kept. -/
def Reaches (dir : Directory) (c : Config) (l : Location) : Prop :=
  c.maxConnections ≠ 0 ∧ Location.ofPath? dir.folders c.dbPath = some l ∧ l ≠ .transient ∧
    l ∉ dir.others

instance (dir : Directory) (c : Config) (l : Location) : Decidable (dir.Reaches c l) :=
  inferInstanceAs (Decidable (_ ∧ _ ∧ _ ∧ _))

/-- Whether a visit opens its database, and the directory after it. -/
def visit (dir : Directory) (v : Visit) : Except OpenFailure Unit × Directory :=
  dir.withDatabase v.config fun db => ((), db.afterAll v.actions)

/-- The directory after visits in order. -/
def afterAll (dir : Directory) (vs : List Visit) : Directory :=
  vs.foldl (fun dir v => (dir.visit v).2) dir

theorem afterAll_cons (v : Visit) (vs : List Visit) :
    dir.afterAll (v :: vs) = (dir.visit v).2.afterAll vs := rfl

theorem afterAll_append (vs more : List Visit) :
    dir.afterAll (vs ++ more) = (dir.afterAll vs).afterAll more := List.foldl_append

/-! ### Databases kept at locations -/

theorem database_keep (db : Database) (hl : l ≠ .transient) (l' : Location) :
    (dir.keep db l).database l' = if l' = l then db else dir.database l' := by
  cases l with
  | transient => exact absurd rfl hl
  | file name =>
    cases l' with
    | file name' =>
      simp only [database, keep, Dict.get?_insert, Location.file.injEq]
      split_ifs <;> rfl
    | elsewhere | transient => exact (if_neg nofun).symm
  | elsewhere path =>
    cases l' with
    | elsewhere path' =>
      simp only [database, keep, Dict.get?_insert, Location.elsewhere.injEq]
      split_ifs <;> rfl
    | file | transient => exact (if_neg nofun).symm

theorem keep_files (dir : Directory) (db : Database) (l : Location) :
    (dir.keep db l).folders = dir.folders ∧ (dir.keep db l).others = dir.others := by
  cases l <;> exact ⟨rfl, rfl⟩

theorem openDatabase_of_reaches (h : dir.Reaches c l) : dir.openDatabase c =
    (match (dir.database l).migrate.1 with
      | .ok () => .ok (l, (dir.database l).migrate.2)
      | .error _ => .error .migration, dir.keep (dir.database l).migrate.2 l) := by
  obtain ⟨hconnections, hpath, -, hother⟩ := h
  simp only [openDatabase, if_neg hconnections, hpath, if_neg hother]
  rcases (dir.database l).migrate with ⟨e | _, db⟩ <;> rfl

theorem visit_of_reaches (h : dir.Reaches v.config l) : (dir.visit v).1 =
    match (dir.database l).migrate.1 with
    | .ok () => .ok ()
    | .error _ => .error .migration := by
  unfold visit withDatabase
  rw [openDatabase_of_reaches h]
  rcases (dir.database l).migrate.1 with e | _ <;> rfl

theorem visit_of_not_reaches (h : ∀ l, ¬dir.Reaches v.config l) : (dir.visit v).2 = dir := by
  unfold visit withDatabase openDatabase
  by_cases hconnections : v.config.maxConnections = 0
  · simp only [if_pos hconnections]
  · rcases hpath : Location.ofPath? dir.folders v.config.dbPath with _ | l
    · simp only [if_neg hconnections]
    · by_cases hother : l ∈ dir.others
      · simp only [if_neg hconnections, if_pos hother]
      · obtain rfl : l = .transient :=
          of_not_not fun hl => h l ⟨hconnections, hpath, hl, hother⟩
        simp only [if_neg hconnections, if_neg hother]
        rcases (dir.database .transient).migrate with ⟨e | _, db⟩ <;> rfl

/-- What a visit carries out on its database, by whether it was opened. -/
def carriedOut (answer : Except OpenFailure Unit) (actions : List Action) : List Action :=
  .migrate :: match answer with
    | .ok () => actions ++ [.release]
    | .error _ => []

/-- **A visit carries out its actions on one database**, and leaves the others. -/
theorem database_visit (h : dir.Reaches v.config l) (l' : Location) :
    (dir.visit v).2.database l' =
      if l' = l then (dir.database l).afterAll (carriedOut (dir.visit v).1 v.actions)
      else dir.database l' := by
  obtain ⟨-, -, hl, -⟩ := id h
  unfold visit withDatabase carriedOut
  rw [openDatabase_of_reaches h]
  rcases hmigrate : (dir.database l).migrate.1 with e | _
  · exact database_keep _ hl l'
  · simp only [Database.afterAll_cons, Database.afterAll_append]
    refine (database_keep _ hl l').trans ?_
    split_ifs with hl'
    · rfl
    · rw [database_keep _ hl, if_neg hl']

theorem database_visit_of_not_reaches (h : ¬dir.Reaches v.config l) :
    (dir.visit v).2.database l = dir.database l := by
  by_cases hreaches : ∃ l', dir.Reaches v.config l'
  · obtain ⟨l', hl'⟩ := hreaches
    rw [database_visit hl', if_neg]
    rintro rfl
    exact h hl'
  · rw [visit_of_not_reaches fun l' hl' => hreaches ⟨l', hl'⟩]

/-- No visit touches the files that are no databases, or makes directories. -/
theorem visit_files (dir : Directory) (v : Visit) :
    (dir.visit v).2.folders = dir.folders ∧ (dir.visit v).2.others = dir.others := by
  by_cases hreaches : ∃ l, dir.Reaches v.config l
  · obtain ⟨l, hl⟩ := hreaches
    unfold visit withDatabase
    rw [openDatabase_of_reaches hl]
    obtain ⟨hfolders, hothers⟩ := dir.keep_files (dir.database l).migrate.2 l
    rcases (dir.database l).migrate.1 with e | _
    · exact ⟨hfolders, hothers⟩
    · obtain ⟨hfolders', hothers'⟩ := (dir.keep (dir.database l).migrate.2 l).keep_files
        ((dir.database l).migrate.2.afterAll v.actions).release l
      exact ⟨hfolders'.trans hfolders, hothers'.trans hothers⟩
  · rw [visit_of_not_reaches fun l' hl' => hreaches ⟨l', hl'⟩]
    exact ⟨rfl, rfl⟩

theorem reaches_afterAll (vs : List Visit) : (dir.afterAll vs).Reaches c l ↔ dir.Reaches c l := by
  induction vs generalizing dir with
  | nil => rfl
  | cons v vs ih =>
    obtain ⟨hfolders, hothers⟩ := dir.visit_files v
    rw [afterAll_cons, ih, Reaches, hfolders, hothers, Reaches]

/-! ### The history of a database -/

/-- The actions that visits carry out on the database at a location. -/
def history (l : Location) : List Visit → Directory → List Action
  | [], _ => []
  | v :: vs, dir =>
    (if dir.Reaches v.config l then carriedOut (dir.visit v).1 v.actions else []) ++
      history l vs (dir.visit v).2

theorem history_append (l : Location) (vs more : List Visit) :
    history l (vs ++ more) dir = history l vs dir ++ history l more (dir.afterAll vs) := by
  induction vs generalizing dir with
  | nil => rfl
  | cons v vs ih => rw [List.cons_append, history, history, ih, List.append_assoc, afterAll_cons]

/-- **Visits leave a database as its history does.** -/
theorem database_afterAll (l : Location) (vs : List Visit) :
    (dir.afterAll vs).database l = (dir.database l).afterAll (history l vs dir) := by
  induction vs generalizing dir with
  | nil => rfl
  | cons v vs ih =>
    rw [afterAll_cons, ih, history, Database.afterAll_append]
    congr 1
    split_ifs with hreaches
    · rw [database_visit hreaches, if_pos rfl]
    · exact database_visit_of_not_reaches hreaches

theorem begins_history (l : Location) (vs : List Visit) (dir : Directory) :
    Begins (history l vs dir) := by
  induction vs generalizing dir with
  | nil => trivial
  | cons v vs ih =>
    rw [history]
    split_ifs
    · rfl
    · exact ih _

theorem forall_history {P : Action → Prop} (hmigrate : P .migrate) (hrelease : P .release)
    {vs : List Visit} (hvs : ∀ v ∈ vs, ∀ a ∈ v.actions, P a) (l : Location) :
    ∀ a ∈ history l vs dir, P a := by
  induction vs generalizing dir with
  | nil => nofun
  | cons v vs ih =>
    obtain ⟨hv, hvs⟩ := List.forall_mem_cons.mp hvs
    refine List.forall_mem_append.mpr ⟨?_, ih hvs⟩
    split_ifs
    · refine List.forall_mem_cons.mpr ⟨hmigrate, ?_⟩
      split
      · refine List.forall_mem_append.mpr ⟨hv, ?_⟩
        simpa using hrelease
      · nofun
    · nofun

/-- The store that the operations of visits leave, made in order on empty tables. -/
def written (l : Location) (vs : List Visit) (dir : Directory) : Store :=
  (Store.run (operations (history l vs dir)) .empty).2

/-- Visits without operations write nothing. -/
theorem written_append (l : Location) (vs : List Visit) {more : List Visit}
    (hmore : ∀ v ∈ more, ∀ a ∈ v.actions, a.operation? = none) :
    written l (vs ++ more) dir = written l vs dir := by
  have hnone : operations (history l more (dir.afterAll vs)) = [] :=
    List.filterMap_eq_nil_iff.mpr
      (forall_history (P := fun a => a.operation? = none) rfl rfl hmore l)
  rw [written, history_append, operations, List.filterMap_append]
  rw [operations] at hnone
  rw [hnone, List.append_nil]
  rfl

/-- A database whose record is refused is opened by no visit, and nothing stored is changed. -/
theorem refused_visits (vs : List Visit) (hintact : (dir.database l).Intact)
    (hrefused : ¬(dir.database l).Accepted) :
    ((dir.afterAll vs).database l).Intact ∧ ¬((dir.afterAll vs).database l).Accepted ∧
      ((dir.afterAll vs).database l).store = (dir.database l).store := by
  induction vs generalizing dir with
  | nil => exact ⟨hintact, hrefused, rfl⟩
  | cons v vs ih =>
    rw [afterAll_cons]
    have hstep : ((dir.visit v).2.database l).store = (dir.database l).store ∧
        ((dir.visit v).2.database l).record = (dir.database l).record := by
      by_cases hreaches : dir.Reaches v.config l
      · have hmigrate := Database.migrate_of_refused hintact hrefused
        have hanswer : (dir.visit v).1 = .error .migration := by
          rw [visit_of_reaches hreaches, hmigrate]
        rw [database_visit hreaches, if_pos rfl, hanswer]
        simp only [carriedOut, Database.afterAll_cons, Database.after, hmigrate]
        exact ⟨rfl, rfl⟩
      · rw [database_visit_of_not_reaches hreaches]
        exact ⟨rfl, rfl⟩
    obtain ⟨hstore, hrecord⟩ := hstep
    rw [← hstore]
    refine ih ?_ ?_
    · rw [Database.Intact, hstore, hrecord]
      exact hintact
    · rw [Database.Accepted, hrecord]
      exact hrefused

/-! ### New directories -/

theorem getD_foldl_insert (files : List (String × List UInt8)) {d : Dict Database}
    (h : ∀ name, (d.get? name).getD .blank = .blank) (name : String) :
    ((files.foldl (fun d f => d.insert f.1 .blank) d).get? name).getD .blank = .blank := by
  induction files generalizing d with
  | nil => exact h name
  | cons f files ih =>
    refine ih fun name => ?_
    rw [Dict.get?_insert]
    split_ifs
    · rfl
    · exact h name

theorem database_ofFiles (folders : List String) (files : List (String × List UInt8))
    (l : Location) : (ofFiles folders files).database l = .blank := by
  cases l with
  | file name => exact getD_foldl_insert _ (fun _ => rfl) name
  | transient | elsewhere => rfl

section Opening

variable {folders : List String} {files : List (String × List UInt8)} {vs : List Visit}
  {actions : List Action}

/-- Each database is the one that its history leaves. -/
theorem database_eq (folders : List String) (files : List (String × List UInt8)) (vs : List Visit)
    (l : Location) : ((ofFiles folders files).afterAll vs).database l =
      Database.blank.afterAll (history l vs (ofFiles folders files)) := by
  rw [database_afterAll, database_ofFiles]

theorem openDatabase_of_clean (hc : (ofFiles folders files).Reaches c l)
    (hclean : Clean (history l vs (ofFiles folders files))) :
    let dir := (ofFiles folders files).afterAll vs
    ∃ db, dir.openDatabase c = (.ok (l, db), dir.keep db l) ∧ db.record = some .complete ∧
      db.store.missing = [] ∧ db.store = written l vs (ofFiles folders files) := by
  intro dir
  obtain ⟨hok, hdb⟩ := Database.migrate_of_clean (begins_history l vs _) hclean
  rw [← database_eq folders files vs l] at hok hdb
  refine ⟨(dir.database l).migrate.2, ?_, hdb⟩
  rw [openDatabase_of_reaches ((reaches_afterAll vs).mpr hc), hok]

theorem openDatabase_of_spoiled (hc : (ofFiles folders files).Reaches c l)
    (hspoiled : Spoiled (history l vs (ofFiles folders files))) (again : List Visit) :
    let dir := (ofFiles folders files).afterAll vs
    let later := dir.afterAll again
    ∃ db, later.openDatabase c = (.error .migration, later.keep db l) ∧
      db.store = written l vs (ofFiles folders files) := by
  intro dir later
  obtain ⟨hfails, hwritten⟩ := Database.migrate_of_spoiled (begins_history l vs _) hspoiled
  have hrefused : ¬(dir.database l).Accepted := by
    rw [database_eq folders files vs l]
    exact Database.refused_of_spoiled Database.intact_blank hspoiled
  have hintact : (dir.database l).Intact := by
    rw [database_eq folders files vs l]
    exact Database.intact_blank.afterAll _
  obtain ⟨hintact', hrefused', hstore⟩ := refused_visits again hintact hrefused
  have hmigrate := Database.migrate_of_refused hintact' hrefused'
  rw [← database_eq folders files vs l, Database.migrate_of_refused hintact hrefused] at hwritten
  refine ⟨(later.database l).migrate.2, ?_, ?_⟩
  · rw [openDatabase_of_reaches ((reaches_afterAll again).mpr ((reaches_afterAll vs).mpr hc)),
      hmigrate]
  · rw [hmigrate]
    exact hstore.trans hwritten

/-- A database that was opened has all tables with the rows that were written, and is left by
actions as its history and the actions leave it. -/
theorem of_openDatabase (hc : (ofFiles folders files).Reaches c l) {db : Database}
    {dir' : Directory}
    (h : ((ofFiles folders files).afterAll vs).openDatabase c = (.ok (l, db), dir')) :
    db.store.Defined ∧ db.store = written l vs (ofFiles folders files) ∧
      ∀ actions, db.afterAll actions = Database.blank.afterAll
        (history l vs (ofFiles folders files) ++ .migrate :: actions) := by
  rw [openDatabase_of_reaches ((reaches_afterAll vs).mpr hc), database_eq] at h
  obtain ⟨hanswer, -⟩ := Prod.mk.inj h
  split at hanswer
  · obtain rfl := (Prod.mk.inj (Except.ok.inj hanswer)).2
    refine ⟨(Database.intact_blank.afterAll _).defined_migrate,
      Database.store_migrate_of_begins (begins_history l vs _), fun actions => ?_⟩
    rw [Database.afterAll_append]
    rfl
  · cases hanswer

/-- A visit to the database with a name. -/
def visitTo (name : String) (actions : List Action) : Visit :=
  ⟨{ Config.default with dbPath := name }, actions⟩

theorem reaches_visitTo {name : String}
    (h : Location.ofPath? dir.folders name = some (.file name)) (hother : dir.others = []) :
    dir.Reaches (visitTo name actions).config l ↔ l = .file name := by
  constructor
  · rintro ⟨-, hpath, -⟩
    exact Option.some.inj (hpath.symm.trans h)
  · rintro rfl
    have hconnections : Config.default.maxConnections ≠ 0 := by decide
    exact ⟨hconnections, h, nofun, by rw [hother]; exact List.not_mem_nil⟩

/-- A visit that creates a queue in one database, and forgets the record. -/
def forgettingVisit : Visit :=
  visitTo "x" [.operate (.createQueue ⟨"q", 30, 60, 0, .epoch, .epoch⟩), .tamper .forget]

/-- A visit that changes the text of the record in another database. -/
def changingVisit : Visit := visitTo "y" [.tamper .changeText]

end Opening

end Directory

end MessageBroker

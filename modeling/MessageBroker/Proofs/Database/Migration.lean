import MessageBroker.Proofs.Database.Schema

/-! # Migrating changes no row

What is done with a database is a list of actions, its history: operations on the store, migrations,
changes of the record, and the closing of the connections. A database is new, or it has all tables
and indexes and keeps them (`Intact.after`); the store is then at any time the one that the
operations of the history leave (`store_afterAll`), so that a script that is run again has changed
no row. Whether migrating succeeds depends on the record alone: it is accepted if there is none or
if it is that of the known migration (`migrate_of_accepted`, `migrate_of_refused`). A record that is
changed is refused until it is forgotten (`refused_of_spoiled`), and one that is not is accepted
(`accepted_of_clean`). -/

namespace MessageBroker.Database

open Store (Defined)

/-! ### Actions -/

/-- What is done with an open database, and when it is closed. -/
inductive Action
  | operate (op : Store.Operation)
  | migrate
  | tamper (t : Tampering)
  | release

namespace Action

/-- The operation that an action makes, if it is one on the store. -/
def operation? : Action → Option Store.Operation
  | operate op => some op
  | _ => none

/-- The action changes a record, and does not forget it. -/
def Spoils : Action → Prop
  | tamper t => t ≠ .forget
  | _ => False

end Action

/-- The database after an action. -/
def after (d : Database) : Action → Database
  | .operate op => { d with store := ((Store.perform op).on d.store).2 }
  | .migrate => d.migrate.2
  | .tamper t => d.tamper t
  | .release => d.release

/-- The database after actions in order. -/
def afterAll (d : Database) (actions : List Action) : Database := actions.foldl after d

/-- The operations among actions. -/
def operations (actions : List Action) : List Store.Operation :=
  actions.filterMap Action.operation?

variable {d : Database} {a : Action} {actions : List Action}

theorem afterAll_cons (a : Action) (actions : List Action) :
    d.afterAll (a :: actions) = (d.after a).afterAll actions := rfl

theorem afterAll_append (actions more : List Action) :
    d.afterAll (actions ++ more) = (d.afterAll actions).afterAll more := List.foldl_append

/-- What each of the actions keeps is so after all of them. -/
theorem afterAll_of_step {P : Database → Prop} (h : P d)
    (hstep : ∀ d, P d → ∀ a ∈ actions, P (d.after a)) : P (d.afterAll actions) := by
  induction actions generalizing d with
  | nil => exact h
  | cons a actions ih =>
    have ha : P (d.after a) := hstep d h a List.mem_cons_self
    exact ih ha fun d hd b hb => hstep d hd b (List.mem_cons_of_mem a hb)

/-! ### Databases that have their tables -/

/-- A database is new, or all tables and indexes are there. -/
def Intact (d : Database) : Prop :=
  d.store.Defined ∨ d.store = blank.store ∧ d.record = none

theorem intact_blank : blank.Intact := Or.inr ⟨rfl, rfl⟩

theorem perform_blank (op : Store.Operation) :
    ((Store.perform op).on blank.store).2 = blank.store := by
  cases op with
  | createMessages ms => cases ms <;> rfl
  | lease q label limit now =>
    by_cases hlimit : limit = 0
    · rw [hlimit]
      rfl
    · simp only [Store.perform, Store.lease, if_neg hlimit]
      rfl
  | _ => rfl

theorem release_store (h : d.store.closed = false) : d.release.store = d.store := by
  unfold release
  rw [← h]

theorem record_tamper (t : Tampering) (h : d.record = none) : (d.tamper t).record = none := by
  change t.on d.record = none
  rw [h]
  cases t <;> rfl

namespace Intact

theorem closed (h : d.Intact) : d.store.closed = false := by
  rcases h with h | ⟨h, -⟩
  · exact h.closed
  · rw [h]
    rfl

/-- Without a record the script creates the tables and indexes, or finds them all. -/
theorem exists_defineAll (h : d.Intact) : ∃ s : Store,
    d.store.defineAll Store.script = .ok s ∧ s.Defined ∧ (d.store.Defined → s = d.store) := by
  rcases h with h | ⟨h, -⟩
  · exact ⟨d.store, h.defineAll, h, fun _ => rfl⟩
  · refine ⟨.empty, ?_, Store.defined_empty, fun hdefined => ?_⟩
    · rw [h]
      exact Store.defineAll_blank
    · rw [h] at hdefined
      cases hdefined.missing

theorem defined (h : d.Intact) (hrecord : d.record ≠ none) : d.store.Defined :=
  h.resolve_right fun hblank => hrecord hblank.2

/-- Migrating runs the script and records that, does nothing, or fails. -/
theorem migrate_cases (h : d.Intact) :
    (∃ s : Store, d.record = none ∧ s.Defined ∧ (d.store.Defined → s = d.store) ∧ d.migrate =
        (.ok (), { d with store := s, record := some .complete, hasRecords := true })) ∨
      d.record = some .complete ∧ d.migrate = (.ok (), { d with hasRecords := true }) ∨
      d.record ≠ none ∧ d.record ≠ some .complete ∧
        d.migrate = (.error .migration, { d with hasRecords := true }) := by
  have hclosed := h.closed
  unfold migrate
  cases hrecord : d.record with
  | none =>
    obtain ⟨s, hscript, hdefined, hsame⟩ := h.exists_defineAll
    exact Or.inl ⟨s, rfl, hdefined, hsame, by simp [hclosed, hscript]⟩
  | some record =>
    right
    by_cases hcomplete : record = .complete
    · exact Or.inl ⟨congrArg some hcomplete, by simp [hclosed, hcomplete]⟩
    · exact Or.inr ⟨nofun, fun he => hcomplete (Option.some.inj he),
        by simp [hclosed, hcomplete]⟩

theorem store_migrate (h : d.Intact) (hdefined : d.store.Defined) :
    d.migrate.2.store = d.store := by
  rcases h.migrate_cases with ⟨s, -, -, hsame, hmigrate⟩ | ⟨-, hmigrate⟩ | ⟨-, -, hmigrate⟩ <;>
    rw [hmigrate]
  exact hsame hdefined

theorem defined_migrate (h : d.Intact) : d.migrate.2.store.Defined := by
  rcases h.migrate_cases with
    ⟨s, -, hdefined, -, hmigrate⟩ | ⟨hrecord, hmigrate⟩ | ⟨hrecord, -, hmigrate⟩ <;> rw [hmigrate]
  · exact hdefined
  · exact h.defined (by rw [hrecord]; nofun)
  · exact h.defined hrecord

end Intact

theorem defined_after (h : d.store.Defined) (a : Action) : (d.after a).store.Defined := by
  cases a with
  | operate op =>
    have hreach : Store.reach ((Store.perform op).on d.store).2 = d.store.reach :=
      Store.reach_perform op d.store
    exact h.of_reach hreach
  | migrate =>
    have hintact : d.Intact := Or.inl h
    exact hintact.defined_migrate
  | tamper t => exact h
  | release =>
    have hstore := release_store h.closed
    exact hstore ▸ h

theorem defined_afterAll (h : d.store.Defined) (actions : List Action) :
    (d.afterAll actions).store.Defined :=
  afterAll_of_step (P := fun d => d.store.Defined) h fun _ hd a _ => defined_after hd a

namespace Intact

theorem after (h : d.Intact) (a : Action) : (d.after a).Intact := by
  rcases id h with hdefined | ⟨hstore, hrecord⟩
  · exact Or.inl (defined_after hdefined a)
  · cases a with
    | operate op =>
      refine Or.inr ⟨?_, hrecord⟩
      change ((Store.perform op).on d.store).2 = _
      rw [hstore, perform_blank]
    | migrate => exact Or.inl h.defined_migrate
    | tamper t => exact Or.inr ⟨hstore, record_tamper t hrecord⟩
    | release => exact Or.inr ⟨(release_store h.closed).trans hstore, hrecord⟩

/-- **Actions keep a database intact.** -/
theorem afterAll (h : d.Intact) (actions : List Action) : (d.afterAll actions).Intact :=
  afterAll_of_step h fun _ hd a _ => hd.after a

end Intact

/-! ### What the operations leave -/

/-- **A database with its tables is left by actions as by the operations among them.** Neither
migrations, whether they run the script or fail, nor changes of the record, nor closing and opening
it again make a difference. -/
theorem store_afterAll (h : d.store.Defined) (actions : List Action) :
    (d.afterAll actions).store = (Store.run (operations actions) d.store).2 := by
  induction actions generalizing d with
  | nil => rfl
  | cons a actions ih =>
    rw [afterAll_cons, ih (defined_after h a)]
    cases a with
    | operate op => rfl
    | migrate =>
      have hintact : d.Intact := Or.inl h
      exact congrArg (fun s => (Store.run (operations actions) s).2) (hintact.store_migrate h)
    | tamper t => rfl
    | release =>
      exact congrArg (fun s => (Store.run (operations actions) s).2) (release_store h.closed)

/-- A history is that of a new database, or begins with a migration. -/
def Begins : List Action → Prop
  | [] => True
  | a :: _ => a = .migrate

theorem Begins.append {history : List Action} (h : Begins history) (actions : List Action) :
    Begins (history ++ .migrate :: actions) := by
  cases history with
  | nil => rfl
  | cons a history => exact h

theorem store_of_begins {history : List Action} (h : Begins history) :
    (blank.afterAll history).store =
      if history = [] then blank.store else (Store.run (operations history) .empty).2 := by
  cases history with
  | nil => rfl
  | cons a actions =>
    obtain rfl := h
    have hstore : (blank.after .migrate).store = .empty := by rfl
    rw [if_neg (List.cons_ne_nil _ _), afterAll_cons,
      store_afterAll (hstore ▸ Store.defined_empty), hstore]
    rfl

/-- A database has at any time the rows that the operations of its history leave. -/
theorem allRows_of_begins {history : List Action} (h : Begins history) :
    (blank.afterAll history).store.allRows =
      (Store.run (operations history) .empty).2.allRows := by
  rw [store_of_begins h]
  split_ifs with hnil
  · rw [hnil]
    rfl
  · rfl

theorem store_migrate_of_begins {history : List Action} (h : Begins history) :
    (blank.afterAll history).migrate.2.store = (Store.run (operations history) .empty).2 := by
  have hstore := store_of_begins (h.append [])
  have hnone : operations (history ++ [.migrate]) = operations history := by
    simp [operations, Action.operation?]
  rw [if_neg (by simp), afterAll_append, hnone] at hstore
  exact hstore

/-! ### Records that are accepted and refused -/

/-- There is no record, or that of the known migration. -/
def Accepted (d : Database) : Prop := d.record = none ∨ d.record = some .complete

theorem migrate_of_accepted (h : d.Intact) (haccepted : d.Accepted) :
    d.migrate.1 = .ok () ∧ d.migrate.2.record = some .complete := by
  rcases h.migrate_cases with
    ⟨s, -, -, -, hmigrate⟩ | ⟨hrecord, hmigrate⟩ | ⟨hnone, hcomplete, -⟩
  · rw [hmigrate]
    exact ⟨rfl, rfl⟩
  · rw [hmigrate]
    exact ⟨rfl, hrecord⟩
  · exact absurd haccepted (not_or.mpr ⟨hnone, hcomplete⟩)

theorem migrate_of_refused (h : d.Intact) (hrefused : ¬d.Accepted) :
    d.migrate = (.error .migration, { d with hasRecords := true }) := by
  rcases h.migrate_cases with ⟨s, hrecord, -⟩ | ⟨hrecord, -⟩ | ⟨-, -, hmigrate⟩
  · exact absurd (Or.inl hrecord) hrefused
  · exact absurd (Or.inr hrecord) hrefused
  · exact hmigrate

theorem record_migrate (h : d.Intact) : d.migrate.2.record ≠ none := by
  rcases h.migrate_cases with
    ⟨s, -, -, -, hmigrate⟩ | ⟨hrecord, hmigrate⟩ | ⟨hnone, -, hmigrate⟩ <;> rw [hmigrate]
  · nofun
  · rw [hrecord]
    nofun
  · exact hnone

theorem accepted_after (h : d.Intact) (haccepted : d.Accepted) (ha : ¬a.Spoils) :
    (d.after a).Accepted := by
  cases a with
  | operate | release => exact haccepted
  | migrate => exact Or.inr (migrate_of_accepted h haccepted).2
  | tamper t =>
    obtain rfl := of_not_not ha
    exact Or.inl rfl

theorem accepted_afterAll (h : d.Intact) (haccepted : d.Accepted)
    (hactions : ∀ a ∈ actions, ¬a.Spoils) : (d.afterAll actions).Accepted :=
  And.right <| afterAll_of_step (P := fun d => d.Intact ∧ d.Accepted) ⟨h, haccepted⟩
    fun _ ⟨hd, hd'⟩ a ha => ⟨hd.after a, accepted_after hd hd' (hactions a ha)⟩

theorem recorded_after (h : d.Intact) (hrecord : d.record ≠ none)
    (ha : a ≠ .tamper .forget) : (d.after a).record ≠ none := by
  cases a with
  | operate | release => exact hrecord
  | migrate => exact record_migrate h
  | tamper t =>
    intro hnone
    cases t with
    | forget => exact ha rfl
    | _ => exact hrecord (Option.map_eq_none_iff.mp hnone)

theorem recorded_afterAll (h : d.Intact) (hrecord : d.record ≠ none)
    (hactions : .tamper .forget ∉ actions) : (d.afterAll actions).record ≠ none :=
  And.right <| afterAll_of_step (P := fun d => d.Intact ∧ d.record ≠ none) ⟨h, hrecord⟩
    fun _ ⟨hd, hd'⟩ a ha => ⟨hd.after a, recorded_after hd hd' fun he => hactions (he ▸ ha)⟩

theorem refused_of_spoils (hrecord : d.record ≠ none) (ha : a.Spoils) : ¬(d.after a).Accepted := by
  cases a with
  | tamper t =>
    cases t with
    | forget => exact absurd rfl ha
    | _ =>
      rintro (hnone | hcomplete)
      · exact hrecord (Option.map_eq_none_iff.mp hnone)
      · obtain ⟨⟨_, _, _⟩, -, hchanged⟩ := Option.map_eq_some_iff.mp hcomplete
        cases hchanged
  | _ => exact ha.elim

theorem refused_after (h : d.Intact) (hrefused : ¬d.Accepted)
    (ha : a ≠ .tamper .forget) : ¬(d.after a).Accepted := by
  cases a with
  | operate | release => exact hrefused
  | migrate =>
    rw [after, migrate_of_refused h hrefused]
    exact hrefused
  | tamper t =>
    refine refused_of_spoils (fun hnone => hrefused (Or.inl hnone)) fun ht => ha ?_
    rw [ht]

theorem refused_afterAll (h : d.Intact) (hrefused : ¬d.Accepted)
    (hactions : .tamper .forget ∉ actions) : ¬(d.afterAll actions).Accepted :=
  And.right <| afterAll_of_step (P := fun d => d.Intact ∧ ¬d.Accepted) ⟨h, hrefused⟩
    fun _ ⟨hd, hd'⟩ a ha => ⟨hd.after a, refused_after hd hd' fun he => hactions (he ▸ ha)⟩

/-! ### Histories -/

/-- A record was not changed, but perhaps forgotten, in a history or since it was forgotten. -/
def Clean (history : List Action) : Prop :=
  ∃ recent, (history = recent ∨ ∃ earlier, history = earlier ++ .tamper .forget :: recent) ∧
    ∀ a ∈ recent, ¬a.Spoils

/-- The record that migrating left was changed, and not forgotten since. -/
def Spoiled (history : List Action) : Prop :=
  ∃ earlier recent, history = earlier ++ .migrate :: recent ∧ .tamper .forget ∉ recent ∧
    ∃ a ∈ recent, a.Spoils

theorem Clean.append {history : List Action} (h : Clean history)
    (hactions : ∀ a ∈ actions, ¬a.Spoils) : Clean (history ++ actions) := by
  obtain ⟨recent, hhistory, hrecent⟩ := h
  refine ⟨recent ++ actions, ?_, fun a ha => (List.mem_append.mp ha).elim (hrecent a) (hactions a)⟩
  rcases hhistory with rfl | ⟨earlier, rfl⟩
  · exact Or.inl rfl
  · exact Or.inr ⟨earlier, by rw [List.append_assoc, List.cons_append]⟩

theorem accepted_of_clean (h : d.Intact) (haccepted : d.Accepted) (hclean : Clean actions) :
    (d.afterAll actions).Accepted := by
  obtain ⟨recent, rfl | ⟨earlier, rfl⟩, hrecent⟩ := hclean
  · exact accepted_afterAll h haccepted hrecent
  · rw [afterAll_append, afterAll_cons]
    have hforgotten : ((d.afterAll earlier).after (.tamper .forget)).Accepted := Or.inl rfl
    have hintact := (h.afterAll earlier).after (.tamper .forget)
    exact accepted_afterAll hintact hforgotten hrecent

/-- **A record that was changed and not forgotten is refused.** -/
theorem refused_of_spoiled (h : d.Intact) (hspoiled : Spoiled actions) :
    ¬(d.afterAll actions).Accepted := by
  obtain ⟨earlier, recent, rfl, hforget, a, ha, hspoils⟩ := hspoiled
  -- up to the change the record is there, and after it the record is refused
  obtain ⟨before, later, rfl⟩ := List.append_of_mem ha
  rw [List.mem_append, List.mem_cons, not_or, not_or] at hforget
  obtain ⟨hbefore, -, hlater⟩ := hforget
  rw [afterAll_append, afterAll_cons, afterAll_append, afterAll_cons]
  have hintact := (h.afterAll earlier).after .migrate
  have hrecord : ((d.afterAll earlier).after .migrate).record ≠ none :=
    record_migrate (h.afterAll earlier)
  have hrefused := refused_of_spoils (recorded_afterAll hintact hrecord hbefore) hspoils
  exact refused_afterAll ((hintact.afterAll before).after a) hrefused hlater

/-- **Migrating a database with a clean history succeeds**, records the migration, and leaves all
tables with the rows that the operations of the history left. -/
theorem migrate_of_clean {history : List Action} (hbegins : Begins history) (h : Clean history) :
    let d := blank.afterAll history
    d.migrate.1 = .ok () ∧ d.migrate.2.record = some .complete ∧ d.migrate.2.store.missing = [] ∧
      d.migrate.2.store = (Store.run (operations history) .empty).2 := by
  intro d
  have hintact : d.Intact := intact_blank.afterAll history
  have haccepted : d.Accepted := accepted_of_clean intact_blank (Or.inl rfl) h
  obtain ⟨hok, hrecord⟩ := migrate_of_accepted hintact haccepted
  exact ⟨hok, hrecord, hintact.defined_migrate.missing, store_migrate_of_begins hbegins⟩

/-- **Migrating a database with a spoiled history fails**, and changes nothing stored. -/
theorem migrate_of_spoiled {history : List Action} (hbegins : Begins history)
    (h : Spoiled history) :
    let d := blank.afterAll history
    d.migrate.1 = .error .migration ∧
      d.migrate.2.store = (Store.run (operations history) .empty).2 := by
  intro d
  have hrefused : ¬d.Accepted := refused_of_spoiled intact_blank h
  refine ⟨?_, store_migrate_of_begins hbegins⟩
  rw [migrate_of_refused (intact_blank.afterAll history) hrefused]

end MessageBroker.Database

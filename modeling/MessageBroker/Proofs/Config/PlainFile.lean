import Mathlib
import MessageBroker.Config.EnvironmentFile

/-! # Files of plain assignments

A plain file assigns values to names, one a line, without blanks, comments, quotes, escapes and
expansions. Its lines are read one by one (`withFile_text`), each of which sets a name that has no
value yet. So a name has the value of the environment, or else the first that the file assigns
(`valueOf?_extended`), and names that are distinct stay distinct (`Distinct.extended`). -/

namespace MessageBroker.Environment

open Text

/-! ### Names and values -/

/-- The characters that a plain name begins with. -/
def firstChars : List Char := "ABCDEFGHIJKLMNOPQRSTUVWXYZabcdefghijklmnopqrstuvwxyz_".toList

/-- The characters that a plain name goes on with. -/
def nameChars : List Char := firstChars ++ "0123456789".toList

/-- The characters of plain values. -/
def valueChars : List Char := nameChars ++ "./:-+".toList

/-- The characters of a plain name. -/
def IsPlainName : List Char → Prop
  | [] => False
  | c :: r => c ∈ firstChars ∧ r ⊆ nameChars

instance : DecidablePred IsPlainName
  | [] => inferInstanceAs (Decidable False)
  | c :: r => inferInstanceAs (Decidable (c ∈ firstChars ∧ r ⊆ nameChars))

/-- A plain value that is assigned to a plain name. -/
structure Assignment where
  name : String
  value : String
  isName : IsPlainName name.toList := by decide +kernel
  isValue : value.toList ⊆ valueChars := by decide +kernel

/-- The characters of a line that assigns a value, without its line break. -/
def Assignment.line (a : Assignment) : List Char := a.name.toList ++ '=' :: a.value.toList

/-- The characters of lines. -/
def lineChars : List Char := '=' :: valueChars

theorem nameChars_subset : nameChars ⊆ lineChars :=
  fun _ hc => List.mem_cons_of_mem _ (List.mem_append_left _ hc)

theorem IsPlainName.exists_cons {l : List Char} (h : IsPlainName l) :
    ∃ c ∈ firstChars, ∃ r ⊆ nameChars, l = c :: r := by
  cases l with
  | nil => exact absurd h not_false
  | cons c r => exact ⟨c, h.1, r, h.2, rfl⟩

theorem IsPlainName.subset {l : List Char} (h : IsPlainName l) : l ⊆ nameChars := by
  obtain ⟨c, hc, r, hr, rfl⟩ := h.exists_cons
  exact List.cons_subset.mpr ⟨List.mem_append_left _ hc, hr⟩

theorem Assignment.line_subset (a : Assignment) : a.line ⊆ lineChars := by
  refine List.append_subset.mpr ⟨List.Subset.trans a.isName.subset nameChars_subset, ?_⟩
  exact List.cons_subset_cons _ a.isValue

theorem Assignment.exists_line_cons (a : Assignment) : ∃ c ∈ firstChars, ∃ r, a.line = c :: r := by
  obtain ⟨c, hc, r, -, hname⟩ := a.isName.exists_cons
  exact ⟨c, hc, r ++ '=' :: a.value.toList, by rw [line, hname, List.cons_append]⟩

theorem isBlank_of_mem {c : Char} (h : c ∈ lineChars) : isBlank c = false := by
  have hall : lineChars.all (fun c => !isBlank c) = true := by decide +kernel
  exact Bool.not_eq_true' _ ▸ List.all_eq_true.mp hall c h

theorem next?_of_mem {c : Char} (h : c ∈ lineChars) : LineState.plain.next? c = some .plain := by
  have hall : lineChars.all (fun c => LineState.plain.next? c = some .plain) = true := by
    decide +kernel
  exact of_decide_eq_true (List.all_eq_true.mp hall c h)

/-- The characters that have a meaning of their own in a value. -/
def markChars : List Char := ['$', '\\', '"', '\'', ' ', '\t', '#']

theorem not_mem_markChars {c : Char} (h : c ∈ lineChars) : c ∉ markChars := by
  have hall : lineChars.all (fun c => !markChars.contains c) = true := by decide +kernel
  have hc := List.all_eq_true.mp hall c h
  intro hmark
  rw [List.contains_iff_mem.mpr hmark] at hc
  cases hc

theorem isNameStart_of_mem {c : Char} (h : c ∈ firstChars) : isNameStart c = true := by
  have hall : firstChars.all isNameStart = true := by decide +kernel
  exact List.all_eq_true.mp hall c h

theorem isNameChar_of_mem {c : Char} (h : c ∈ nameChars) : isNameChar c = true := by
  have hall : nameChars.all isNameChar = true := by decide +kernel
  exact List.all_eq_true.mp hall c h

/-! ### Lines -/

/-- A line break. -/
inductive LineBreak
  | feed
  | returnFeed

/-- The characters of a line break before its last one, the line feed. -/
def LineBreak.front : LineBreak → List Char
  | .feed => []
  | .returnFeed => ['\r']

theorem splitLines_append {l : List Char} (h : '\n' ∉ l) (rest : List Char) :
    splitLines (l ++ '\n' :: rest) = (l ++ ['\n']) :: splitLines rest := by
  induction l with
  | nil => rw [List.nil_append, splitLines, if_pos rfl, List.nil_append]
  | cons c l ih =>
    obtain ⟨hc, hl⟩ := not_or.mp (mt List.mem_cons.mpr h)
    rw [List.cons_append, splitLines, if_neg (Ne.symm hc), ih hl]
    rfl

theorem splitLines_of_not_mem {l : List Char} (h : '\n' ∉ l) (hne : l ≠ []) :
    splitLines l = [l] := by
  induction l with
  | nil => exact absurd rfl hne
  | cons c l ih =>
    obtain ⟨hc, hl⟩ := not_or.mp (mt List.mem_cons.mpr h)
    rw [splitLines, if_neg (Ne.symm hc)]
    cases l with
    | nil => rfl
    | cons d r => rw [ih hl (List.cons_ne_nil d r)]

theorem scanLine_plain {l : List Char} (h : ∀ c ∈ l, LineState.plain.next? c = some .plain) :
    scanLine .plain l = (l, some .plain) := by
  induction l with
  | nil => rfl
  | cons c r ih =>
    obtain ⟨hc, hr⟩ := List.forall_mem_cons.mp h
    rw [scanLine, hc]
    simp only [ih hr]

theorem trimEnd_append {l b : List Char} (hl : ∀ c ∈ l, isBlank c = false)
    (hb : ∀ c ∈ b, isBlank c = true) : trimEnd (l ++ b) = l := by
  have hrest : l.reverse.dropWhile isBlank = l.reverse := by
    rcases hrev : l.reverse with _ | ⟨c, r⟩
    · rfl
    · have hc : c ∈ l := List.mem_reverse.mp (hrev ▸ List.mem_cons_self)
      exact List.dropWhile_cons_of_neg (by simp [hl c hc])
  rw [trimEnd, List.reverse_append, List.dropWhile_append_of_pos fun c hc =>
    hb c (List.mem_reverse.mp hc), hrest, List.reverse_reverse]

/-! ### Assignments -/

theorem readValue_plain (env : Environment) {l : List Char} (value : List Char)
    (h : l ⊆ lineChars) : readValue env false value .plain l = some (value ++ l) := by
  induction l generalizing value with
  | nil => rw [readValue, if_neg Bool.false_ne_true, List.append_nil]
  | cons c r ih =>
    obtain ⟨hc, hr⟩ := List.cons_subset.mp h
    have hmark := not_mem_markChars hc
    simp only [markChars, List.mem_cons, List.not_mem_nil, or_false, not_or] at hmark
    obtain ⟨hdollar, hescape, hdouble, hsingle, hspace, htab, -⟩ := hmark
    rw [readValue, if_neg hdollar, if_neg hescape, if_neg hdouble, if_neg Bool.false_ne_true,
      if_neg hsingle, if_neg (not_or.mpr ⟨hspace, htab⟩), ih _ hr, List.append_assoc,
      List.singleton_append]

theorem readTarget?_line (a : Assignment) :
    readTarget? a.line = some (a.name.toList, a.value.toList) := by
  have hname : readName? a.line = some (a.name.toList, '=' :: a.value.toList) := by
    obtain ⟨c, hc, r, hline⟩ := a.exists_line_cons
    have hall : ∀ d ∈ a.name.toList, isNameChar d = true :=
      fun d hd => isNameChar_of_mem (a.isName.subset hd)
    have htake : a.line.takeWhile isNameChar = a.name.toList := by
      rw [Assignment.line, List.takeWhile_append_of_pos hall]
      exact List.append_nil _
    have hdrop : a.line.dropWhile isNameChar = '=' :: a.value.toList :=
      List.dropWhile_append_of_pos hall
    rw [← htake, ← trimStart_cons (isBlank_of_mem List.mem_cons_self) a.value.toList, ← hdrop,
      hline, readName?, if_pos (isNameStart_of_mem hc)]
  rw [readTarget?, hname]
  rfl

theorem isEmptyOrComment_of_mem {c : Char} (h : c ∈ lineChars) (r : List Char) :
    isEmptyOrComment (c :: r) = false :=
  decide_eq_false fun he => not_mem_markChars h (he ▸ by decide)

theorem trimStart_line (a : Assignment) (b : List Char) :
    trimStart (a.line ++ b) = a.line ++ b ∧ isEmptyOrComment (a.line ++ b) = false ∧
      (a.line ++ b).head? ≠ some '#' := by
  obtain ⟨c, hc, r, hline⟩ := a.exists_line_cons
  have hmem : c ∈ lineChars := nameChars_subset (List.mem_append_left _ hc)
  rw [hline, List.cons_append]
  exact ⟨trimStart_cons (isBlank_of_mem hmem) _, isEmptyOrComment_of_mem hmem _,
    fun he => not_mem_markChars hmem (Option.some.inj he ▸ by decide)⟩

theorem assign?_line (env : Environment) (a : Assignment) {b : List Char}
    (hb : ∀ c ∈ b, isBlank c = true) :
    env.assign? (a.line ++ b) = some (env.setNew a.name a.value) := by
  have hblank : ∀ c ∈ a.line, isBlank c = false := fun c hc => isBlank_of_mem (a.line_subset hc)
  have hsubset : a.value.toList ⊆ lineChars := fun _ hc => List.mem_cons_of_mem _ (a.isValue hc)
  have hvalue : String.ofList a.value.toList = a.value := String.ofList_toList
  obtain ⟨hstart, hcomment, -⟩ := trimStart_line a []
  rw [List.append_nil] at hstart hcomment
  rw [assign?, trimEnd_append hblank hb]
  simp only [hstart, hcomment, readTarget?_line]
  cases hchars : a.value.toList with
  | nil =>
    rw [hchars] at hvalue
    simp [trimStart, isEmptyOrComment, hvalue]
  | cons d l =>
    rw [hchars] at hsubset hvalue
    have hd := hsubset List.mem_cons_self
    simp [trimStart_cons (isBlank_of_mem hd), isEmptyOrComment_of_mem hd,
      readValue_plain env [] hsubset, hvalue]

theorem assignLines_line (env : Environment) (a : Assignment) {b : List Char}
    (hb : b ⊆ ['\r', '\n']) (rest : List (List Char)) :
    assignLines env [] .plain ((a.line ++ b) :: rest) =
      assignLines (env.setNew a.name a.value) [] .plain rest := by
  have hbreak : ∀ c ∈ b, isBlank c = true ∧ LineState.plain.next? c = some .plain := by
    intro c hc
    have hc := hb hc
    simp only [List.mem_cons, List.not_mem_nil, or_false] at hc
    rcases hc with rfl | rfl <;> decide
  have hscan : scanLine .plain (a.line ++ b) = (a.line ++ b, some .plain) :=
    scanLine_plain fun c hc => (List.mem_append.mp hc).elim
      (fun hc => next?_of_mem (a.line_subset hc)) fun hc => (hbreak c hc).2
  have hhead : (trimStart ([] ++ (a.line ++ b))).head? ≠ some '#' := by
    obtain ⟨hstart, -, hhead⟩ := trimStart_line a b
    rw [List.nil_append, hstart]
    exact hhead
  rw [assignLines, if_neg hhead, hscan]
  simp only [List.nil_append, env.assign?_line a fun c hc => (hbreak c hc).1]

/-! ### Files -/

/-- A file of assignments, one a line. Only the last line can lack a line break. -/
structure PlainFile where
  lines : List (Assignment × LineBreak)
  last : Option Assignment

namespace PlainFile

/-- The assignments of a file, in order. -/
def assignments (f : PlainFile) : List Assignment := f.lines.map Prod.fst ++ f.last.toList

/-- The characters of a file. -/
def chars (f : PlainFile) : List Char :=
  (f.lines.flatMap fun (a, b) => a.line ++ b.front ++ ['\n']) ++ (f.last.map (·.line)).getD []

/-- The text of a file. -/
def text (f : PlainFile) : String := String.ofList f.chars

/-- The first value that a file assigns to a name. -/
def valueOf? (f : PlainFile) (name : String) : Option String :=
  (f.assignments.find? (·.name = name)).map (·.value)

end PlainFile

/-- The environment after assignments, each to a name that has no value by then. -/
def setAll (env : Environment) (as : List Assignment) : Environment :=
  as.foldl (fun env a => env.setNew a.name a.value) env

theorem assignLines_chars (f : PlainFile) (env : Environment) :
    assignLines env [] .plain (splitLines f.chars) = env.setAll f.assignments := by
  obtain ⟨lines, last⟩ := f
  induction lines generalizing env with
  | nil =>
    cases last with
    | none => rfl
    | some a =>
      have hline : '\n' ∉ a.line := fun h => absurd (isBlank_of_mem (a.line_subset h)) (by decide)
      obtain ⟨c, -, r, hcons⟩ := a.exists_line_cons
      have hread := env.assignLines_line a (List.nil_subset _) []
      rw [List.append_nil] at hread
      change assignLines env [] .plain (splitLines a.line) = _
      rw [splitLines_of_not_mem hline (hcons ▸ List.cons_ne_nil c r), hread]
      rfl
  | cons line lines ih =>
    obtain ⟨a, b⟩ := line
    have hline : '\n' ∉ a.line ++ b.front := by
      refine List.not_mem_append
        (fun h => absurd (isBlank_of_mem (a.line_subset h)) (by decide)) ?_
      cases b <;> decide
    have hchars : (PlainFile.mk ((a, b) :: lines) last).chars =
        (a.line ++ b.front) ++ '\n' :: (PlainFile.mk lines last).chars := by
      simp [PlainFile.chars]
    rw [hchars, splitLines_append hline, List.append_assoc, env.assignLines_line a, ih]
    · rfl
    · cases b <;> decide

/-- **A plain file sets what its lines assign, in order.** -/
theorem withFile_text (env : Environment) (f : PlainFile) :
    env.withFile f.text = env.setAll f.assignments := by
  have hmark : withoutMark f.chars = f.chars := by
    obtain ⟨lines, last⟩ := f
    have hfirst (a : Assignment) (rest : List Char) :
        withoutMark (a.line ++ rest) = a.line ++ rest := by
      obtain ⟨c, hc, r, hline⟩ := a.exists_line_cons
      rw [hline, List.cons_append, withoutMark, if_neg fun he => absurd (he ▸ hc) (by decide)]
    cases lines with
    | cons line lines =>
      obtain ⟨a, b⟩ := line
      simp only [PlainFile.chars, List.flatMap_cons, List.append_assoc, hfirst]
    | nil =>
      cases last with
      | none => rfl
      | some a => simpa [PlainFile.chars] using hfirst a []
  rw [withFile, PlainFile.text, String.toList_ofList, hmark, assignLines_chars]

/-! ### Values and names afterwards -/

variable {env : Environment}

theorem valueOf?_setNew (env : Environment) (name value other : String) :
    (env.setNew name value).valueOf? other =
      (env.valueOf? other).or (if name = other then some value else none) := by
  rw [setNew]
  split_ifs with hset hname hname
  · subst hname
    obtain ⟨v, hv⟩ := Option.isSome_iff_exists.mp hset
    rw [hv, Option.some_or]
  · rw [Option.or_none]
  · subst hname
    have hnone : env.find? (·.1 = name) = none :=
      Option.map_eq_none_iff.mp (Option.not_isSome_iff_eq_none.mp hset)
    simp [valueOf?, List.find?_append, hnone]
  · simp [valueOf?, List.find?_append, hname]

/-- **The first assignment to a name counts**, if the environment has no value of it. -/
theorem valueOf?_setAll (env : Environment) (as : List Assignment) (name : String) :
    (env.setAll as).valueOf? name =
      (env.valueOf? name).or ((as.find? (·.name = name)).map (·.value)) := by
  induction as generalizing env with
  | nil => simp [setAll]
  | cons a as ih =>
    have hstep : env.setAll (a :: as) = (env.setNew a.name a.value).setAll as := rfl
    rw [hstep, ih, valueOf?_setNew, Option.or_assoc, List.find?_cons]
    by_cases hname : a.name = name <;> simp [hname]

/-- An assignment to a name that has a value, in the environment or by an assignment before, does
nothing. -/
theorem setAll_without {before : List Assignment} {a : Assignment}
    (h : (env.valueOf? a.name).isSome = true ∨ ∃ b ∈ before, b.name = a.name)
    (after : List Assignment) :
    env.setAll (before ++ a :: after) = env.setAll (before ++ after) := by
  have hset : ((env.setAll before).valueOf? a.name).isSome = true := by
    rw [valueOf?_setAll, Option.isSome_or, Option.isSome_map, Bool.or_eq_true, List.find?_isSome]
    simpa using h
  simp only [setAll, List.foldl_append, List.foldl_cons] at hset ⊢
  rw [setNew, if_pos hset]

/-- No name has two values. -/
def Distinct (env : Environment) : Prop := (env.map Prod.fst).Nodup

instance (env : Environment) : Decidable env.Distinct :=
  inferInstanceAs (Decidable (env.map Prod.fst).Nodup)

theorem isSome_valueOf? {name value : String} (h : (name, value) ∈ env) :
    (env.valueOf? name).isSome = true := by
  rw [valueOf?, Option.isSome_map, List.find?_isSome]
  exact ⟨(name, value), h, by simp⟩

theorem Distinct.setNew (h : env.Distinct) (name value : String) :
    (env.setNew name value).Distinct := by
  rw [Environment.setNew]
  split_ifs with hset
  · exact h
  · rw [Distinct, List.map_append]
    refine List.nodup_append.mpr ⟨h, List.nodup_singleton _, fun a ha b hb he => hset ?_⟩
    obtain ⟨entry, hentry, rfl⟩ := List.mem_map.mp ha
    obtain rfl : b = name := List.mem_singleton.mp hb
    have hmem : (b, entry.2) ∈ env := he ▸ hentry
    exact isSome_valueOf? hmem

theorem Distinct.setAll (h : env.Distinct) (as : List Assignment) : (env.setAll as).Distinct := by
  induction as generalizing env with
  | nil => exact h
  | cons a as ih => exact ih (h.setNew a.name a.value)

theorem find?_eq_some_iff_of_nodup {α : Type} {l : List α} {key : α → String}
    (h : (l.map key).Nodup) {k : String} {a : α} :
    (l.find? fun x => key x = k) = some a ↔ a ∈ l ∧ key a = k := by
  constructor
  · intro hfind
    exact ⟨List.mem_of_find?_eq_some hfind, by simpa using List.find?_some hfind⟩
  · rintro ⟨ha, hk⟩
    cases hfind : l.find? fun x => key x = k with
    | none => exact absurd hk (by simpa using List.find?_eq_none.mp hfind a ha)
    | some b =>
      have hb : key b = k := by simpa using List.find?_some hfind
      rw [List.inj_on_of_nodup_map h (List.mem_of_find?_eq_some hfind) ha (hb.trans hk.symm)]

theorem Distinct.mem_iff (h : env.Distinct) {name value : String} :
    (name, value) ∈ env ↔ env.valueOf? name = some value := by
  have hfind (entry : String × String) : (env.find? fun x => x.1 = name) = some entry ↔ _ :=
    find?_eq_some_iff_of_nodup h
  rw [valueOf?, Option.map_eq_some_iff]
  simp only [hfind]
  constructor
  · intro hmem
    exact ⟨(name, value), ⟨hmem, rfl⟩, rfl⟩
  · rintro ⟨entry, ⟨hmem, rfl⟩, rfl⟩
    exact hmem

/-- What a name stands for with an environment and a file, if there is one: its value in the
environment, or else the first that the file assigns. -/
def valueWith? (env : Environment) (file : Option PlainFile) (name : String) : Option String :=
  (env.valueOf? name).or (file.bind fun f => f.valueOf? name)

/-- The environment extended by a file, if there is one. -/
def extended (env : Environment) (file : Option PlainFile) : Environment :=
  match file with
  | none => env
  | some f => env.withFile f.text

theorem valueOf?_extended (env : Environment) (file : Option PlainFile) :
    (env.extended file).valueOf? = env.valueWith? file := by
  funext name
  cases file with
  | none => simp [extended, valueWith?]
  | some f =>
    rw [extended, withFile_text, valueOf?_setAll]
    rfl

theorem Distinct.extended (h : env.Distinct) (file : Option PlainFile) :
    (env.extended file).Distinct := by
  cases file with
  | none => exact h
  | some f =>
    rw [Environment.extended, withFile_text]
    exact h.setAll f.assignments

end MessageBroker.Environment

import MessageBroker.Proofs.Config.Setting

/-! # Which variables decide on the configuration

Variables are read if and only if no two of them name one setting and each has a value that means
something for its part of the configuration (`exists_readVariables_iff`). Then each part is what the
value of its variable means, or else what it was before (`get_of_readVariables`). So only the
variables that name a setting decide on a configuration, with the values that the environment has
for them, or else the first that the environment file assigns (`settings_follow_variables`). -/

namespace MessageBroker.Config

open Environment (PlainFile)

/-! ### Reading variables -/

variable {given : List String} {c c' : Config} {name value : String} {rest env : Environment}

theorem readVariables_skip (h : setting? name = none) :
    readVariables given c ((name, value) :: rest) = readVariables given c rest := by
  rw [setting?] at h
  rw [readVariables]
  cases hstem : afterStem? name with
  | none => rfl
  | some remainder =>
    rw [hstem, Option.bind_some] at h
    simp only [h]

theorem readVariables_step {s : Setting} (h : setting? name = some s) :
    readVariables given c ((name, value) :: rest) = .ok c' ↔
      s.name ∉ given ∧ ∃ c₁, s.read c value = .ok c₁ ∧
        readVariables (s.name :: given) c₁ rest = .ok c' := by
  obtain ⟨remainder, hstem, hfind⟩ := Option.bind_eq_some_iff.mp h
  rw [readVariables, hstem]
  simp only [hfind]
  split_ifs with hgiven
  · simp [hgiven]
  · cases hread : s.read c value <;> simp [hgiven]

theorem setting?_eq_some_of_sets {s : Setting} (hs : s ∈ settings) {p : Part} (hsets : s.Sets p)
    (h : Names name p.name) : setting? name = some s :=
  setting?_eq_some_iff.mpr ⟨hs, hsets.name_eq ▸ h⟩

theorem not_names_of_setting? (h : setting? name = none) {p : Part} (hp : p ∈ parts) :
    ¬Names name p.name := by
  intro hname
  obtain ⟨s, hs, hsets⟩ := exists_setting hp
  rw [setting?_eq_some_of_sets hs hsets hname] at h
  cases h

/-- A variable is that of one part at most. -/
theorem eq_of_names {p q : Part} (hp : p ∈ parts) (hq : q ∈ parts) (hnamep : Names name p.name)
    (hnameq : Names name q.name) : p = q := by
  obtain ⟨s, hs, hsp⟩ := exists_setting hp
  obtain ⟨t, ht, htq⟩ := exists_setting hq
  have hst := (setting?_eq_some_of_sets hs hsp hnamep).symm.trans
    (setting?_eq_some_of_sets ht htq hnameq)
  refine eq_of_name hp hq ?_
  rw [← hsp.name_eq, Option.some.inj hst, htq.name_eq]

/-- The variables that name a setting name none that was given before, and have a value that means
something for its part. -/
def Fresh (given : List String) (env : Environment) : Prop :=
  ∀ v ∈ env, ∀ p ∈ parts, Names v.1 p.name → p.name ∉ given ∧ ∃ a, p.Means v.2 a

theorem fresh_cons_iff {p : Part} (hp : p ∈ parts) :
    Fresh (p.name :: given) env ↔ (∀ v ∈ env, ¬Names v.1 p.name) ∧ Fresh given env := by
  constructor
  · intro h
    refine ⟨fun v hv hname => (h v hv p hp hname).1 List.mem_cons_self, fun v hv q hq hname => ?_⟩
    obtain ⟨hnot, hvalue⟩ := h v hv q hq hname
    exact ⟨fun hmem => hnot (List.mem_cons_of_mem _ hmem), hvalue⟩
  · rintro ⟨hnone, h⟩ v hv q hq hname
    obtain ⟨hnot, hvalue⟩ := h v hv q hq hname
    refine ⟨fun hmem => ?_, hvalue⟩
    rcases List.mem_cons.mp hmem with he | hmem
    · exact hnone v hv (he ▸ hname)
    · exact hnot hmem

/-- Two variables do not name one setting. -/
def Apart (v w : String × String) : Prop := ∀ p ∈ parts, Names v.1 p.name → ¬Names w.1 p.name

instance : Std.Symm Apart := ⟨fun _ _ h p hp hnamew hnamev => h p hp hnamev hnamew⟩

/-- **When variables are read**: none names a setting that was given before, or the same as a later
one, and each has a value that means something. -/
theorem exists_readVariables_iff :
    (∃ c', readVariables given c env = .ok c') ↔ Fresh given env ∧ env.Pairwise Apart := by
  induction env generalizing given c with
  | nil => exact iff_of_true ⟨c, rfl⟩ ⟨fun v hv => absurd hv List.not_mem_nil, .nil⟩
  | cons v rest ih =>
    obtain ⟨name, value⟩ := v
    rw [Fresh, List.forall_mem_cons, List.pairwise_cons]
    cases hsetting : setting? name with
    | none =>
      have hnone : ∀ p ∈ parts, ¬Names name p.name := fun p hp => not_names_of_setting? hsetting hp
      simp only [readVariables_skip hsetting, ih]
      constructor
      · rintro ⟨hfresh, hpairs⟩
        exact ⟨⟨fun p hp hname => absurd hname (hnone p hp), hfresh⟩,
          fun w _ p hp hname => absurd hname (hnone p hp), hpairs⟩
      · rintro ⟨⟨-, hfresh⟩, -, hpairs⟩
        exact ⟨hfresh, hpairs⟩
    | some s =>
      obtain ⟨hs, hname⟩ := setting?_eq_some_iff.mp hsetting
      obtain ⟨p, hp, hsets⟩ := exists_part hs
      have hnamep : Names name p.name := hsets.name_eq ▸ hname
      simp only [readVariables_step hsetting, hsets.name_eq]
      constructor
      · rintro ⟨c', hgiven, c₁, hread, hrest⟩
        obtain ⟨hfresh, hpairs⟩ := ih.mp ⟨c', hrest⟩
        obtain ⟨hlater, hfresh⟩ := (fresh_cons_iff hp).mp hfresh
        refine ⟨⟨fun q hq hnameq => ?_, hfresh⟩, fun w hw q hq hnameq => ?_, hpairs⟩
        · obtain rfl := eq_of_names hp hq hnamep hnameq
          exact ⟨hgiven, (hsets.isOk_iff c value).mp ⟨c₁, hread⟩⟩
        · obtain rfl := eq_of_names hp hq hnamep hnameq
          exact hlater w hw
      · rintro ⟨⟨hfirst, hfresh⟩, hlater, hpairs⟩
        obtain ⟨hgiven, hvalue⟩ := hfirst p hp hnamep
        obtain ⟨c₁, hread⟩ := (hsets.isOk_iff c value).mpr hvalue
        have hfresh' : Fresh (p.name :: given) rest :=
          (fresh_cons_iff hp).mpr ⟨fun w hw => hlater w hw p hp hnamep, hfresh⟩
        obtain ⟨c', hrest⟩ := (ih (c := c₁)).mpr ⟨hfresh', hpairs⟩
        exact ⟨c', hgiven, c₁, hread, hrest⟩

/-- **What is read**: a part is what the value of its variable means, of which there was none
before, and without a variable it stays as it was. -/
theorem get_of_readVariables {p : Part} (hp : p ∈ parts)
    (h : readVariables given c env = .ok c') :
    (∀ v ∈ env, Names v.1 p.name → p.name ∉ given ∧ p.Means v.2 (p.get c')) ∧
      ((∀ v ∈ env, ¬Names v.1 p.name) → p.get c' = p.get c) := by
  induction env generalizing given c with
  | nil =>
    obtain rfl : c = c' := Except.ok.inj h
    exact ⟨fun v hv => absurd hv List.not_mem_nil, fun _ => rfl⟩
  | cons v rest ih =>
    obtain ⟨name, value⟩ := v
    rw [List.forall_mem_cons, List.forall_mem_cons]
    cases hsetting : setting? name with
    | none =>
      rw [readVariables_skip hsetting] at h
      obtain ⟨hmeans, hkept⟩ := ih h
      exact ⟨⟨fun hname => absurd hname (not_names_of_setting? hsetting hp), hmeans⟩,
        fun hall => hkept hall.2⟩
    | some s =>
      obtain ⟨hgiven, c₁, hread, hrest⟩ := (readVariables_step hsetting).mp h
      obtain ⟨hmeans, hkept⟩ := ih hrest
      obtain ⟨hs, hname⟩ := setting?_eq_some_iff.mp hsetting
      obtain ⟨t, ht, htp⟩ := exists_setting hp
      by_cases hown : s.name = p.name
      · -- this variable is the part's, so no later one is, and the part stays as read here
        obtain rfl : s = t := Option.some.inj
          (hsetting.symm.trans (setting?_eq_some_of_sets ht htp (hown ▸ hname)))
        have hlater : ∀ w ∈ rest, ¬Names w.1 p.name := fun w hw hnamew =>
          (hmeans w hw hnamew).1 (hown ▸ List.mem_cons_self)
        refine ⟨⟨fun _ => ⟨hown ▸ hgiven, ?_⟩, fun w hw hnamew => absurd hnamew (hlater w hw)⟩,
          fun hall => absurd (hown ▸ hname) hall.1⟩
        rw [hkept hlater]
        exact htp.means hread
      · have hother : ¬Names name p.name := fun hnamep => hown <| by
          have hst := hsetting.symm.trans (setting?_eq_some_of_sets ht htp hnamep)
          rw [Option.some.inj hst, htp.name_eq]
        refine ⟨⟨fun hnamep => absurd hnamep hother, fun w hw hnamew => ?_⟩, fun hall => ?_⟩
        · obtain ⟨hnot, hvalue⟩ := hmeans w hw hnamew
          exact ⟨fun hmem => hnot (List.mem_cons_of_mem _ hmem), hvalue⟩
        · rw [hkept hall.2, keeps_of_ne hs hp hown c value c₁ hread]

/-! ### Loading -/

/-- The variables can be read: no two of them name one setting, and each that names one has a value
that means something for its part of the configuration. -/
structure Readable (IsNameOf : String → String → Prop) (valueOf? : String → Option String) :
    Prop where
  once : ∀ p ∈ parts, ∀ name name', IsNameOf name p.name → IsNameOf name' p.name →
    (valueOf? name).isSome = true → (valueOf? name').isSome = true → name = name'
  meaningful : ∀ p ∈ parts, ∀ name value, IsNameOf name p.name → valueOf? name = some value →
    ∃ a, p.Means value a

/-- The variables give the configuration: each of its parts is what the value of its variable means,
or the default if there is no such variable. -/
def Gives (IsNameOf : String → String → Prop) (valueOf? : String → Option String) (c : Config) :
    Prop :=
  ∀ p ∈ parts,
    (∀ name value, IsNameOf name p.name → valueOf? name = some value → p.Means value (p.get c)) ∧
    ((∀ name, IsNameOf name p.name → valueOf? name = none) → p.get c = p.default)

theorem exists_ofEnvironment_iff (h : env.Distinct) :
    (∃ c, ofEnvironment env = .ok c) ↔ Readable Names env.valueOf? := by
  rw [show (∃ c, ofEnvironment env = .ok c) ↔ _ from exists_readVariables_iff]
  constructor
  · rintro ⟨hmeans, hpairs⟩
    refine ⟨fun p hp name name' hname hname' hvalue hvalue' => ?_,
      fun p hp name value hname hvalue =>
        (hmeans (name, value) (h.mem_iff.mpr hvalue) p hp hname).2⟩
    obtain ⟨value, hvalue⟩ := Option.isSome_iff_exists.mp hvalue
    obtain ⟨value', hvalue'⟩ := Option.isSome_iff_exists.mp hvalue'
    by_contra hne
    exact hpairs.forall (h.mem_iff.mpr hvalue) (h.mem_iff.mpr hvalue')
      (fun he => hne (congrArg Prod.fst he)) p hp hname hname'
  · rintro ⟨honce, hmeaningful⟩
    refine ⟨fun v hv p hp hname => ⟨List.not_mem_nil, hmeaningful p hp v.1 v.2 hname
      (h.mem_iff.mp hv)⟩, ?_⟩
    refine (List.pairwise_map.mp h).imp_of_mem fun hv hw hne p hp hnamev hnamew => hne ?_
    exact honce p hp _ _ hnamev hnamew (Environment.isSome_valueOf? hv)
      (Environment.isSome_valueOf? hw)

theorem gives_of_ofEnvironment (h : env.Distinct) (hc : ofEnvironment env = .ok c) :
    Gives Names env.valueOf? c := by
  intro p hp
  obtain ⟨hmeans, hkept⟩ := get_of_readVariables hp hc
  refine ⟨fun name value hname hvalue => (hmeans _ (h.mem_iff.mpr hvalue) hname).2, fun hnone => ?_⟩
  rw [← get_default hp]
  refine hkept fun v hv hname => ?_
  have hsome := Environment.isSome_valueOf? hv
  rw [hnone v.1 hname] at hsome
  cases hsome

theorem Gives.eq {valueOf? : String → Option String} (h : Gives Names valueOf? c)
    (h' : Gives Names valueOf? c') : c = c' := by
  refine eq_of_parts fun p hp => ?_
  by_cases hnone : ∀ name, Names name p.name → valueOf? name = none
  · rw [(h p hp).2 hnone, (h' p hp).2 hnone]
  · push Not at hnone
    obtain ⟨name, hname, hne⟩ := hnone
    obtain ⟨value, hvalue⟩ := Option.ne_none_iff_exists'.mp hne
    exact p.eq_of_means ((h p hp).1 name value hname hvalue) ((h' p hp).1 name value hname hvalue)

theorem ofEnvironment_eq_ok_iff (h : env.Distinct) :
    ofEnvironment env = .ok c ↔ Readable Names env.valueOf? ∧ Gives Names env.valueOf? c := by
  constructor
  · intro hc
    exact ⟨(exists_ofEnvironment_iff h).mp ⟨c, hc⟩, gives_of_ofEnvironment h hc⟩
  · rintro ⟨hreadable, hgives⟩
    obtain ⟨c', hc'⟩ := (exists_ofEnvironment_iff h).mpr hreadable
    rw [hc', (gives_of_ofEnvironment h hc').eq hgives]

theorem load_text (env : Environment) (file : Option PlainFile) :
    load env (file.map PlainFile.text) = ofEnvironment (env.extended file) := by
  cases file <;> rfl

theorem exists_load_iff (h : env.Distinct) (file : Option PlainFile) :
    (∃ c, load env (file.map PlainFile.text) = .ok c) ↔ Readable Names (env.valueWith? file) := by
  rw [load_text, exists_ofEnvironment_iff (h.extended file), Environment.valueOf?_extended]

theorem load_eq_ok_iff (h : env.Distinct) (file : Option PlainFile) :
    load env (file.map PlainFile.text) = .ok c ↔
      Readable Names (env.valueWith? file) ∧ Gives Names (env.valueWith? file) c := by
  rw [load_text, ofEnvironment_eq_ok_iff (h.extended file), Environment.valueOf?_extended]

theorem load_without {f f' : PlainFile} {before after : List Environment.Assignment}
    {a : Environment.Assignment} (hf : f.assignments = before ++ a :: after)
    (hf' : f'.assignments = before ++ after)
    (h : (env.valueOf? a.name).isSome = true ∨ ∃ b ∈ before, b.name = a.name) :
    load env (some f.text) = load env (some f'.text) := by
  have hsame : env.setAll f.assignments = env.setAll f'.assignments := by
    rw [hf, hf', Environment.setAll_without h]
  rw [load, load]
  simp only [Environment.withFile_text, hsame]

/-! ### What does not count -/

section Agreement
variable {valueOf? valueOf?' : String → Option String}
  (h : ∀ p ∈ parts, ∀ name, Names name p.name → valueOf? name = valueOf?' name)
include h

theorem Readable.congr (hreadable : Readable Names valueOf?) : Readable Names valueOf?' where
  once p hp name name' hname hname' hsome hsome' :=
    hreadable.once p hp name name' hname hname' (h p hp name hname ▸ hsome)
      (h p hp name' hname' ▸ hsome')
  meaningful p hp name value hname hvalue :=
    hreadable.meaningful p hp name value hname ((h p hp name hname).trans hvalue)

theorem Gives.congr (hgives : Gives Names valueOf? c) : Gives Names valueOf?' c := fun p hp =>
  ⟨fun name value hname hvalue =>
    (hgives p hp).1 name value hname ((h p hp name hname).trans hvalue),
  fun hnone => (hgives p hp).2 fun name hname => (h p hp name hname).trans (hnone name hname)⟩

end Agreement

/-- **The configuration follows the variables that name its settings.** An environment and a file
are loaded if and only if no two names with values are names of one setting, and each that is a name
of a setting has a value that means something for it. Then each part of the configuration is what
that value means, or the default if there is none. So the configuration is the same with other
variables that agree on the names of settings, and the same without an assignment to a name that
already has a value. -/
theorem settings_follow_variables (env : Environment) (file : Option PlainFile)
    (h : env.Distinct) :
    ((∃ c, load env (file.map PlainFile.text) = .ok c) ↔
      Readable Names (env.valueWith? file)) ∧
    (∀ c, load env (file.map PlainFile.text) = .ok c → Gives Names (env.valueWith? file) c) ∧
    (∀ (env' : Environment) (file' : Option PlainFile), env'.Distinct →
      (∀ p ∈ parts, ∀ name, Names name p.name →
        env.valueWith? file name = env'.valueWith? file' name) →
      ∀ c, load env (file.map PlainFile.text) = .ok c ↔
        load env' (file'.map PlainFile.text) = .ok c) ∧
    ∀ (f f' : PlainFile) before a after, f.assignments = before ++ a :: after →
      f'.assignments = before ++ after →
      ((env.valueOf? a.name).isSome = true ∨ ∃ b ∈ before, b.name = a.name) →
      load env (some f.text) = load env (some f'.text) := by
  refine ⟨exists_load_iff h file, fun c hc => ((load_eq_ok_iff h file).mp hc).2,
    fun env' file' h' hagree c => ?_, fun f f' before a after => load_without⟩
  have hagree' : ∀ p ∈ parts, ∀ name, Names name p.name →
      env'.valueWith? file' name = env.valueWith? file name :=
    fun p hp name hname => (hagree p hp name hname).symm
  rw [load_eq_ok_iff h file, load_eq_ok_iff h' file']
  exact ⟨fun ⟨hreadable, hgives⟩ => ⟨hreadable.congr hagree, hgives.congr hagree⟩,
    fun ⟨hreadable, hgives⟩ => ⟨hreadable.congr hagree', hgives.congr hagree'⟩⟩

/-- An environment in which a port is given, and a host in mixed case. -/
def mixedEnvironment : Environment :=
  [("HOME", "/root"), ("ROWMQ_PORT", "+9000"), ("ROWMQ_Host", "::1")]

/-- A file that gives the port once more, and twice that of the metrics. -/
def mixedFile : PlainFile where
  lines := [({ name := "ROWMQ_PORT", value := "x" }, .feed),
    ({ name := "ROWMQ_metrics_port", value := "09100" }, .returnFeed)]
  last := some { name := "ROWMQ_metrics_port", value := "1" }

/-- The port is that of the environment, and that of the metrics the first of the file. -/
theorem mixedFile_loads : mixedEnvironment.Distinct ∧
    Readable Names (mixedEnvironment.valueWith? (some mixedFile)) ∧
    ∃ c, load mixedEnvironment (some mixedFile.text) = .ok c ∧
      Gives Names (mixedEnvironment.valueWith? (some mixedFile)) c ∧
      c = { Config.default with host := "::1", port := 9000, metricsPort := 9100 } := by
  have hdistinct : mixedEnvironment.Distinct := by decide
  have hload : load mixedEnvironment (some mixedFile.text) =
      .ok { Config.default with host := "::1", port := 9000, metricsPort := 9100 } := by
    decide +kernel
  obtain ⟨hreadable, hgives, -, -⟩ :=
    settings_follow_variables mixedEnvironment (some mixedFile) hdistinct
  exact ⟨hdistinct, hreadable.mp ⟨_, hload⟩, _, hload, hgives _ hload, rfl⟩

/-- A variable whose name has two copies of the stem. -/
def repeatedStem (value : String) : Environment := [("ROWMQ_ROWMQ_PORT", value)]

/-- After a single copy of its stem the variable has the name of no setting. -/
theorem valueWith?_repeatedStem {p : Part} (hp : p ∈ parts) (hname : NamesAfter 1 name p.name) :
    (repeatedStem value).valueWith? none name = none := by
  have hnone : ∀ setting ∈ parts.map Part.name, ¬NamesAfter 1 "ROWMQ_ROWMQ_PORT" setting := by
    decide +kernel
  have hne : "ROWMQ_ROWMQ_PORT" ≠ name := by
    rintro rfl
    exact hnone p.name (List.mem_map_of_mem hp) hname
  simp [Environment.valueWith?, repeatedStem, Environment.valueOf?, hne]

/-- **A repeated stem counts as one.** If only one copy of it were taken away, the variable would
name no setting, so whatever its value is would be passed over and the port would be the default. -/
theorem repeatedStem_counts :
    ((repeatedStem "1").Distinct ∧
      load (repeatedStem "1") none = .ok { Config.default with port := 1 } ∧
      ¬Gives (NamesAfter 1) ((repeatedStem "1").valueWith? none)
        { Config.default with port := 1 }) ∧
    (repeatedStem "x").Distinct ∧
      Readable (NamesAfter 1) ((repeatedStem "x").valueWith? none) ∧
      ¬∃ c, load (repeatedStem "x") none = .ok c := by
  refine ⟨⟨List.nodup_singleton _, by decide +kernel, fun hgives => ?_⟩, List.nodup_singleton _,
    ?_, ?_⟩
  · have hport : Part.number "port" (2 ^ 16) 8000 (fun c => c.port.toNat) ∈ parts :=
      .tail _ (.tail _ (.head _))
    have hdefault : (1 : Nat) = 8000 :=
      (hgives _ hport).2 fun name hname => valueWith?_repeatedStem hport hname
    cases hdefault
  · constructor
    · intro p hp name name' hname _ hsome _
      rw [valueWith?_repeatedStem hp hname] at hsome
      cases hsome
    · intro p hp name value hname hvalue
      rw [valueWith?_repeatedStem hp hname] at hvalue
      cases hvalue
  · have herror : load (repeatedStem "x") none = .error (.number .invalidDigit "x" "PORT") := by
      decide +kernel
    rintro ⟨c, hc⟩
    rw [herror] at hc
    cases hc

end MessageBroker.Config

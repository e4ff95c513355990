import MessageBroker.Config.Basic
import MessageBroker.Proofs.Config.PlainFile
import MessageBroker.Proofs.Text.Decimal

/-! # Settings and the parts of the configuration

A variable names a setting if its name is that of the setting, in any case, after one or more copies
of the stem (`setting?_eq_some_iff`); the case of letters outside of ASCII makes no difference
(`find?_lowered`). The configuration has eight parts (`parts`), each of which one setting gives
(`forall₂_sets`) and no other changes (`keeps_of_ne`). -/

namespace MessageBroker.Config

open Text Text.Decimal

/-! ### The names of variables -/

/-- A name of the setting's variable: after copies of the stem, as many as given, comes the name of
the setting in any case. -/
def NamesAfter (copies : Nat) (name setting : String) : Prop :=
  ∃ rest, name.toList = (List.replicate copies stem).flatten ++ rest ∧
    rest.map Char.toLower = setting.toList

/-- A name of the setting's variable, with one or more copies of the stem. -/
def Names (name setting : String) : Prop := ∃ copies, NamesAfter (copies + 1) name setting

theorem namesAfter_iff {copies : Nat} {name setting : String} :
    NamesAfter copies name setting ↔ (List.replicate copies stem).flatten <+: name.toList ∧
      (name.toList.drop (List.replicate copies stem).flatten.length).map Char.toLower =
        setting.toList := by
  constructor
  · rintro ⟨rest, hname, hrest⟩
    rw [hname, List.drop_left]
    exact ⟨List.prefix_append _ _, hrest⟩
  · rintro ⟨⟨rest, hname⟩, hrest⟩
    rw [← hname, List.drop_left] at hrest
    exact ⟨rest, hname.symm, hrest⟩

instance (copies : Nat) (name setting : String) : Decidable (NamesAfter copies name setting) :=
  decidable_of_iff _ namesAfter_iff.symm

theorem flatten_copies_succ (copies : Nat) :
    (List.replicate (copies + 1) stem).flatten = stem ++ (List.replicate copies stem).flatten := by
  rw [List.replicate_succ, List.flatten_cons]

theorem exists_dropStems (most : Nat) (l : List Char) :
    ∃ copies, l = (List.replicate copies stem).flatten ++ dropStems most l := by
  induction most generalizing l with
  | zero => exact ⟨0, rfl⟩
  | succ most ih =>
    rw [dropStems]
    split_ifs with hstem
    · obtain ⟨r, rfl⟩ := List.isPrefixOf_iff_prefix.mp hstem
      obtain ⟨copies, hcopies⟩ := ih r
      refine ⟨copies + 1, ?_⟩
      rw [List.drop_left, flatten_copies_succ, List.append_assoc, ← hcopies]
    · exact ⟨0, rfl⟩

theorem dropStems_append {copies most : Nat} (hle : copies ≤ most) {rest : List Char}
    (hrest : ¬stem <+: rest) :
    dropStems most ((List.replicate copies stem).flatten ++ rest) = rest := by
  induction copies generalizing most with
  | zero =>
    cases most with
    | zero => rfl
    | succ most => exact if_neg (mt List.isPrefixOf_iff_prefix.mp hrest)
  | succ copies ih =>
    obtain ⟨most, rfl⟩ := Nat.exists_eq_add_of_le' (Nat.one_le_of_lt hle)
    have hstem := List.isPrefixOf_iff_prefix.mpr
      (List.prefix_append stem ((List.replicate copies stem).flatten ++ rest))
    rw [flatten_copies_succ, List.append_assoc, dropStems, if_pos hstem, List.drop_left]
    exact ih (Nat.le_of_succ_le_succ hle)

theorem exists_of_afterStem? {name rest : String} (h : afterStem? name = some rest) :
    ∃ copies, name.toList = (List.replicate (copies + 1) stem).flatten ++ rest.toList := by
  rw [afterStem?] at h
  split_ifs at h with hstem
  obtain ⟨r, hr⟩ := List.isPrefixOf_iff_prefix.mp hstem
  have hlength : name.length ≠ 0 := by
    rw [← String.length_toList, ← hr]
    simp [stem]
  obtain ⟨most, hmost⟩ := Nat.exists_eq_succ_of_ne_zero hlength
  obtain ⟨copies, hcopies⟩ := exists_dropStems most r
  refine ⟨copies, ?_⟩
  have hrest : rest.toList = dropStems most r := by
    rw [← Option.some.inj h, String.toList_ofList, hmost, ← hr, dropStems,
      if_pos (hr ▸ hstem), List.drop_left]
  rw [hrest, flatten_copies_succ, List.append_assoc, ← hcopies, hr]

theorem afterStem?_of_copies {name : String} {copies : Nat} {rest : List Char}
    (hname : name.toList = (List.replicate (copies + 1) stem).flatten ++ rest)
    (hrest : ¬stem <+: rest) : afterStem? name = some (String.ofList rest) := by
  have hstem : stem.isPrefixOf name.toList = true := by
    rw [hname, flatten_copies_succ, List.append_assoc]
    exact List.isPrefixOf_iff_prefix.mpr (List.prefix_append _ _)
  have hle : copies + 1 ≤ name.length := by
    rw [← String.length_toList, hname, List.length_append, List.length_flatten,
      List.map_replicate, List.sum_replicate_nat]
    have hlength : stem.length = 6 := rfl
    rw [hlength]
    omega
  rw [afterStem?, if_pos hstem, hname, dropStems_append hle hrest]

/-! ### Settings -/

/-- The setting that a variable names, if any. -/
def setting? (name : String) : Option Setting :=
  (afterStem? name).bind fun rest => settings.find? fun s => s.name = lower rest

theorem nodup_settings : (settings.map Setting.name).Nodup := by decide

theorem not_stem_prefix {s : Setting} (hs : s ∈ settings) :
    ¬stem.map Char.toLower <+: s.name.toList := by
  have hall : ∀ name ∈ settings.map Setting.name, ¬stem.map Char.toLower <+: name.toList := by
    decide +kernel
  exact hall s.name (List.mem_map_of_mem hs)

theorem lower_eq_iff {rest name : String} :
    name = lower rest ↔ rest.toList.map Char.toLower = name.toList := by
  rw [lower, eq_comm, ← String.toList_inj, String.toList_ofList]

/-- **A variable names a setting** by the setting's name, in any case, after copies of the stem. -/
theorem setting?_eq_some_iff {name : String} {s : Setting} :
    setting? name = some s ↔ s ∈ settings ∧ Names name s.name := by
  have hfind (rest : String) : (settings.find? fun s => s.name = lower rest) = some s ↔ _ :=
    Environment.find?_eq_some_iff_of_nodup nodup_settings
  rw [setting?, Option.bind_eq_some_iff]
  simp only [hfind]
  constructor
  · rintro ⟨rest, hrest, hs, hname⟩
    obtain ⟨copies, hcopies⟩ := exists_of_afterStem? hrest
    exact ⟨hs, copies, rest.toList, hcopies, lower_eq_iff.mp hname⟩
  · rintro ⟨hs, copies, rest, hcopies, hname⟩
    -- no setting's name has the stem in front, so all copies of it have been dropped
    have hrest : ¬stem <+: rest := fun h => not_stem_prefix hs (hname ▸ h.map Char.toLower)
    refine ⟨String.ofList rest, afterStem?_of_copies hcopies hrest, hs, ?_⟩
    rw [lower_eq_iff, String.toList_ofList, hname]

/-! ### Letters of all scripts

The case of ASCII letters alone decides which setting a variable names: the lower case of other
characters is in no setting's name. -/

/-- What lower case can make of a character. Outside of ASCII only the Kelvin sign becomes an ASCII
text, the letter k. -/
def Lowers (c : Char) (l : List Char) : Prop :=
  if c.toNat < 128 then l = [c.toLower] else l = ['k'] ∨ ∃ d ∈ l, 128 ≤ d.toNat

/-- A character that is in no setting's name. -/
def Foreign (c : Char) : Prop := c = 'k' ∨ 128 ≤ c.toNat

theorem not_foreign {s : Setting} (hs : s ∈ settings) {c : Char} (hc : c ∈ s.name.toList) :
    ¬Foreign c := by
  have hall : (settings.all fun s =>
      s.name.toList.all fun c => c != 'k' && c.toNat < 128) = true := by decide +kernel
  have hchar := List.all_eq_true.mp (List.all_eq_true.mp hall s hs) c hc
  simpa [Foreign, not_or] using hchar

theorem toLower_of_le {c : Char} (h : 128 ≤ c.toNat) : c.toLower = c := by
  refine dif_neg fun hupper => ?_
  have hle : c.toNat ≤ 'Z'.toNat := UInt32.le_iff_toNat_le.mp hupper.2
  exact absurd (h.trans hle) (by decide)

theorem lowered_cases {l : List Char} {lowered : List (List Char)}
    (h : List.Forall₂ Lowers l lowered) : lowered.flatten = l.map Char.toLower ∨
      (∃ d ∈ lowered.flatten, Foreign d) ∧ ∃ d ∈ l.map Char.toLower, Foreign d := by
  induction h with
  | nil => exact .inl rfl
  | @cons c m l lowered hc _ ih =>
    rw [List.flatten_cons, List.map_cons]
    rw [Lowers] at hc
    split_ifs at hc with hascii
    · subst hc
      rcases ih with heq | ⟨⟨d, hd, hforeign⟩, d', hd', hforeign'⟩
      · exact .inl (by rw [heq]; rfl)
      · exact .inr ⟨⟨d, List.mem_append_right _ hd, hforeign⟩,
          d', List.mem_cons_of_mem _ hd', hforeign'⟩
    · have hle : 128 ≤ c.toNat := Nat.le_of_not_lt hascii
      refine .inr ⟨?_, c.toLower, List.mem_cons_self, .inr ((toLower_of_le hle).symm ▸ hle)⟩
      rcases hc with rfl | ⟨d, hd, hforeign⟩
      · exact ⟨'k', List.mem_cons_self, .inl rfl⟩
      · exact ⟨d, List.mem_append_left _ hd, .inr hforeign⟩

theorem find?_of_foreign {l : List Char} (h : ∃ d ∈ l, Foreign d) :
    (settings.find? fun s => s.name = String.ofList l) = none := by
  refine List.find?_eq_none.mpr fun s hs hname => ?_
  obtain ⟨d, hd, hforeign⟩ := h
  refine not_foreign hs ?_ hforeign
  rw [of_decide_eq_true hname, String.toList_ofList]
  exact hd

/-- **Lower case in all scripts finds the same setting** as in ASCII alone. -/
theorem find?_lowered {rest : String} {lowered : List (List Char)}
    (h : List.Forall₂ Lowers rest.toList lowered) :
    (settings.find? fun s => s.name = String.ofList lowered.flatten) =
      settings.find? fun s => s.name = lower rest := by
  rw [lower]
  rcases lowered_cases h with heq | ⟨hlowered, hrest⟩
  · rw [heq]
  · rw [find?_of_foreign hlowered, find?_of_foreign hrest]

/-! ### Parts of the configuration -/

/-- A part of the configuration: the name of its setting, what values mean for it, its default, and
what it is in a configuration. -/
structure Part where
  name : String
  Value : Type
  Means : String → Value → Prop
  default : Value
  get : Config → Value
  eq_of_means : ∀ {value a b}, Means value a → Means value b → a = b

/-- A part that is a text. -/
def Part.text (name default : String) (get : Config → String) : Part where
  name := name
  Value := String
  Means value s := value = s
  default := default
  get := get
  eq_of_means ha hb := ha.symm.trans hb

/-- A part that is a number below a bound. -/
def Part.number (name : String) (bound default : Nat) (get : Config → Nat) : Part where
  name := name
  Value := Nat
  Means value n := IsNumeral value n ∧ n < bound
  default := default
  get := get
  eq_of_means ha hb := ha.1.eq hb.1

/-- The parts of the configuration. -/
def parts : List Part :=
  [.text "db_path" "rowmq.db" fun c => c.dbPath,
    .text "host" "0.0.0.0" fun c => c.host,
    .number "port" (2 ^ 16) 8000 fun c => c.port.toNat,
    .number "max_connections" (2 ^ 32) 5 fun c => c.maxConnections.toNat,
    .number "queue_max_number_of_messages" (2 ^ 32) 10 fun c => c.queueMaxNumberOfMessages.toNat,
    .number "shutdown_timeout_seconds" (2 ^ 64) 5 fun c => c.shutdownTimeoutSeconds.toNat,
    .text "metrics_host" "0.0.0.0" fun c => c.metricsHost,
    .number "metrics_port" (2 ^ 16) 9090 fun c => c.metricsPort.toNat]

theorem eq_of_parts {c c' : Config} (h : ∀ p ∈ parts, p.get c = p.get c') : c = c' := by
  simp only [parts, List.forall_mem_cons] at h
  obtain ⟨hpath, hhost, hport, hconnections, hmost, htimeout, hmetrics, hmetricsPort, -⟩ := h
  cases c
  cases c'
  simp only [Config.mk.injEq]
  exact ⟨hpath, hhost, UInt16.toNat_inj.mp hport, UInt32.toNat_inj.mp hconnections,
    UInt32.toNat_inj.mp hmost, UInt64.toNat_inj.mp htimeout, hmetrics,
    UInt16.toNat_inj.mp hmetricsPort⟩

theorem get_default {p : Part} (hp : p ∈ parts) : p.get Config.default = p.default := by
  revert p
  simp only [parts, List.forall_mem_cons]
  exact ⟨rfl, rfl, rfl, rfl, rfl, rfl, rfl, rfl, fun _ h => absurd h List.not_mem_nil⟩

/-- A setting gives a part: it reads the values that mean something for the part, as what they
mean. -/
structure Setting.Sets (s : Setting) (p : Part) : Prop where
  name_eq : s.name = p.name
  isOk_iff : ∀ c value, (∃ c', s.read c value = .ok c') ↔ ∃ a, p.Means value a
  means : ∀ {c value c'}, s.read c value = .ok c' → p.Means value (p.get c')

/-- A setting does not change a part. -/
def Setting.Keeps (s : Setting) (p : Part) : Prop :=
  ∀ c value c', s.read c value = .ok c' → p.get c' = p.get c

section Kinds
variable {name default : String} {bound n : Nat} {p : Part}

theorem sets_text {get : Config → String} {set : Config → String → Config}
    (h : ∀ c s, get (set c s) = s) : (Setting.text name set).Sets (.text name default get) where
  name_eq := rfl
  isOk_iff c value := ⟨fun _ => ⟨value, rfl⟩, fun _ => ⟨set c value, rfl⟩⟩
  means hread := by
    cases hread
    exact (h _ _).symm

theorem exists_of_read_number {set : Config → Nat → Config} {c c' : Config} {value : String}
    (h : (Setting.number name bound set).read c value = .ok c') :
    ∃ n, Decimal.read (bound - 1) value = .ok n ∧ set c n = c' := by
  change (Decimal.read (bound - 1) value).map (set c) = .ok c' at h
  cases hread : Decimal.read (bound - 1) value with
  | error problem => rw [hread] at h; cases h
  | ok n =>
    rw [hread] at h
    exact ⟨n, rfl, Except.ok.inj h⟩

theorem sets_number {get : Config → Nat} {set : Config → Nat → Config} (hbound : 0 < bound)
    (h : ∀ c, ∀ n < bound, get (set c n) = n) :
    (Setting.number name bound set).Sets (.number name bound n get) where
  name_eq := rfl
  isOk_iff c value := by
    constructor
    · rintro ⟨c', hread⟩
      obtain ⟨n, hn, -⟩ := exists_of_read_number hread
      obtain ⟨hnumeral, hle⟩ := read_eq_ok_iff.mp hn
      exact ⟨n, hnumeral, by omega⟩
    · rintro ⟨n, hnumeral, hlt⟩
      have hn : Decimal.read (bound - 1) value = .ok n :=
        read_eq_ok_iff.mpr ⟨hnumeral, Nat.le_sub_one_of_lt hlt⟩
      exact ⟨set c n, by simp only [Setting.number, hn, Except.map]⟩
  means hread := by
    obtain ⟨n, hn, rfl⟩ := exists_of_read_number hread
    obtain ⟨hnumeral, hle⟩ := read_eq_ok_iff.mp hn
    have hlt : n < bound := by omega
    change IsNumeral _ (get (set _ n)) ∧ get (set _ n) < bound
    rw [h _ n hlt]
    exact ⟨hnumeral, hlt⟩

theorem keeps_text {set : Config → String → Config} (h : ∀ c s, p.get (set c s) = p.get c) :
    (Setting.text name set).Keeps p := by
  intro c value c' hread
  cases hread
  exact h c value

theorem keeps_number {set : Config → Nat → Config} (h : ∀ c n, p.get (set c n) = p.get c) :
    (Setting.number name bound set).Keeps p := by
  intro c value c' hread
  obtain ⟨n, -, rfl⟩ := exists_of_read_number hread
  exact h c n

end Kinds

/-- **Each setting gives a part of the configuration.** -/
theorem forall₂_sets : List.Forall₂ Setting.Sets settings parts :=
  .cons (sets_text fun _ _ => rfl) <|
  .cons (sets_text fun _ _ => rfl) <|
  .cons (sets_number (by decide) fun _ _ h => UInt16.toNat_ofNat_of_lt' h) <|
  .cons (sets_number (by decide) fun _ _ h => UInt32.toNat_ofNat_of_lt' h) <|
  .cons (sets_number (by decide) fun _ _ h => UInt32.toNat_ofNat_of_lt' h) <|
  .cons (sets_number (by decide) fun _ _ h => UInt64.toNat_ofNat_of_lt' h) <|
  .cons (sets_text fun _ _ => rfl) <|
  .cons (sets_number (by decide) fun _ _ h => UInt16.toNat_ofNat_of_lt' h) .nil

theorem exists_part {s : Setting} (hs : s ∈ settings) : ∃ p ∈ parts, s.Sets p := by
  have hzip : s ∈ (settings.zip parts).map Prod.fst := by
    rw [List.map_fst_zip forall₂_sets.length_eq.le]
    exact hs
  obtain ⟨⟨_, p⟩, hmem, rfl⟩ := List.mem_map.mp hzip
  exact ⟨p, (List.of_mem_zip hmem).2, List.forall₂_zip forall₂_sets hmem⟩

theorem exists_setting {p : Part} (hp : p ∈ parts) : ∃ s ∈ settings, s.Sets p := by
  have hzip : p ∈ (settings.zip parts).map Prod.snd := by
    rw [List.map_snd_zip forall₂_sets.length_eq.ge]
    exact hp
  obtain ⟨⟨s, _⟩, hmem, rfl⟩ := List.mem_map.mp hzip
  exact ⟨s, (List.of_mem_zip hmem).1, List.forall₂_zip forall₂_sets hmem⟩

theorem eq_of_name {p q : Part} (hp : p ∈ parts) (hq : q ∈ parts) (h : p.name = q.name) :
    p = q := List.inj_on_of_nodup_map (by decide) hp hq h

/-- **A setting changes no part but its own.** -/
theorem keeps_of_ne {s : Setting} (hs : s ∈ settings) {p : Part} (hp : p ∈ parts)
    (hne : s.name ≠ p.name) : s.Keeps p := by
  simp only [settings, List.mem_cons, List.not_mem_nil, or_false] at hs
  simp only [parts, List.mem_cons, List.not_mem_nil, or_false] at hp
  rcases hs with rfl | rfl | rfl | rfl | rfl | rfl | rfl | rfl <;>
    rcases hp with rfl | rfl | rfl | rfl | rfl | rfl | rfl | rfl <;>
    first
    | exact absurd rfl hne
    | exact keeps_text fun _ _ => rfl
    | exact keeps_number fun _ _ => rfl

end MessageBroker.Config

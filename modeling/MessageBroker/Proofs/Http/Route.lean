import MessageBroker.Http.Request
import MessageBroker.Proofs.Text.Bytes

/-! # The route of a path

`Instantiates` is the form of the paths that match a pattern, and `parameters?` finds their values
(`parameters?_eq_some_iff`). A scope may hide services after it: what its pattern begins, they do
not get. `unshadowed` services hide nothing, as the patterns after a scope are apart from its own.
Then the nested services select the route that a flat list of all whole patterns does
(`select?_eq_findSome?`), and as the routes of one method are apart from each other, a route is
selected if and only if the path instantiates its pattern (`endpoint?_eq_some_iff`).

Segments are what stands after the slashes of a path (`join_segments`). In a path of slashes and
characters of identifiers nothing is escaped, so the parameters of a request are segments of its
path as it was sent (`HasPlainPath.endpoint?_eq_some_iff`). -/

namespace MessageBroker.Http

/-! ### Patterns -/

/-- The segments of a path are those of a pattern, with values that are not empty in place of its
parameters. -/
inductive Instantiates : List Segment → List String → List String → Prop
  | nil : Instantiates [] [] []
  | word (w : String) {pattern : List Segment} {values path : List String}
    (h : Instantiates pattern values path) : Instantiates (.word w :: pattern) values (w :: path)
  | parameter (name : String) {s : String} (hs : s ≠ "") {pattern : List Segment}
    {values path : List String} (h : Instantiates pattern values path) :
    Instantiates (.parameter name :: pattern) (s :: values) (s :: path)

theorem parameters?_eq_some_iff {pattern : List Segment} {values path : List String} :
    parameters? pattern path = some values ↔ Instantiates pattern values path := by
  constructor
  · intro h
    induction pattern, path using parameters?.induct generalizing values with
    | case1 => cases h; exact .nil
    | case2 pattern s path ih =>
      rw [parameters?, if_pos rfl] at h
      exact .word s (ih h)
    | case3 w pattern s path hne => simp only [parameters?, if_neg hne, reduceCtorEq] at h
    | case4 name pattern path => simp only [parameters?, if_pos, reduceCtorEq] at h
    | case5 name pattern s path hs ih =>
      rw [parameters?, if_neg hs] at h
      obtain ⟨rest, hrest, rfl⟩ := Option.map_eq_some_iff.mp h
      exact .parameter name hs (ih hrest)
    | case6 => simp_all [parameters?]
  · intro h
    induction h with
    | nil => rfl
    | word w _ ih => rw [parameters?, if_pos rfl, ih]
    | parameter name hs _ ih => rw [parameters?, if_neg hs, ih]; rfl

/-- A path matches a pattern and what follows it if it begins with the one and goes on as the
other. -/
theorem parameters?_append (outer pattern : List Segment) (path : List String) :
    parameters? (outer ++ pattern) path = (enter? outer path).bind fun (values, rest) =>
      (parameters? pattern rest).map (values ++ ·) := by
  induction outer generalizing path with
  | nil => simp [enter?]
  | cons segment outer ih =>
    cases path with
    | nil => cases segment <;> rfl
    | cons s path =>
      cases segment with
      | word w =>
        simp only [List.cons_append, parameters?, enter?, ih]
        split <;> rfl
      | parameter name =>
        simp only [List.cons_append, parameters?, enter?, ih]
        split
        · rfl
        · cases enter? outer path <;> simp [Function.comp_def]

/-! ### Patterns that exclude each other -/

/-- No path that begins as the one pattern says matches the other. -/
def apart : List Segment → List Segment → Bool
  | [], _ => false
  | _ :: _, [] => true
  | .word a :: pattern, .word b :: pattern' => a != b || apart pattern pattern'
  | _ :: pattern, _ :: pattern' => apart pattern pattern'

theorem Instantiates.enter?_eq_none {pattern outer : List Segment} {values path : List String}
    (h : Instantiates pattern values path) (hapart : apart outer pattern = true) :
    enter? outer path = none := by
  induction h generalizing outer with
  | nil =>
    cases outer with
    | nil => cases hapart
    | cons segment outer => cases segment <;> rfl
  | @word w pattern _ _ _ ih =>
    cases outer with
    | nil => cases hapart
    | cons segment outer =>
      cases segment with
      | word a =>
        rw [enter?]
        split_ifs with ha
        · refine ih ?_
          simpa [apart, ha] using hapart
        · rfl
      | parameter name =>
        rw [enter?, ih hapart]
        split <;> rfl
  | @parameter name s hs pattern _ _ _ ih =>
    have htail (segment : Segment) (outer : List Segment)
        (h : apart (segment :: outer) (.parameter name :: pattern) = true) :
        apart outer pattern = true := by
      cases segment <;> exact h
    cases outer with
    | nil => cases hapart
    | cons segment outer =>
      cases segment with
      | word a => rw [enter?, ih (htail _ _ hapart), ite_self]
      | parameter name' => rw [enter?, ih (htail _ _ hapart)]; simp

theorem enter?_of_parameters? {pattern : List Segment} {values path : List String}
    (h : parameters? pattern path = some values) : enter? pattern path = some (values, []) := by
  have happend := parameters?_append pattern [] path
  rw [List.append_nil, h] at happend
  obtain ⟨⟨outer, rest⟩, henter, hrest⟩ := Option.bind_eq_some_iff.mp happend.symm
  rw [henter]
  cases rest with
  | nil => simpa [parameters?] using hrest
  | cons s rest => simp [parameters?] at hrest

theorem parameters?_eq_none_of_apart {pattern pattern' : List Segment} {values path : List String}
    (h : parameters? pattern path = some values)
    (hapart : (apart pattern pattern' || apart pattern' pattern) = true) :
    parameters? pattern' path = none := by
  cases h' : parameters? pattern' path with
  | none => rfl
  | some values' =>
    exfalso
    rcases Bool.or_eq_true_iff.mp hapart with happ | happ
    · have := (parameters?_eq_some_iff.mp h').enter?_eq_none happ
      rw [enter?_of_parameters? h] at this
      cases this
    · have := (parameters?_eq_some_iff.mp h).enter?_eq_none happ
      rw [enter?_of_parameters? h'] at this
      cases this

/-! ### Nested services -/

/-- What a route makes of a path: its endpoint, if it has the method and the pattern matches. -/
def Route.take? (method : String) (path : List String) (r : Route) :
    Option (Endpoint × List String) :=
  if r.method = method then (parameters? r.pattern path).map (r.endpoint, ·) else none

/-- A route with its pattern under another one. -/
def Route.under (outer : List Segment) (r : Route) : Route :=
  { r with pattern := outer ++ r.pattern }

/-- Whether a service leaves all paths of a route to the services after it. A resource does, as it
keeps no path that it does not answer. -/
def Service.spares : Service → Route → Bool
  | .resource .., _ => true
  | .scope pattern _, r => apart pattern r.pattern

mutual

/-- Whether within a service nothing is hidden. -/
def Service.unshadowed : Service → Bool
  | .resource .. => true
  | .scope _ inner => Http.unshadowed inner

/-- Whether services spare those after them. -/
def unshadowed : List Service → Bool
  | [] => true
  | s :: rest => s.unshadowed && (routesUnder [] rest).all s.spares && unshadowed rest

end

theorem Route.under_under (outer inner : List Segment) :
    Route.under outer ∘ Route.under inner = Route.under (outer ++ inner) := by
  funext r
  simp [Route.under]

mutual

theorem Service.routes_eq_map (outer : List Segment) :
    ∀ s : Service, s.routes outer = (s.routes []).map (Route.under outer)
  | .resource .. => rfl
  | .scope pattern inner => by
    rw [Service.routes, Service.routes, routesUnder_eq_map (outer ++ pattern) inner,
      routesUnder_eq_map ([] ++ pattern) inner, List.map_map, Route.under_under, List.nil_append]

theorem routesUnder_eq_map (outer : List Segment) :
    ∀ l : List Service, routesUnder outer l = (routesUnder [] l).map (Route.under outer)
  | [] => rfl
  | s :: rest => by
    rw [routesUnder, routesUnder, s.routes_eq_map outer, routesUnder_eq_map outer rest,
      List.map_append]

end

section Dispatch

variable {method : String} {path : List String}

theorem Route.take?_under (outer : List Segment) (r : Route) :
    (r.under outer).take? method path = (enter? outer path).bind fun (values, rest) =>
      (r.take? method rest).map fun (endpoint, inner) => (endpoint, values ++ inner) := by
  simp only [Route.take?, Route.under, parameters?_append]
  cases enter? outer path with
  | none => simp
  | some entered =>
    simp only [Option.bind_some]
    split_ifs
    · cases parameters? r.pattern entered.2 <;> rfl
    · rfl

/-- The routes under a pattern are found by what follows the pattern. -/
theorem findSome?_under (outer : List Segment) (l : List Route) :
    (l.map (Route.under outer)).findSome? (Route.take? method path) =
      (enter? outer path).bind fun (values, rest) =>
        (l.findSome? (Route.take? method rest)).map fun (endpoint, inner) =>
          (endpoint, values ++ inner) := by
  induction l with
  | nil => cases enter? outer path <;> rfl
  | cons r l ih =>
    rw [List.map_cons, List.findSome?_cons, Route.take?_under, ih]
    cases enter? outer path with
    | none => rfl
    | some entered =>
      simp only [Option.bind_some, List.findSome?_cons]
      cases r.take? method entered.2 <;> rfl

theorem Route.take?_eq_none_of_apart {outer : List Segment} {r : Route}
    (henter : (enter? outer path).isSome = true) (hapart : apart outer r.pattern = true) :
    r.take? method path = none := by
  rw [Route.take?]
  split_ifs
  · cases hvalues : parameters? r.pattern path with
    | none => rfl
    | some values =>
      rw [(parameters?_eq_some_iff.mp hvalues).enter?_eq_none hapart] at henter
      cases henter
  · rfl

mutual

/-- A service that hides nothing takes a path as its routes do, and leaves the others to those after
it. -/
theorem Service.take?_getD (path : List String) : ∀ (s : Service) (_ : s.unshadowed = true)
    (later : List Route) (_ : later.all s.spares = true),
    (s.take? method path).getD (later.findSome? (Route.take? method path)) =
      (s.routes [] ++ later).findSome? (Route.take? method path)
  | .resource served pattern endpoint, _, later, _ => by
    rw [Service.routes, List.nil_append, List.singleton_append, List.findSome?_cons, Service.take?,
      Route.take?]
    split_ifs
    · cases parameters? pattern path <;> rfl
    · rfl
  | .scope pattern inner, h, later, hlater => by
    have hinner (rest : List String) := select?_eq_findSome? rest inner h
    rw [Service.routes, List.nil_append, routesUnder_eq_map, List.findSome?_append,
      findSome?_under, Service.take?]
    cases henter : enter? pattern path with
    | none => rfl
    | some entered =>
      obtain ⟨values, rest⟩ := entered
      have hnone : later.findSome? (Route.take? method path) = none := by
        refine List.findSome?_eq_none_iff.mpr fun r hr => ?_
        have hsome : (enter? pattern path).isSome = true := by rw [henter]; rfl
        exact Route.take?_eq_none_of_apart hsome (List.all_eq_true.mp hlater r hr)
      simp only [hnone, Option.or_none, Option.map_some, Option.getD_some, Option.bind_some, hinner]

/-- **Services that hide nothing select as the flat list of their routes does.** -/
theorem select?_eq_findSome? (path : List String) : ∀ (l : List Service) (_ : unshadowed l = true),
    select? method l path = (routesUnder [] l).findSome? (Route.take? method path)
  | [], _ => rfl
  | s :: rest, h => by
    simp only [unshadowed, Bool.and_eq_true] at h
    obtain ⟨⟨hs, hspares⟩, hrest⟩ := h
    rw [select?, select?_eq_findSome? path rest hrest, routesUnder,
      Service.take?_getD path s hs _ hspares]

end

end Dispatch

/-! ### The routes of the broker -/

theorem unshadowed_services : unshadowed services = true := by decide

theorem pairwise_routes : routes.Pairwise fun r r' => r.method = r'.method →
    (apart r.pattern r'.pattern || apart r'.pattern r.pattern) = true := by
  decide

theorem findSome?_eq_of_mem {α β : Type} {f : α → Option β} {l : List α} {a : α} {b : β}
    (hl : l.Pairwise fun x y => f x = none ∨ f y = none) (ha : a ∈ l) (hb : f a = some b) :
    l.findSome? f = some b := by
  induction l with
  | nil => cases ha
  | cons x l ih =>
    obtain ⟨hx, hl⟩ := List.pairwise_cons.mp hl
    rw [List.findSome?_cons]
    rcases List.mem_cons.mp ha with rfl | ha
    · rw [hb]
    · have hnone : f x = none := (hx a ha).resolve_right (by rw [hb]; exact Option.some_ne_none b)
      rw [hnone]
      exact ih hl ha

theorem pairwise_take? (method : String) (path : List String) :
    routes.Pairwise fun r r' => r.take? method path = none ∨ r'.take? method path = none := by
  refine pairwise_routes.imp fun {r r'} hapart => ?_
  rw [Route.take?, Route.take?]
  split_ifs with hr hr'
  · cases hvalues : parameters? r.pattern path with
    | none => exact .inl rfl
    | some values =>
      rw [parameters?_eq_none_of_apart hvalues (hapart (hr.trans hr'.symm))]
      exact .inr rfl
  · exact .inr rfl
  · exact .inl rfl
  · exact .inl rfl

/-- **A route is selected if and only if the path instantiates its pattern.** -/
theorem endpoint?_eq_some_iff {method path : String} {e : Endpoint} {values : List String} :
    endpoint? method path = some (e, values) ↔ ∃ r ∈ routes, r.method = method ∧ r.endpoint = e ∧
      Instantiates r.pattern values (segments path) := by
  have htake {r : Route} : r.take? method (segments path) = some (e, values) ↔
      r.method = method ∧ r.endpoint = e ∧ Instantiates r.pattern values (segments path) := by
    rw [← parameters?_eq_some_iff, Route.take?]
    split_ifs with hm
    · simp [hm, and_comm]
    · simp [hm]
  rw [endpoint?, select?_eq_findSome? _ _ unshadowed_services]
  constructor
  · intro h
    obtain ⟨r, hr, hvalues⟩ := List.exists_of_findSome?_eq_some h
    exact ⟨r, hr, htake.mp hvalues⟩
  · rintro ⟨r, hr, hvalues⟩
    exact findSome?_eq_of_mem (pairwise_take? method (segments path)) hr (htake.mpr hvalues)

/-! ### Paths without escapes -/

theorem mem_of_mem_splitSlashes {l part : List Char} (hpart : part ∈ splitSlashes l) {c : Char}
    (hc : c ∈ part) : c ∈ l ∧ c ≠ '/' := by
  induction l generalizing part with
  | nil =>
    rw [splitSlashes, List.mem_singleton] at hpart
    subst hpart
    cases hc
  | cons a l ih =>
    have hlater {part : List Char} (hpart : part ∈ splitSlashes l) (hc : c ∈ part) :
        c ∈ a :: l ∧ c ≠ '/' := ⟨List.mem_cons_of_mem a (ih hpart hc).1, (ih hpart hc).2⟩
    rw [splitSlashes] at hpart
    split_ifs at hpart with ha
    · rcases List.mem_cons.mp hpart with rfl | hpart
      · cases hc
      · exact hlater hpart hc
    · cases hparts : splitSlashes l with
      | nil =>
        rw [hparts, List.mem_singleton] at hpart
        subst hpart
        rw [List.mem_singleton] at hc
        exact ⟨hc ▸ List.mem_cons_self, hc ▸ ha⟩
      | cons first parts =>
        rw [hparts] at hpart hlater
        rcases List.mem_cons.mp hpart with rfl | hpart
        · rcases List.mem_cons.mp hc with rfl | hc
          · exact ⟨List.mem_cons_self, ha⟩
          · exact hlater List.mem_cons_self hc
        · exact hlater (List.mem_cons_of_mem first hpart) hc

theorem mem_of_mem_segments {path s : String} (hs : s ∈ segments path) {c : Char}
    (hc : c ∈ s.toList) : c ∈ path.toList ∧ c ≠ '/' := by
  rw [segments] at hs
  split at hs
  · next parts hparts =>
    obtain ⟨part, hpart, rfl⟩ := List.mem_map.mp hs
    rw [String.toList_ofList] at hc
    exact mem_of_mem_splitSlashes (hparts ▸ List.mem_cons_of_mem [] hpart) hc
  · cases hs

theorem flatMap_splitSlashes (l : List Char) :
    (splitSlashes l).flatMap (fun part => '/' :: part) = '/' :: l := by
  induction l with
  | nil => rfl
  | cons a l ih =>
    rw [splitSlashes]
    split_ifs with ha
    · rw [List.flatMap_cons, ih, ha]
      rfl
    · cases hparts : splitSlashes l with
      | nil => simp [hparts] at ih
      | cons first parts =>
        rw [hparts] at ih
        simp only [List.flatMap_cons, List.cons_append, List.cons.injEq, true_and] at ih ⊢
        exact ih

theorem join_segments {path : String} (h : segments path ≠ []) :
    String.join ((segments path).map ("/" ++ ·)) = path := by
  have hsplit := flatMap_splitSlashes path.toList
  rw [segments] at h ⊢
  split
  · next parts hparts =>
    rw [hparts] at hsplit
    refine String.toList_injective ?_
    rw [String.toList_join, List.map_map, List.flatMap_map]
    have htext (part : List Char) : ("/" ++ String.ofList part).toList = '/' :: part := by
      rw [String.toList_append, String.toList_ofList, String.toList_ofList]
      rfl
    simp only [Function.comp_apply, htext]
    rw [List.flatMap_cons, List.singleton_append] at hsplit
    exact List.tail_eq_of_cons_eq hsplit
  · simp at h

theorem Instantiates.mem_path {pattern : List Segment} {values path : List String}
    (h : Instantiates pattern values path) {v : String} (hv : v ∈ values) : v ∈ path := by
  induction h with
  | nil => exact hv
  | word w _ ih => exact List.mem_cons_of_mem w (ih hv)
  | @parameter name s _ _ _ _ _ ih =>
    rcases List.mem_cons.mp hv with rfl | hv
    · exact List.mem_cons_self
    · exact List.mem_cons_of_mem s (ih hv)

/-- Characters of ASCII other than the percent sign. -/
def Unescaped (l : List Char) : Prop := ∀ c ∈ l, c.toNat < 128 ∧ c ≠ '%'

open Text Percent in
theorem decode_append (keep : UInt8 → Bool) {l : List UInt8} (h : 0x25 ∉ l) (r : List UInt8) :
    decode keep (l ++ r) = l ++ decode keep r := by
  induction l with
  | nil => rfl
  | cons b l ih =>
    have hb : b ≠ 0x25 := fun hb => h (hb ▸ List.mem_cons_self)
    rw [List.cons_append, decode.eq_2 keep b (l ++ r) fun _ _ _ hb' _ => hb hb',
      ih fun hl => h (List.mem_cons_of_mem b hl), List.cons_append]

open Text in
theorem lossyChars_encode_append {l : List Char} (h : IsAscii l) (r : List UInt8) :
    lossyChars (encode l ++ r) = l ++ lossyChars r := by
  induction l with
  | nil => rfl
  | cons c l ih =>
    have hc : c.toNat < 128 := h c List.mem_cons_self
    have hnat : (UInt8.ofNat c.toNat).toNat = c.toNat :=
      UInt8.toNat_ofNat_of_lt' (Nat.lt_trans hc (by decide))
    have hbyte : UInt8.ofNat c.toNat < 0x80 := by
      rw [UInt8.lt_iff_toNat_lt, hnat]
      exact hc
    rw [encode_cons, utf8EncodeChar_of_ascii hc, List.singleton_append, List.cons_append,
      lossyChars.eq_def]
    simp only [if_pos hbyte, hnat, Char.ofNat_toNat]
    rw [ih fun d hd => h d (List.mem_cons_of_mem c hd), List.cons_append]

open Text Percent in
theorem decodeText_append (keep : UInt8 → Bool) {s : String} (h : Unescaped s.toList)
    (t : String) : decodeText keep (s ++ t) = s ++ decodeText keep t := by
  have hascii : IsAscii s.toList := fun c hc => (h c hc).1
  have hescape : 0x25 ∉ encode s.toList := by
    intro hmem
    obtain ⟨c, hc, hb⟩ := List.mem_flatMap.mp hmem
    obtain ⟨hlt, hne⟩ := h c hc
    rw [utf8EncodeChar_of_ascii hlt, List.mem_singleton] at hb
    refine hne ?_
    have hnat := congrArg UInt8.toNat hb
    rw [UInt8.toNat_ofNat_of_lt' (Nat.lt_trans hlt (by decide))] at hnat
    rw [← Char.ofNat_toNat c, ← hnat]
    rfl
  have hbytes : bytes (s ++ t) = encode s.toList ++ bytes t := by
    rw [bytes_eq_encode, String.toList_append, encode_append, bytes_eq_encode]
  rw [decodeText, hbytes, decode_append keep hescape, lossy, lossyChars_encode_append hascii,
    String.ofList_append, String.ofList_toList]
  rfl

open Text Percent in
theorem decodeText_eq (keep : UInt8 → Bool) {s : String} (h : Unescaped s.toList) :
    decodeText keep s = s := by
  have happend := decodeText_append keep h ""
  rwa [String.append_empty, show decodeText keep "" = "" from rfl, String.append_empty] at happend

theorem unescaped_isIdChar {c : Char} (h : c = '/' ∨ isIdChar c = true) :
    c.toNat < 128 ∧ c ≠ '%' := by
  rcases h with rfl | h
  · decide
  · constructor
    · have hnat : c.val.toNat = c.toNat := rfl
      simp only [isIdChar, Bool.or_eq_true, Bool.and_eq_true, decide_eq_true_eq, Char.le_def,
        UInt32.le_iff_toNat_le, hnat] at h
      rcases h with ((((⟨-, h⟩ | ⟨-, h⟩) | ⟨-, h⟩) | rfl) | rfl) | rfl
      · exact Nat.lt_of_le_of_lt h (by decide)
      · exact Nat.lt_of_le_of_lt h (by decide)
      · exact Nat.lt_of_le_of_lt h (by decide)
      · decide
      · decide
      · decide
    · rintro rfl
      cases h

namespace Request

/-- The path consists of slashes and characters of identifiers. -/
def HasPlainPath (r : Request) : Prop := ∀ c ∈ r.path.toList, c = '/' ∨ isIdChar c = true

variable {r : Request}

theorem HasPlainPath.decodedPath_eq (h : r.HasPlainPath) : r.decodedPath = r.path :=
  decodeText_eq keepsEscape fun c hc => unescaped_isIdChar (h c hc)

/-- **A request is for a route if and only if its path, as it was sent, instantiates the
pattern.** -/
theorem HasPlainPath.endpoint?_eq_some_iff (h : r.HasPlainPath) {e : Endpoint}
    {values : List String} : r.endpoint? = some (e, values) ↔
      ∃ route ∈ routes, route.method = r.method ∧ route.endpoint = e ∧
        Instantiates route.pattern values (segments r.path) := by
  have hsame {e : Endpoint} {values : List String}
      (hvalues : Http.endpoint? r.method r.path = some (e, values)) :
      values.map (Text.Percent.decodeText fun _ => false) = values := by
    obtain ⟨route, -, -, -, hinst⟩ := Http.endpoint?_eq_some_iff.mp hvalues
    refine (List.map_congr_left fun v hv => ?_).trans (List.map_id values)
    refine decodeText_eq _ fun c hc => unescaped_isIdChar (h c ?_)
    exact (mem_of_mem_segments (hinst.mem_path hv) hc).1
  rw [← Http.endpoint?_eq_some_iff, Request.endpoint?, h.decodedPath_eq, Option.map_eq_some_iff]
  constructor
  · rintro ⟨⟨e', values'⟩, hfound, heq⟩
    simp only [hsame hfound] at heq
    rw [hfound, heq]
  · intro hfound
    exact ⟨(e, values), hfound, Prod.ext rfl (hsame hfound)⟩

end Request

end MessageBroker.Http


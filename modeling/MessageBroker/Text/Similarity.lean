/-! # Similarity of texts

The Jaro similarity of two texts, as an exact fraction. Two characters match if they are equal and
about as far from the start; the similarity is the mean of the share of matching characters in each
text and of the share of matches that are in the same order in both. -/

namespace MessageBroker.Text

/-- A fraction. -/
structure Ratio where
  num : Nat
  den : Nat
  deriving DecidableEq

/-- Order of fractions. -/
def Ratio.le (a b : Ratio) : Bool := a.num * b.den ≤ b.num * a.den

/-- The first place not yet used, from `first` to before `last`, where a character stands. -/
def matchingPlace (c : Char) (b : List Char) (used : List Nat) (first last : Nat) : Option Nat :=
  (List.range last).find? fun j => first ≤ j && b[j]? = some c && !used.contains j

/-- The characters that match one in `b`, and the places that they match, in their order. -/
def matchesIn (b : List Char) (range : Nat) : Nat → List Nat → List Char → List Char × List Nat
  | _, used, [] => ([], used)
  | i, used, c :: r =>
    match matchingPlace c b used (i - range) (min b.length (i + range + 1)) with
    | none => matchesIn b range (i + 1) used r
    | some j =>
      match matchesIn b range (i + 1) (j :: used) r with
      | (matched, used) => (c :: matched, used)

/-- The similarity of two texts. -/
def similarity (s t : String) : Ratio :=
  let a := s.toList
  let b := t.toList
  if a.isEmpty && b.isEmpty then ⟨1, 1⟩
  else
    let (matched, used) := matchesIn b (max a.length b.length / 2 - 1) 0 [] a
    let m := matched.length
    if m = 0 then ⟨0, 1⟩
    else
      let other := (List.range b.length).filterMap fun j => if used.contains j then b[j]? else none
      let swapped := ((matched.zip other).filter fun (c, d) => c ≠ d).length / 2
      ⟨m * m * b.length + m * m * a.length + (m - swapped) * a.length * b.length,
        3 * m * a.length * b.length⟩

/-- Those of some words that are similar to a text, the most similar last. -/
def similarWords (s : String) (words : List String) : List String :=
  let scored := words.map fun w => (similarity s w, w)
  let close := scored.filter fun (score, _) => !score.le ⟨7, 10⟩
  (close.mergeSort fun a b => a.1.le b.1).map (·.2)

end MessageBroker.Text

import MessageBroker.Text.Order
import MessageBroker.Text.Utf8

/-! # Percent encoding

`decode keep` replaces each `%` with two hexadecimal digits by the byte they name, unless `keep`
holds of that byte; any other `%` stands for itself. `formPairs` splits a query into its
parameters, in which a plus sign stands for a space. -/

namespace MessageBroker.Text.Percent

/-- The value of a hexadecimal digit. -/
def hexValue? (b : UInt8) : Option UInt8 :=
  if 0x30 ≤ b && b ≤ 0x39 then some (b - 0x30)
  else if 0x41 ≤ b && b ≤ 0x46 then some (b - 0x37)
  else if 0x61 ≤ b && b ≤ 0x66 then some (b - 0x57)
  else none

/-- The byte that two hexadecimal digits name. -/
def octet? (high low : UInt8) : Option UInt8 :=
  match hexValue? high, hexValue? low with
  | some h, some l => some (h * 16 + l)
  | _, _ => none

/-- Bytes with every escape decoded, except of a byte in `keep`. -/
def decode (keep : UInt8 → Bool) : List UInt8 → List UInt8
  | 0x25 :: high :: low :: r =>
    match octet? high low with
    | some b => if keep b then 0x25 :: decode keep (high :: low :: r) else b :: decode keep r
    | none => 0x25 :: decode keep (high :: low :: r)
  | b :: r => b :: decode keep r
  | [] => []

/-- A text with every escape decoded, except of a byte in `keep`. -/
def decodeText (keep : UInt8 → Bool) (s : String) : String := lossy (decode keep (bytes s))

/-- One name or value of a query. -/
def formValue (s : List UInt8) : String :=
  lossy (decode (fun _ => false) (s.map fun b => if b == 0x2B then 0x20 else b))

/-- The parts of a list between the elements equal to `sep`. -/
def splitAll (sep : UInt8) : List UInt8 → List (List UInt8)
  | [] => [[]]
  | b :: r =>
    if b == sep then [] :: splitAll sep r
    else match splitAll sep r with
      | [] => [[b]]
      | part :: parts => (b :: part) :: parts

/-- The parameters of a query, in order. -/
def formPairs (query : String) : List (String × String) :=
  ((splitAll 0x26 (bytes query)).filter fun part => !part.isEmpty).map fun part =>
    (formValue (part.takeWhile (· != 0x3D)), formValue ((part.dropWhile (· != 0x3D)).drop 1))

end MessageBroker.Text.Percent

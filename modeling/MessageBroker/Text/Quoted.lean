import MessageBroker.Text.Printable

/-! # Quoted texts

The form in which a message shows a text from outside: between double quotes, on one line, with an
escape for each quote, backslash and character that is not printable. -/

namespace MessageBroker.Text

/-- A character as it appears between quotes. -/
def escaped (c : Char) : List Char :=
  if c = '"' then ['\\', '"']
  else if c = '\\' then ['\\', '\\']
  else if c = '\n' then ['\\', 'n']
  else if c = '\r' then ['\\', 'r']
  else if c = '\t' then ['\\', 't']
  else if c = Char.ofNat 0 then ['\\', '0']
  else if isPrintable c then [c]
  else ['\\', 'u', '\x7b'] ++ Nat.toDigits 16 c.toNat ++ ['\x7d']

/-- A text between quotes. -/
def quoted (s : String) : String :=
  String.ofList (['"'] ++ s.toList.flatMap escaped ++ ['"'])

end MessageBroker.Text

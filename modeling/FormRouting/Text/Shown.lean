import FormRouting.Text.Unprintable

/-!
# Strings as shown in messages

A string between quotes on one line. Quotes, backslashes and line ends are
escaped, and so is every character that cannot be shown by itself.
-/

namespace FormRouting

/-- A character inside a shown string. -/
def showChar (c : Char) : List Char :=
  if c = '"' then ['\\', '"']
  else if c = '\\' then ['\\', '\\']
  else if c = '\n' then ['\\', 'n']
  else if c = '\r' then ['\\', 'r']
  else if c = '\t' then ['\\', 't']
  else if c = '\x00' then ['\\', '0']
  else if isUnprintable c then "\\u\x7b".toList ++ Nat.toDigits 16 c.toNat ++ ['\x7d']
  else [c]

def showString (s : String) : String := "\"" ++ String.ofList (s.toList.flatMap showChar) ++ "\""

end FormRouting

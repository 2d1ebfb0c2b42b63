import QueryMachine.Text.CodePoint

/-!
# Quoted strings

A string shown inside double quotes, as jump markers and the source form of
string literals show it. The quote and the backslash get a backslash; the four
common controls have a letter; every other character that has no shape of its
own is written by its code point.
-/

namespace QueryMachine.Text

/-- A number in lower-case hexadecimal, without padding. -/
def hex (n : Nat) : List Char :=
  Nat.toDigits 16 n

/-- A character as it stands between quotes. -/
def quoteChar (c : Char) : List Char :=
  if c = '"' then ['\\', '"']
  else if c = '\\' then ['\\', '\\']
  else if c = '\x00' then ['\\', '0']
  else if c = '\t' then ['\\', 't']
  else if c = '\r' then ['\\', 'r']
  else if c = '\n' then ['\\', 'n']
  else if isShapeless c then ['\\', 'u', '\x7b'] ++ hex c.toNat ++ ['\x7d']
  else [c]

/-- A string between double quotes. -/
def quoted (s : String) : String :=
  String.ofList ('"' :: s.toList.flatMap quoteChar ++ ['"'])

end QueryMachine.Text

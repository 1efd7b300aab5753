import Prompter.Text.Printable

/-!
# Prompter.Text.Quoted

Text between double quotes, for descriptions of values that people read in logs: quotes,
backslashes and line ends are escaped with a backslash, and a character that cannot be shown as it
is, or that would attach itself to its neighbour, by its code point in braces.
-/

namespace Prompter.Text

/-- The text of a character between quotes. -/
def quoteChar (c : Char) : List Char :=
  if c = '"' then ['\\', '"']
  else if c = '\\' then ['\\', '\\']
  else if c = '\n' then ['\\', 'n']
  else if c = '\r' then ['\\', 'r']
  else if c = '\t' then ['\\', 't']
  else if c.toNat = 0 then ['\\', '0']
  else if isPrintable c && !isExtender c then [c]
  else '\\' :: 'u' :: '{' :: Nat.toDigits 16 c.toNat ++ ['}']

/-- A text between quotes. -/
def quoted (s : String) : String := String.ofList ('"' :: s.toList.flatMap quoteChar ++ ['"'])

/-- A record in braces: its name, its fields in order, each with its text. -/
def record (name : String) (fields : List (String × String)) : String :=
  name ++ " \x7b " ++ ", ".intercalate (fields.map fun f => f.1 ++ ": " ++ f.2) ++ " \x7d"

def bracketed (items : List String) : String := "[" ++ ", ".intercalate items ++ "]"

end Prompter.Text

import Prompter.Line.Basic
import Prompter.Number.Digits
import Prompter.Table

/-!
# Prompter.StringTable

Localization: texts by line id, with placeholders `{0}`, `{1}`, … that the substitutions of a line
fill. A line without an entry shows its raw text.

A placeholder runs from an opening brace to the next closing one. Braces that hold no index of a
substitution stay as they are, and so does an opening brace that is never closed. What is filled in
is not looked at again.
-/

namespace Prompter

/-- Texts by line id. -/
structure StringTable where
  texts : Table String := .empty
deriving DecidableEq

namespace StringTable

/-- What a placeholder with a given key becomes. -/
def fill (key : List Char) (substitutions : List String) : List Char :=
  match (Number.readIndex? key).bind (substitutions[·]?) with
  | some value => value.toList
  | none => '{' :: key ++ ['}']

/-- Replaces placeholders. The key of a placeholder that is being read is kept last character
first; `none` stands outside of any. -/
def substituteFrom (substitutions : List String) (key : Option (List Char)) :
    List Char → List Char
  | [] =>
    match key with
    | none => []
    | some read => '{' :: read.reverse
  | c :: cs =>
    match key with
    | none =>
      if c = '{' then substituteFrom substitutions (some []) cs
      else c :: substituteFrom substitutions none cs
    | some read =>
      if c = '}' then fill read.reverse substitutions ++ substituteFrom substitutions none cs
      else substituteFrom substitutions (some (c :: read)) cs

/-- The text with its placeholders replaced. -/
def substitute (template : String) (substitutions : List String) : String :=
  if substitutions.isEmpty then template
  else String.ofList (substituteFrom substitutions none template.toList)

/-- Sets the text of a line id. -/
def insert (t : StringTable) (id text : String) : StringTable := ⟨t.texts.insert id text⟩

/-- The text of a line before its placeholders are replaced, and whether it is in the table. -/
def template (t : StringTable) (line : Line) : String × Bool :=
  match t.texts.find? line.id with
  | some text => (text, true)
  | none => (line.text, false)

/-- The line as it is presented. -/
def localize (t : StringTable) (line : Line) : LocalizedLine :=
  ⟨line, substitute (t.template line).1 line.substitutions, .running⟩

end StringTable

end Prompter

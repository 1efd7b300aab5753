import Prompter.Json.Quoted

/-!
# Prompter.Json.Writer

JSON as text: compact, without any blanks, or laid out over lines with two blanks for each level.
An empty array or object stays on one line in both.
-/

namespace Prompter.Json

/-- A string between its quotes. -/
def quote (s : String) : List Char := '"' :: encode s.toList ++ ['"']

/-- The text of a truth value. -/
def boolText (b : Bool) : List Char := if b then "true".toList else "false".toList

mutual

/-- The compact text of a value. -/
def render : Json → List Char
  | .null => "null".toList
  | .bool b => boolText b
  | .number n => n.text
  | .string s => quote s
  | .array [] => ['[', ']']
  | .array (item :: items) => '[' :: render item ++ renderItems items
  | .object [] => ['{', '}']
  | .object ((name, value) :: members) =>
    '{' :: quote name ++ ':' :: render value ++ renderMembers members

/-- The further items of an array and its closing bracket. -/
def renderItems : List Json → List Char
  | [] => [']']
  | item :: items => ',' :: render item ++ renderItems items

/-- The further members of an object and its closing brace. -/
def renderMembers : List (String × Json) → List Char
  | [] => ['}']
  | (name, value) :: members => ',' :: quote name ++ ':' :: render value ++ renderMembers members

end

/-- A line end and the blanks of a level. -/
def newline (level : Nat) : List Char := '\n' :: List.replicate (2 * level) ' '

mutual

/-- The text of a value laid out over lines, at a level. -/
def layOut (level : Nat) : Json → List Char
  | .array [] => ['[', ']']
  | .array (item :: items) =>
    '[' :: newline (level + 1) ++ layOut (level + 1) item ++ layOutItems level items
  | .object [] => ['{', '}']
  | .object ((name, value) :: members) =>
    '{' :: newline (level + 1) ++ quote name ++ ':' :: ' ' :: layOut (level + 1) value ++
      layOutMembers level members
  | .null => "null".toList
  | .bool b => boolText b
  | .number n => n.text
  | .string s => quote s

/-- The further items of an array at a level and its closing bracket. -/
def layOutItems (level : Nat) : List Json → List Char
  | [] => newline level ++ [']']
  | item :: items =>
    ',' :: newline (level + 1) ++ layOut (level + 1) item ++ layOutItems level items

/-- The further members of an object at a level and its closing brace. -/
def layOutMembers (level : Nat) : List (String × Json) → List Char
  | [] => newline level ++ ['}']
  | (name, value) :: members =>
    ',' :: newline (level + 1) ++ quote name ++ ':' :: ' ' :: layOut (level + 1) value ++
      layOutMembers level members

end

/-- The compact text of a value. -/
def compact (v : Json) : String := String.ofList (render v)

/-- The text of a value over several lines. -/
def pretty (v : Json) : String := String.ofList (layOut 0 v)

end Prompter.Json

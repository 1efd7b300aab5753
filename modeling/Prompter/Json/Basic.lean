import Prompter.Json.Numeral

/-!
# Prompter.Json.Basic

JSON values and the ways in which reading one can fail.

The members of an object stay in the order of the text and may repeat a name: what a repeated name
means is for the reader of the object to decide.
-/

namespace Prompter

/-- A JSON value. -/
inductive Json
  | null
  | bool (b : Bool)
  | number (n : Json.Numeral)
  | string (s : String)
  | array (items : List Json)
  | object (members : List (String × Json))

namespace Json

/-- Why a text could not be read. Of several reasons the first in the order of the text counts. -/
inductive Fault
  /-- The text is not JSON. -/
  | malformed
  /-- The text ends before the value does. -/
  | truncated
  /-- The text is JSON, but not of the shape that is wanted. -/
  | mismatched
deriving DecidableEq, Repr

/-- The name of a kind of fault. -/
def Fault.name : Fault → String
  | .malformed => "syntax"
  | .truncated => "eof"
  | .mismatched => "data"

/-- How often a name occurs among members, and with which value if once. -/
inductive Presence
  | absent
  | once (value : Json)
  | repeated

/-- The occurrence of a name among members. -/
def presence (name : String) : List (String × Json) → Presence
  | [] => .absent
  | (key, value) :: rest =>
    if key = name then
      match presence name rest with
      | .absent => .once value
      | _ => .repeated
    else presence name rest

/-- The values of the named fields, each absent or once; `none` if one is repeated. -/
def fieldsOfMembers? (members : List (String × Json)) : List String → Option (List (Option Json))
  | [] => some []
  | name :: names =>
    match presence name members, fieldsOfMembers? members names with
    | .absent, some values => some (none :: values)
    | .once value, some values => some (some value :: values)
    | _, _ => none

/-- The values of fields given by position; `none` if there are more values than fields. -/
def fieldsOfItems? : List Json → List String → Option (List (Option Json))
  | [], names => some (names.map fun _ => none)
  | _ :: _, [] => none
  | item :: items, _ :: names => (fieldsOfItems? items names).map (some item :: ·)

/-- The text of a string value. -/
def text? : Json → Option String
  | .string s => some s
  | _ => none

/-- The truth value of a boolean. -/
def flag? : Json → Option Bool
  | .bool b => some b
  | _ => none

/-- A field that may be left out or `null`. -/
def optional? {α : Type} (read : Json → Option α) : Option Json → Option (Option α)
  | none => some none
  | some .null => some none
  | some value => (read value).map some

end Json

end Prompter

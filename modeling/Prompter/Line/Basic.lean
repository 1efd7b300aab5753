import Prompter.Line.Status
import Prompter.Text.Blank
import Prompter.Text.Cut

/-!
# Prompter.Line.Basic

Lines of narrative text, as a script gives them and as they are presented, and the choices a player
is offered.

A text written as `Name: words` has a speaker. The speaker is what stands before the first colon
that a space follows, trimmed, if that is a single word; `body` is what follows, and the whole text
where there is no speaker.
-/

namespace Prompter

/-- A line of a script: the id it is looked up by, its raw text, and the texts for its
placeholders. -/
structure Line where
  id : String
  text : String
  substitutions : List String := []
deriving DecidableEq

/-- A line ready to be presented. -/
structure LocalizedLine where
  line : Line
  /-- The text that is shown. -/
  text : String
  status : LineStatus := .running
deriving DecidableEq

namespace LocalizedLine

/-- The id of the line. -/
def id (l : LocalizedLine) : String := l.line.id

/-- Who speaks the line. -/
def speaker? (l : LocalizedLine) : Option String :=
  match Text.cutAt? [':', ' '] l.text.toList with
  | none => none
  | some (front, _) =>
    let name := Text.trim front
    if name.isEmpty || name.any Text.isBlank then none else some (String.ofList name)

/-- The text without its speaker. -/
def body (l : LocalizedLine) : String :=
  match l.speaker? with
  | none => l.text
  | some _ =>
    match Text.cutAt? [':', ' '] l.text.toList with
    | none => l.text
    | some (_, rest) => String.ofList rest

end LocalizedLine

/-- The identifier of an option within its set. -/
abbrev OptionId := Nat

/-- An option as a script offers it. One that is not available is shown but cannot be chosen. -/
structure DialogueOption where
  id : OptionId
  line : Line
  available : Bool := true
deriving DecidableEq

/-- Options offered together, in order. -/
structure OptionSet where
  options : List DialogueOption := []
deriving DecidableEq

namespace OptionSet

/-- The first option with an id. -/
def find? (set : OptionSet) (id : OptionId) : Option DialogueOption :=
  set.options.find? (·.id = id)

end OptionSet

/-- An option ready to be presented. -/
structure LocalizedOption where
  id : OptionId
  line : LocalizedLine
  available : Bool
deriving DecidableEq

end Prompter

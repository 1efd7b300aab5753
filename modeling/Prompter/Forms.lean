import Prompter.Command.Basic
import Prompter.Json.Decoder
import Prompter.Json.Writer
import Prompter.Remark
import Prompter.StringTable
import Prompter.Value

/-!
# Prompter.Forms

The JSON forms of values, lines, options, commands and log settings: for each type how it is written
(`toJson`) and how it is read (`decoder`).

A number that is not finite has no JSON form and is written as `null`.
-/

namespace Prompter

open Json Decoder

namespace Value

/-- The value of a JSON scalar. -/
def ofJson? : Json → Option Value
  | .bool b => some (.bool b)
  | .number n => some (.number n.toSingle)
  | .string s => some (.text s)
  | _ => none

def toJson : Value → Json
  | bool b => .bool b
  | number x => (Numeral.ofSingle? x).elim .null .number
  | text s => .string s

def decoder : Decoder Value := whole ofJson?

end Value

namespace LineStatus

def toJson (s : LineStatus) : Json := .string s.name

def decoder : Decoder LineStatus := choice ofName?

end LineStatus

namespace Line

/-- A line of which some fields have been read. -/
structure Draft where
  id : Option String := none
  text : Option String := none
  substitutions : Option (List String) := none

def toJson (l : Line) : Json :=
  .object [("id", .string l.id), ("text", .string l.text),
    ("substitutions", .array (l.substitutions.map .string))]

/-- Reads a line; the substitutions may be left out. -/
def decoder : Decoder Line :=
  record ({} : Draft)
    [⟨"id", fun d => d.id.isSome, Decoder.text.map fun s d => { d with id := some s }⟩,
      ⟨"text", fun d => d.text.isSome, Decoder.text.map fun s d => { d with text := some s }⟩,
      ⟨"substitutions", fun d => d.substitutions.isSome,
        (list Decoder.text).map fun s d => { d with substitutions := some s }⟩]
    fun d => d.id.bind fun id => d.text.map fun text => ⟨id, text, d.substitutions.getD []⟩

end Line

namespace LocalizedLine

/-- A line of which some fields have been read. -/
structure Draft where
  line : Option Line := none
  text : Option String := none
  status : Option LineStatus := none

def toJson (l : LocalizedLine) : Json :=
  .object [("line", l.line.toJson), ("text", .string l.text), ("status", l.status.toJson)]

def decoder : Decoder LocalizedLine :=
  record ({} : Draft)
    [⟨"line", fun d => d.line.isSome, Line.decoder.map fun l d => { d with line := some l }⟩,
      ⟨"text", fun d => d.text.isSome, Decoder.text.map fun s d => { d with text := some s }⟩,
      ⟨"status", fun d => d.status.isSome,
        LineStatus.decoder.map fun s d => { d with status := some s }⟩]
    fun d => d.line.bind fun line => d.text.bind fun text => d.status.map fun status =>
      ⟨line, text, status⟩

end LocalizedLine

namespace DialogueOption

/-- An option of which some fields have been read. -/
structure Draft where
  id : Option OptionId := none
  line : Option Line := none
  available : Option Bool := none

def toJson (o : DialogueOption) : Json :=
  .object [("id", .number (.ofNat o.id)), ("line", o.line.toJson), ("available", .bool o.available)]

/-- Reads an option; it is available unless it says otherwise. -/
def decoder : Decoder DialogueOption :=
  record ({} : Draft)
    [⟨"id", fun d => d.id.isSome, count.map fun n d => { d with id := some n }⟩,
      ⟨"line", fun d => d.line.isSome, Line.decoder.map fun l d => { d with line := some l }⟩,
      ⟨"available", fun d => d.available.isSome,
        flag.map fun b d => { d with available := some b }⟩]
    fun d => d.id.bind fun id => d.line.map fun line => ⟨id, line, d.available.getD true⟩

end DialogueOption

namespace OptionSet

def toJson (s : OptionSet) : Json := .object [("options", .array (s.options.map (·.toJson)))]

def decoder : Decoder OptionSet :=
  record (none : Option (List DialogueOption))
    [⟨"options", Option.isSome, (list DialogueOption.decoder).map fun os _ => some os⟩]
    fun d => d.map (⟨·⟩)

end OptionSet

namespace LocalizedOption

/-- An option of which some fields have been read. -/
structure Draft where
  id : Option OptionId := none
  line : Option LocalizedLine := none
  available : Option Bool := none

def toJson (o : LocalizedOption) : Json :=
  .object [("id", .number (.ofNat o.id)), ("line", o.line.toJson), ("available", .bool o.available)]

def decoder : Decoder LocalizedOption :=
  record ({} : Draft)
    [⟨"id", fun d => d.id.isSome, count.map fun n d => { d with id := some n }⟩,
      ⟨"line", fun d => d.line.isSome,
        LocalizedLine.decoder.map fun l d => { d with line := some l }⟩,
      ⟨"available", fun d => d.available.isSome,
        flag.map fun b d => { d with available := some b }⟩]
    fun d => d.id.bind fun id => d.line.bind fun line => d.available.map fun available =>
      ⟨id, line, available⟩

end LocalizedOption

namespace Command

def toJson (c : Command) : Json := .object [("text", .string c.text)]

/-- Reads a command as it was written: delimiters are text here. -/
def decoder : Decoder Command :=
  record (none : Option String) [⟨"text", Option.isSome, Decoder.text.map fun s _ => some s⟩]
    fun d => d.map (⟨·⟩)

end Command

namespace LogLevel

def toJson (l : LogLevel) : Json := .string l.name

def decoder : Decoder LogLevel := choice ofName?

end LogLevel

namespace Verbosity

/-- Log settings of which some fields have been read. -/
structure Draft where
  enabled : Option Bool := none
  level : Option LogLevel := none

def toJson (v : Verbosity) : Json :=
  .object [("enabled", .bool v.enabled), ("level", v.level.toJson)]

/-- Reads log settings. -/
def decoder : Decoder Verbosity :=
  record ({} : Draft)
    [⟨"enabled", fun d => d.enabled.isSome, flag.map fun b d => { d with enabled := some b }⟩,
      ⟨"level", fun d => d.level.isSome,
        LogLevel.decoder.map fun l d => { d with level := some l }⟩]
    fun d => d.enabled.bind fun enabled => d.level.map fun level => ⟨enabled, level⟩

end Verbosity

/-- Reads a string table: an object of texts by line id. -/
def StringTable.ofJson (source : String) : Except Json.Fault StringTable :=
  ((table Decoder.text).run source).map (⟨·⟩)

end Prompter

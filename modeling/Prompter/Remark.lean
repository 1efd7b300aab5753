import Prompter.Text.Cut

/-!
# Prompter.Remark

The log: remarks about what happens, each with a level and the area of the program it is about.

A shown remark is one line, `[LEVEL] area text`, the area padded to ten characters. The environment
variable `KATARIBE_DEBUG` turns on remarks below warnings and may name the least level.
-/

namespace Prompter

/-- The level of a remark, most important last. -/
inductive LogLevel
  | trace
  | debug
  | info
  | warn
  | error
deriving DecidableEq, Repr

namespace LogLevel

/-- How important a level is. -/
def weight : LogLevel → Nat
  | trace => 0
  | debug => 1
  | info => 2
  | warn => 3
  | error => 4

/-- The name of a level in settings. -/
def name : LogLevel → String
  | trace => "trace"
  | debug => "debug"
  | info => "info"
  | warn => "warn"
  | error => "error"

/-- The name of a level in a shown remark. -/
def label : LogLevel → String
  | trace => "TRACE"
  | debug => "DEBUG"
  | info => "INFO"
  | warn => "WARN"
  | error => "ERROR"

/-- The level of a name in settings. -/
def ofName? : String → Option LogLevel
  | "trace" => some trace
  | "debug" => some debug
  | "info" => some info
  | "warn" => some warn
  | "error" => some error
  | _ => none

/-- The level of a name in any mixture of cases. -/
def ofText? (text : String) : Option LogLevel :=
  ofName? (String.ofList (text.toList.map (·.toLower)))

/-- Whether remarks of level `l` are shown when `least` is the least level shown. -/
def shows (least l : LogLevel) : Bool := least.weight ≤ l.weight

@[simp] theorem ofName?_name (l : LogLevel) : ofName? l.name = some l := by cases l <;> rfl

end LogLevel

/-- What is shown of the log. -/
structure Verbosity where
  enabled : Bool
  /-- The least level shown when enabled; warnings and errors are always shown. -/
  level : LogLevel
deriving DecidableEq

namespace Verbosity

/-- The verbosity that the environment asks for. -/
def ofEnvironment (setting : Option String) : Verbosity :=
  ⟨setting.isSome, (setting.bind LogLevel.ofText?).getD .debug⟩

/-- The least level shown. -/
def least (v : Verbosity) : LogLevel :=
  if v.enabled && v.level.shows .warn then v.level else .warn

end Verbosity

/-- What a remark is about. -/
inductive Area
  | commands
  | arguments
  | handlers
  | methods
  | barrier
  | resumption
  | functions
  | strings
  | dialogue
  | script
deriving DecidableEq, Repr

/-- The name of an area in a shown remark. -/
def Area.name : Area → String
  | commands => "dispatcher"
  | arguments => "coercion"
  | handlers => "registry"
  | methods => "methods"
  | barrier => "barrier"
  | resumption => "resume"
  | functions => "functions"
  | strings => "localization"
  | dialogue => "orchestrator"
  | script => "script"

/-- A remark in the log. -/
structure Remark where
  level : LogLevel
  area : Area
  text : String
deriving DecidableEq

/-- The line that shows a remark about a category. -/
def showRemark (level : LogLevel) (category text : String) : String :=
  "[" ++ level.label ++ "] " ++ category ++
    String.ofList (List.replicate (10 - category.length) ' ') ++ " " ++ text

/-- The line that shows a remark. -/
def Remark.shown (r : Remark) : String := showRemark r.level r.area.name r.text

/-- What follows the last `::` in a path, read from its end; `read` is what has been passed. -/
def lastSegmentFrom (read : List Char) : List Char → List Char
  | ':' :: ':' :: _ => read
  | c :: cs => lastSegmentFrom (c :: read) cs
  | [] => read

/-- The category of a remark whose origin is a path with segments between `::`: the last one. -/
def categoryOf (path : String) : String :=
  String.ofList (lastSegmentFrom [] path.toList.reverse)

end Prompter

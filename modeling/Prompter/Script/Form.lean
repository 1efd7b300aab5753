import Prompter.Forms
import Prompter.Script.Basic

/-!
# Prompter.Script.Form

The JSON form of scripts.

An expression is read whole and then matched: an object with a usable `var`, else one with a usable
`call`, else a literal. An instruction carries its kind as the member `type`, or as the first item
of an array; what else it holds is read whole and then matched, but an unknown kind ends the
reading at once. Writing names every field.
-/

namespace Prompter

open Json Decoder

namespace Expression

/-- The arguments of a call among its members. -/
inductive Arguments
  | absent
  | given (args : List Expression)
  | unusable

/-- Joins the occurrences of the member `args`: a second one makes them unusable. -/
def Arguments.join : Option (List Expression) → Arguments → Arguments
  | some args, absent => given args
  | _, _ => unusable

/-- The text of a member that occurs once. -/
def textMember? (name : String) (members : List (String × Json)) : Option String :=
  match presence name members with
  | .once value => value.text?
  | _ => none

mutual

/-- The expression of a JSON value. -/
def ofJson? : Json → Option Expression
  | .object members =>
    match textMember? "var" members, textMember? "call" members, argumentsOf members with
    | some x, _, _ => some (read x)
    | none, some f, .absent => some (call f [])
    | none, some f, .given args => some (call f args)
    | _, _, _ => none
  | .bool b => some (literal (.bool b))
  | .number n => some (literal (.number n.toSingle))
  | .string s => some (literal (.text s))
  | _ => none

/-- The arguments among members. -/
def argumentsOf : List (String × Json) → Arguments
  | [] => .absent
  | (name, .array items) :: members =>
    if name = "args" then .join (ofItems? items) (argumentsOf members) else argumentsOf members
  | (name, _) :: members =>
    if name = "args" then .unusable else argumentsOf members

/-- The expressions of the items of an array. -/
def ofItems? : List Json → Option (List Expression)
  | [] => some []
  | item :: items =>
    match ofJson? item, ofItems? items with
    | some e, some es => some (e :: es)
    | _, _ => none

end

mutual

def toJson : Expression → Json
  | literal v => v.toJson
  | read x => .object [("var", .string x)]
  | call f args => .object [("call", .string f), ("args", .array (listToJson args))]

def listToJson : List Expression → List Json
  | [] => []
  | e :: es => e.toJson :: listToJson es

end

/-- The expressions of an array. -/
def listOfJson? : Json → Option (List Expression)
  | .array items => ofItems? items
  | _ => none

def decoder : Decoder Expression := whole ofJson?

end Expression

/-- What stands beside the tag of an instruction, or the content of an option: members by name or
items by position. -/
inductive Payload
  | members (ms : List (String × Json))
  | items (vs : List Json)

namespace Payload

/-- The values of the named fields. -/
def fields? : Payload → List String → Option (List (Option Json))
  | members ms, names => fieldsOfMembers? ms names
  | items vs, names => fieldsOfItems? vs names

/-- The content of a JSON value that has any. -/
def ofJson? : Json → Option Payload
  | .object ms => some (members ms)
  | .array vs => some (items vs)
  | _ => none

end Payload

namespace ScriptOption

/-- The fields of an option, in order. -/
def fieldNames : List String := ["id", "text", "available", "condition", "destination"]

/-- The option of its content. -/
def ofPayload? (p : Payload) : Option ScriptOption :=
  match p.fields? fieldNames with
  | some [id, some text, available, condition, destination] =>
    match optional? Json.text? id, text.text?, available.elim (some true) Json.flag?,
        optional? Expression.ofJson? condition, optional? Json.text? destination with
    | some id, some text, some available, some condition, some destination =>
      some ⟨id, text, available, condition, destination⟩
    | _, _, _, _, _ => none
  | _ => none

/-- The option of a JSON value. -/
def ofJson? (v : Json) : Option ScriptOption := (Payload.ofJson? v).bind ofPayload?

def textOrNull : Option String → Json
  | some s => .string s
  | none => .null

def toJson (o : ScriptOption) : Json :=
  .object [("id", textOrNull o.id), ("text", .string o.text), ("available", .bool o.available),
    ("condition", o.condition.elim .null (·.toJson)), ("destination", textOrNull o.destination)]

/-- The options of a JSON value. -/
def listOfJson? : Json → Option (List ScriptOption)
  | .array vs => vs.mapM ofJson?
  | _ => none

end ScriptOption

namespace Instruction

/-- The kinds of instructions, as their tags name them. -/
inductive Kind
  | line
  | options
  | command
  | jump
  | set
  | stop
deriving DecidableEq

def Kind.tag : Kind → String
  | .line => "line"
  | .options => "options"
  | .command => "command"
  | .jump => "jump"
  | .set => "set"
  | .stop => "stop"

def Kind.ofTag? : String → Option Kind
  | "line" => some .line
  | "options" => some .options
  | "command" => some .command
  | "jump" => some .jump
  | "set" => some .set
  | "stop" => some .stop
  | _ => none

/-- The instruction of a kind with its content. -/
def ofPayload? (kind : Kind) (p : Payload) : Option Instruction :=
  match kind with
  | .line =>
    match p.fields? ["id", "text", "substitutions"] with
    | some [some id, some text, substitutions] =>
      match id.text?, text.text?, substitutions.elim (some []) Expression.listOfJson? with
      | some id, some text, some substitutions => some (line id text substitutions)
      | _, _, _ => none
    | _ => none
  | .options =>
    match p.fields? ["options"] with
    | some [some os] => (ScriptOption.listOfJson? os).map options
    | _ => none
  | .command =>
    match p.fields? ["text"] with
    | some [some text] => text.text?.map command
    | _ => none
  | .jump =>
    match p.fields? ["node"] with
    | some [some node] => node.text?.map jump
    | _ => none
  | .set =>
    match p.fields? ["variable", "value"] with
    | some [some name, some value] =>
      match name.text?, Expression.ofJson? value with
      | some name, some value => some (set name value)
      | _, _ => none
    | _ => none
  | .stop =>
    match p with
    | .items (_ :: _) => none
    | _ => some stop

/-- The kind and the content of an instruction being read. -/
structure Draft where
  kind : Option Kind := none
  /-- The members beside the tag, the last one first. -/
  members : List (String × Json) := []

/-- Reads one member of an instruction. -/
def member (depth : Nat) (d : Draft) (key : String) (cs : List Char) : Parse Draft :=
  if key = "type" then
    if d.kind.isSome then .error .mismatched
    else
      match passColon cs with
      | .error fault => .error fault
      | .ok cs => (name Kind.ofTag? depth cs).map fun (k, cs) => ({ d with kind := some k }, cs)
  else
    match passColon cs with
    | .error fault => .error fault
    | .ok cs =>
      (readValue depth cs).map fun (v, cs) => ({ d with members := (key, v) :: d.members }, cs)

/-- Reads one item of an instruction: its tag first, then its content. -/
def item (depth : Nat) (d : Option Kind × List Json) (cs : List Char) :
    Parse (Option Kind × List Json) :=
  match d.1 with
  | none => (name Kind.ofTag? depth cs).map fun (k, cs) => ((some k, []), cs)
  | some k => (readValue depth cs).map fun (v, cs) => ((some k, v :: d.2), cs)

/-- The instruction of its kind and content, if both are usable. -/
def close (kind : Option Kind) (p : Payload) (rest : List Char) : Parse Instruction :=
  match kind.bind (ofPayload? · p) with
  | some i => .ok (i, rest)
  | none => .error .mismatched

def decoder : Decoder Instruction := fun depth cs =>
  match skipSpaces cs with
  | '{' :: rest =>
    match depth with
    | 0 => .error .malformed
    | depth + 1 =>
      match foldMembers (member depth) (rest.length + 1) true {} rest with
      | .error fault => .error fault
      | .ok (d, rest) => close d.kind (.members d.members.reverse) rest
  | '[' :: rest =>
    match depth with
    | 0 => .error .malformed
    | depth + 1 =>
      match foldItems (item depth) (rest.length + 1) true (none, []) rest with
      | .error fault => .error fault
      | .ok (d, rest) => close d.1 (.items d.2.reverse) rest
  | cs => .error (mismatch cs)

def toJson : Instruction → Json
  | line id text substitutions =>
    .object [("type", .string "line"), ("id", .string id), ("text", .string text),
      ("substitutions", .array (Expression.listToJson substitutions))]
  | options os => .object [("type", .string "options"), ("options", .array (os.map (·.toJson)))]
  | command text => .object [("type", .string "command"), ("text", .string text)]
  | jump node => .object [("type", .string "jump"), ("node", .string node)]
  | set name value =>
    .object [("type", .string "set"), ("variable", .string name), ("value", value.toJson)]
  | stop => .object [("type", .string "stop")]

end Instruction

namespace Script

/-- Why a text is not a usable script. -/
inductive Flaw
  | unreadable (fault : Json.Fault)
  | dangling (reference : DanglingReference)
deriving DecidableEq

def Flaw.message : Flaw → String
  | unreadable _ => "failed to parse dialogue script"
  | dangling reference => reference.message

/-- Reads a script, valid or not. -/
def decoder : Decoder Script :=
  record (none : Option (Table (List Instruction)))
    [⟨"nodes", Option.isSome, (table (list Instruction.decoder)).map fun t _ => some t⟩]
    fun d => d.map (⟨·⟩)

def ofJson (source : String) : Except Flaw Script :=
  match decoder.run source with
  | .error fault => .error (.unreadable fault)
  | .ok script =>
    match script.dangling? with
    | some reference => .error (.dangling reference)
    | none => .ok script

/-- The JSON form of a script, its nodes in the order of their names. -/
def toJson (s : Script) : Json :=
  .object [("nodes", .object (s.nodes.entries.map fun e =>
    (e.1, .array (e.2.map (·.toJson)))))]

end Script

end Prompter

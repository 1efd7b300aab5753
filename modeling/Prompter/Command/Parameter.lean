import Prompter.Entity
import Prompter.Error
import Prompter.Number.Reading
import Prompter.Number.Writing
import Prompter.Remark
import Prompter.Text.Quoted

/-!
# Prompter.Command.Parameter

Reading the words after the name of a command as arguments.

* The number of words is checked first: at least as many as there are required parameters, at most
  as many as there are parameters. Then words and parameters are matched from the left, so it is
  the last parameters that are left out, and each gets `Argument.default`.
* The first word that does not read as the kind of its parameter fails the whole list. Texts,
  entities and components never fail: one that is not found is passed as none, with a remark.
-/

namespace Prompter

inductive ParameterKind
  | integer
  | float
  | bool
  | text
  /-- The word names an entity. -/
  | entity
  /-- The word names an entity; the argument is its component of the type. -/
  | component (type : ComponentType)
deriving DecidableEq

structure Parameter where
  kind : ParameterKind
  isOptional : Bool := false
deriving DecidableEq

inductive Argument
  | integer (n : Int)
  | float (x : Float)
  | bool (b : Bool)
  | text (s : String)
  | entity (name : Option String)
  | component (c : Option Component)
  /-- The command leaves out an optional parameter. -/
  | default
deriving DecidableEq

namespace ParameterKind

/-- What a word of the kind is called in an error. -/
def describe : ParameterKind → String
  | integer => "integer"
  | float => "number"
  | bool => "boolean"
  | text => "text"
  | entity => "entity"
  | component type => s!"{type.name} component"

/-- The name of the kind in a description of parameters. -/
def shown : ParameterKind → String
  | integer => "Integer"
  | float => "Float"
  | bool => "Bool"
  | text => "Text"
  | entity => "Entity"
  | component type => s!"Component({type.name})"

end ParameterKind

def Parameter.shown (p : Parameter) : String :=
  Text.record "ParamSpec"
    [("kind", p.kind.shown), ("optional", if p.isOptional then "true" else "false")]

def showParameters (ps : List Parameter) : String := Text.bracketed (ps.map (·.shown))

namespace Argument

def integer? : Argument → Option Int
  | integer n => some n
  | _ => none

def float? : Argument → Option Float
  | float x => some x
  | integer n => some (Number.doubleOfInt n)
  | _ => none

def bool? : Argument → Option Bool
  | bool b => some b
  | _ => none

def text? : Argument → Option String
  | text s => some s
  | _ => none

/-- The entity an argument names. -/
def entity? : Argument → Option String
  | entity name => name
  | _ => none

/-- The component an argument is, if it has the type. -/
def component? (type : ComponentType) : Argument → Option Component
  | component c => c.filter (·.type = type)
  | _ => none

/-- Whether the command leaves the argument out. -/
def isDefault (a : Argument) : Bool := a = default

def shown : Argument → String
  | integer n => s!"Integer({n})"
  | float x => "Float(" ++ Number.displayDouble x ++ ")"
  | bool b => if b then "Bool(true)" else "Bool(false)"
  | text s => "Text(" ++ Text.quoted s ++ ")"
  | entity (some name) => "Entity(" ++ Text.quoted name ++ ")"
  | entity none => "Entity(None)"
  | component (some _) => "Component(..)"
  | component none => "Component(None)"
  | default => "Default"

end Argument

/-- The truth value a word writes, in any mixture of cases. -/
def readBool? (word : String) : Option Bool :=
  let lower := String.ofList (word.toList.map (·.toLower))
  if lower = "true" then some true else if lower = "false" then some false else none

/-- The entity a word addresses, with a remark if there is none. -/
def resolveEntity (resolver : Option EntityResolver) (word : String) :
    Option String × List Remark :=
  match resolver.bind (·.entity? word) with
  | some name => (some name, [])
  | none => (none, [⟨.debug, .arguments, s!"no entity named '{word}'; passing none"⟩])

/-- Reads a word as a kind of parameter; `none` if it does not read as that kind. -/
def ParameterKind.convert (kind : ParameterKind) (resolver : Option EntityResolver)
    (word : String) : Option Argument × List Remark :=
  match kind with
  | .integer => ((Number.readInteger? word.toList).map .integer, [])
  | .float => ((Number.readDouble? word.toList).map .float, [])
  | .bool => ((readBool? word).map .bool, [])
  | .text => (some (.text word), [])
  | .entity =>
    let (found, remarks) := resolveEntity resolver word
    (some (.entity found), remarks)
  | .component type =>
    let (found, remarks) := resolveEntity resolver word
    match found.bind fun name => resolver.bind (·.component? name type) with
    | some c => (some (.component (some c)), remarks)
    | none =>
      let missing := s!"no {type.name} component on '{word}'; passing none"
      (some (.component none), remarks ++ [⟨.debug, .arguments, missing⟩])

/-- Reads words as parameters from the left; `index` is the place of the first parameter. -/
def convertAll (resolver : Option EntityResolver) (index : Nat) :
    List Parameter → List String → Except CommandError (List Argument) × List Remark
  | [], _ => (.ok [], [])
  | _ :: params, [] =>
    let (rest, remarks) := convertAll resolver (index + 1) params []
    (rest.map (.default :: ·), remarks)
  | param :: params, word :: words =>
    match param.kind.convert resolver word with
    | (none, remarks) => (.error (.conversion "" index word param.kind.describe), remarks)
    | (some a, remarks) =>
      let (rest, more) := convertAll resolver (index + 1) params words
      (rest.map (a :: ·), remarks ++ more)

/-- How many parameters are required. -/
def requiredCount (params : List Parameter) : Nat := (params.filter (!·.isOptional)).length

/-- Reads the words after the name of a command; errors do not know the name yet. -/
def readArguments (resolver : Option EntityResolver) (params : List Parameter)
    (words : List String) : Except CommandError (List Argument) × List Remark :=
  let min := requiredCount params
  let max := params.length
  if words.length < min || max < words.length then (.error (.arity "" min max words.length), [])
  else convertAll resolver 0 params words

end Prompter

import Prompter.Table
import Prompter.Value

/-!
# Prompter.Script.Basic

Scripts: named nodes, each a list of instructions, and the expressions that instructions evaluate.

A script is valid if every jump and every destination of an option names one of its nodes. The
first reference that does not, in the order of the node names and of the instructions, is reported.
-/

namespace Prompter

/-- An expression: a literal, a variable, or a call into the host's functions. -/
inductive Expression
  | literal (value : Value)
  /-- The value of a variable. -/
  | read (name : String)
  | call (function : String) (args : List Expression)

namespace Expression

mutual

/-- Whether two expressions are equal. -/
def decEq : (a b : Expression) → Decidable (a = b)
  | literal v, literal w =>
    if h : v = w then isTrue (h ▸ rfl) else isFalse fun e => h (by cases e; rfl)
  | read x, read y =>
    if h : x = y then isTrue (h ▸ rfl) else isFalse fun e => h (by cases e; rfl)
  | call f as, call g bs =>
    if h : f = g then
      match decEqList as bs with
      | isTrue h' => isTrue (h ▸ h' ▸ rfl)
      | isFalse h' => isFalse fun e => h' (by cases e; rfl)
    else isFalse fun e => h (by cases e; rfl)
  | literal _, read _ => isFalse fun e => by cases e
  | literal _, call _ _ => isFalse fun e => by cases e
  | read _, literal _ => isFalse fun e => by cases e
  | read _, call _ _ => isFalse fun e => by cases e
  | call _ _, literal _ => isFalse fun e => by cases e
  | call _ _, read _ => isFalse fun e => by cases e

/-- Whether two lists of expressions are equal. -/
def decEqList : (as bs : List Expression) → Decidable (as = bs)
  | [], [] => isTrue rfl
  | [], _ :: _ => isFalse fun e => by cases e
  | _ :: _, [] => isFalse fun e => by cases e
  | a :: as, b :: bs =>
    match decEq a b, decEqList as bs with
    | isTrue h, isTrue h' => isTrue (h ▸ h' ▸ rfl)
    | isFalse h, _ => isFalse fun e => h (by cases e; rfl)
    | _, isFalse h => isFalse fun e => h (by cases e; rfl)

end

instance : DecidableEq Expression := decEq

/-- Whether an expression is a literal, which needs no library to be evaluated. -/
def isLiteral : Expression → Bool
  | literal _ => true
  | _ => false

end Expression

/-- An option of a script. -/
structure ScriptOption where
  /-- The line id; the text stands in where it is left out. -/
  id : Option String := none
  text : String
  available : Bool := true
  /-- Must evaluate to true for the option to be available. -/
  condition : Option Expression := none
  /-- The node to go to when chosen; without one the script goes on after the options. -/
  destination : Option String := none
deriving DecidableEq

/-- One step of a script. -/
inductive Instruction
  | line (id text : String) (substitutions : List Expression)
  | options (options : List ScriptOption)
  | command (text : String)
  | jump (node : String)
  /-- Stores the value of an expression in a variable. -/
  | set (name : String) (value : Expression)
  | stop
deriving DecidableEq

namespace Instruction

/-- The nodes an instruction may go to, in order. -/
def targets : Instruction → List String
  | jump node => [node]
  | options os => os.filterMap (·.destination)
  | _ => []

end Instruction

/-- A script: the instructions of its nodes. -/
structure Script where
  nodes : Table (List Instruction)
deriving DecidableEq

/-- A reference of a script to a node that it does not have. -/
structure DanglingReference where
  node : String
  target : String
deriving DecidableEq

/-- The wording of a dangling reference. -/
def DanglingReference.message (r : DanglingReference) : String :=
  s!"node '{r.node}' refers to unknown node '{r.target}'"

namespace Script

/-- The instruction at a place of a node. -/
def instruction? (s : Script) (node : String) (index : Nat) : Option Instruction :=
  (s.nodes.find? node).bind (·[index]?)

/-- The references of a script, each with the node it stands in, in order. -/
def references (s : Script) : List DanglingReference :=
  s.nodes.entries.flatMap fun e => e.2.flatMap fun i => i.targets.map fun t => ⟨e.1, t⟩

/-- The first reference to a node that does not exist. -/
def dangling? (s : Script) : Option DanglingReference :=
  s.references.find? fun r => !s.nodes.contains r.target

end Script

end Prompter

import Prompter.Line.Basic

/-!
# Prompter.Error

What can go wrong, by cause, and the wording of each cause.

Command errors arise where names are bound and where commands are run; dialogue errors are the
answers to requests that a dialogue cannot meet.
-/

namespace Prompter

/-- A failure to bind a name or to run a command. -/
inductive CommandError
  /-- The name is bound already. -/
  | duplicate (name : String)
  /-- Two component types declare methods of one name. -/
  | collision (name kept dropped : String)
  /-- The target of the command is nobody. -/
  | unknownEntity (command entity : String)
  /-- The target has no component that declares the method. -/
  | missingComponent (command entity component : String)
  /-- Too few or too many words for the declared parameters. -/
  | arity (command : String) (min max actual : Nat)
  /-- A word does not read as the kind of its parameter. -/
  | conversion (command : String) (index : Nat) (token expected : String)
deriving DecidableEq

namespace CommandError

/-- The wording of an error. -/
def message : CommandError → String
  | duplicate name => s!"'{name}' is already registered"
  | collision name kept dropped =>
    s!"command '{name}' is declared by both {kept} and {dropped}; keeping {kept}"
  | unknownEntity command entity => s!"command '{command}': no entity named '{entity}'"
  | missingComponent command entity component =>
    s!"command '{command}': entity '{entity}' has no {component} component"
  | arity command min max actual =>
    let range := if min = max then toString min else s!"{min} to {max}"
    s!"command '{command}' expects {range} parameter(s), got {actual}"
  | conversion command index token expected =>
    s!"command '{command}': parameter {index} ('{token}') is not a valid {expected}"

/-- The error with the command named, where reading its words raised it. -/
def inCommand (name : String) : CommandError → CommandError
  | arity _ min max actual => arity name min max actual
  | conversion _ index token expected => conversion name index token expected
  | other => other

end CommandError

/-- A request that a dialogue cannot meet. -/
inductive DialogueError
  /-- The request makes no sense now. -/
  | misuse (reason : String)
  | missingViews
  | missingVariables
  /-- A status would not move forward. -/
  | statusTransition (source target : LineStatus)
  | unknownOption (id : OptionId)
  | unavailableOption (id : OptionId)
  | unknownNode (node : String)
  /-- A variable name without its dollar sign. -/
  | variableName (name : String)
  | settings (reason : String)
deriving DecidableEq

/-- The wording of an error. -/
def DialogueError.message : DialogueError → String
  | misuse reason => s!"misuse: {reason}"
  | missingViews => "cannot start dialogue: no dialogue views are configured"
  | missingVariables => "cannot start dialogue: no variable storage is configured"
  | statusTransition source target =>
    s!"line status cannot move from {source.name} to {target.name}"
  | unknownOption id => s!"option {id} is not part of the current option set"
  | unavailableOption id => s!"option {id} is disabled"
  | unknownNode node => s!"no node named '{node}'"
  | variableName name => s!"variable name '{name}' must start with '$'"
  | settings reason => s!"configuration error: {reason}"

/-- Moves a status forward, or says why it cannot. -/
def LineStatus.moveTo (s next : LineStatus) : Except DialogueError LineStatus :=
  match s.moveTo? next with
  | some t => .ok t
  | none => .error (.statusTransition s next)

end Prompter

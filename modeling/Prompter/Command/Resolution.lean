import Prompter.Command.Basic
import Prompter.Command.Binding

/-!
# Prompter.Command.Resolution

What a command means. It is tried, in this order,

1. as the name of a registered handler, with the other words as arguments. If these do not read as
   the handler's parameters the command is refused.
2. as the name of a method, with the name of a target and arguments. Whatever is wrong here, the
   command goes on to the third stage.
3. as none of the dialogue's business: the host is told its text.
-/

namespace Prompter

/-- What a command means. -/
inductive Resolution
  /-- A handler is to run. -/
  | handler (name : String) (h : Handler) (args : List Argument)
  /-- A method is to run on a component of its type. -/
  | method (m : Method) (target : Component) (args : List Argument)
  /-- A handler was meant but cannot run. -/
  | refused (e : CommandError)
  /-- The command is left to the host. -/
  | unhandled

/-- The tables that commands are looked up in. -/
structure CommandTables where
  handlers : HandlerTable := {}
  methods : MethodTable := {}
  resolver : Option EntityResolver := none

namespace CommandTables

/-- The meaning of a command that names a handler. -/
def resolveHandler (t : CommandTables) (name : String) (h : Handler)
    (words : List String) : Resolution × List Remark :=
  match readArguments t.resolver h.params words with
  | (.ok args, remarks) => (.handler name h args, remarks)
  | (.error e, remarks) =>
    let e := e.inCommand name
    (.refused e, remarks ++ [⟨.error, .commands, e.message⟩])

/-- A method that cannot run, and why. -/
def passOn (e : CommandError) (remarks : List Remark) : Resolution × List Remark :=
  (.unhandled, remarks ++ [⟨.error, .commands, e.message⟩])

/-- The meaning of a command that names a method and a target. -/
def resolveMethod (t : CommandTables) (m : Method) (target : String)
    (words : List String) : Resolution × List Remark :=
  match t.resolver.bind (·.entity? target) with
  | none => passOn (.unknownEntity m.name target) []
  | some entity =>
    let missing := CommandError.missingComponent m.name target m.type.name
    match t.resolver.bind (·.component? entity m.type) with
    | none => passOn missing []
    | some c =>
      match readArguments t.resolver m.params words with
      | (.error e, remarks) => passOn (e.inCommand m.name) remarks
      | (.ok args, remarks) =>
        if c.type = m.type then (.method m c args, remarks) else passOn missing remarks

/-- What a command means. -/
def resolve (t : CommandTables) (c : Command) : Resolution × List Remark :=
  match c.words with
  | [] => (.unhandled, [])
  | name :: words =>
    let start : Remark := ⟨.debug, .commands, s!"dispatching command '{c.text}'"⟩
    let (resolution, remarks) :=
      match t.handlers.find? name with
      | some h => t.resolveHandler name h words
      | none =>
        match t.methods.find? name, words with
        | none, _ => (.unhandled, [])
        | some m, [] =>
          (.unhandled, [⟨.debug, .commands,
            s!"command '{name}' matches a {m.type.name} method but names no target"⟩])
        | some m, target :: words => t.resolveMethod m target words
    (resolution, start :: remarks)

end CommandTables

/-- How the dispatch of a command ended. -/
inductive DispatchOutcome
  | done
  /-- The command goes on and will resume the script itself. -/
  | pause
  /-- Nobody handled the command. -/
  | unhandled
  /-- A handler was meant but could not run. -/
  | failed (e : CommandError)
deriving DecidableEq

end Prompter

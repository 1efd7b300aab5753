import Prompter.Console.Player

/-!
# Prompter.Console.Program

The console program as a function: what it writes and its exit code, for its arguments, its
environment and the files it finds.
-/

namespace Prompter.Console

/-- What stands on the outputs after a number of steps of a player, and its exit code if it is
through by then. -/
def Player.run : Nat → Player → Transcript → Transcript × Option Nat
  | 0, p, t => (t, p.exitCode)
  | steps + 1, p, t =>
    if p.exitCode.isSome || p.isStuck then (t, p.exitCode)
    else
      let (p, effects) := p.step
      p.run steps (t.addAll effects)

/-- Runs the program for a number of steps. `environment` is the setting of the log, and `read`
gives the text of a file or the reason why there is none. -/
def run (steps : Nat) (arguments : List String) (environment : Option String)
    (read : String → Except ReadFailure String) : Transcript × Option Nat :=
  match Request.ofArguments arguments with
  | .play file debug =>
    let (p, effects) := Player.ofFile file debug environment (read file)
    p.run steps (({} : Transcript).addAll effects)
  | request =>
    match request.answer? with
    | some (effects, code) => (({} : Transcript).addAll effects, some code)
    | none => ({}, none)

end Prompter.Console

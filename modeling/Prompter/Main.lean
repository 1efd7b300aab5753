import Prompter.Console.Player

/-!
# Prompter.Main

The console program: it carries out what `Prompter.Console` decides.
-/

namespace Prompter.Console

/-- Carries out an effect. -/
def Effect.perform : Effect → IO Unit
  | out line => IO.println line
  | err line => IO.eprintln line
  | sleep nanoseconds => IO.sleep (UInt32.ofNat ((nanoseconds + 999999) / 1000000))

/-- Why a file could not be read. -/
def readFailure : IO.Error → ReadFailure
  | .noFileOrDirectory _ _ _ => .missing
  | .permissionDenied _ _ _ => .denied
  | .inappropriateType _ code _ => if code = 21 then .isFolder else .notFolder
  | .invalidArgument _ 36 _ => .nameTooLong
  | e => .other (toString e)

/-- The text of a file, or why it cannot be read. -/
def readScript (file : String) : IO (Except ReadFailure String) := do
  match ← (IO.FS.readBinFile file).toBaseIO with
  | .ok content => return (String.fromUTF8? content).elim (.error .notText) .ok
  | .error e => return .error (readFailure e)

/-- Plays until the player is through. -/
partial def Player.play (p : Player) : IO UInt32 := do
  match p.exitCode with
  | some code => return UInt32.ofNat code
  | none =>
    if p.isStuck then IO.sleep 1000
    let (p, effects) := p.step
    for e in effects do e.perform
    p.play

end Prompter.Console

open Prompter.Console in
/-- The console program. -/
def main (arguments : List String) : IO UInt32 := do
  match Request.ofArguments arguments with
  | .play file debug =>
    let environment ← IO.getEnv "KATARIBE_DEBUG"
    let (p, effects) := Player.ofFile file debug environment (← readScript file)
    for e in effects do e.perform
    p.play
  | request =>
    let (effects, code) := request.answer?.getD ([], 0)
    for e in effects do e.perform
    return UInt32.ofNat code

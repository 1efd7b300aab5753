/-!
# Prompter.Console.Effect

What the console program does to the world: it writes lines to its two outputs, and it sleeps.
-/

namespace Prompter.Console

/-- Something the program does. -/
inductive Effect
  | out (line : String)
  | err (line : String)
  /-- Sleep for a number of nanoseconds. -/
  | sleep (nanoseconds : Nat)
deriving DecidableEq

/-- What stands on the two outputs. -/
structure Transcript where
  out : String := ""
  err : String := ""
deriving DecidableEq

namespace Transcript

def add (t : Transcript) : Effect → Transcript
  | .out line => { t with out := t.out ++ line ++ "\n" }
  | .err line => { t with err := t.err ++ line ++ "\n" }
  | .sleep _ => t

def addAll (t : Transcript) (effects : List Effect) : Transcript := effects.foldl add t

end Transcript

end Prompter.Console

import Prompter.Proofs.Engine.Ending

/-!
# Prompter.Proofs.Engine.Demand

What a turn of the engine has to do with variables and functions.

A turn stores a value only if that has just been evaluated for a variable, and it calls only a
function that takes as many arguments (`turn_demands`). Everything else that it requests leaves
variables and functions alone.
-/

namespace Prompter

namespace Engine

/-- Whether a request leaves variables and functions alone. -/
def Request.isPlain : Request → Bool
  | .again | .rest | .report _ _ => true
  | .invoke _ _ | .store _ _ => false

/-- What can be requested by a turn that is taken in a phase. -/
inductive Demands (s : Surroundings) (p : Phase) : Request → Prop
  | plain {r : Request} (plain : r.isPlain = true) : Demands s p r
  /-- An evaluated value is to be stored. -/
  | store {name : String} {v : Value} (phase : p = .evaluate (.assign name) (.result (.ok v)) []) :
      Demands s p (.store name v)
  /-- A function is to be called. -/
  | invoke {library : Library} {function : String} {f : ScriptFunction} {args : List Value}
      (bound : s.library = some library)
      (found : library.functions.functions.find? function = some f)
      (fits : f.arity = args.length) : Demands s p (.invoke f.key args)

section

variable {e : Engine} {s : Surroundings} {ph : Phase} {n : Nat} {topic : Topic} {t : Turn}

theorem report_demands {event : Event} {use : Use} {rs : List Remark} :
    Demands s ph (e.report event use rs).2.1 := by
  refine .plain ?_
  unfold report
  split <;> rfl

theorem Serves.demands (serves : Serves s e ph n topic t) : Demands s ph t.2.1 := by
  cases serves with
  | evaluate | settle => exact .plain rfl
  | call _ _ bound found fits => exact .invoke bound found fits
  | store name v evaluated => exact .store evaluated
  | tell | offer => exact report_demands

theorem Performs.demands {node : String} {i : Instruction} (performs : Performs s e node i t) :
    Demands s .step t.2.1 := by
  cases performs with
  | line serves | options serves | set serves => exact serves.demands
  | command | jump | stop => exact report_demands

theorem Ends.demands (ends : Ends s e t) : Demands s e.phase t.2.1 := by
  cases ends with
  | perform steps _ _ _ performs =>
    rw [steps.phase]
    exact performs.demands
  | evaluate _ serves => exact serves.demands
  | depart | begin | finish | closed => exact report_demands
  | _ => exact .plain rfl

end

/-- A turn stores what has been evaluated, calls a function that takes the arguments, or neither. -/
theorem turn_demands (e : Engine) (s : Surroundings) : Demands s e.phase (e.turn s).2.1 :=
  (e.turn_ends s).demands

end Engine

end Prompter

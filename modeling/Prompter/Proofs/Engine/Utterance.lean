import Prompter.Proofs.Engine.Prospect

/-!
# Prompter.Proofs.Engine.Utterance

The commands that an engine reports are those of its script.

A command is reported only when its instruction is performed (`Performs.utters`); whatever else an
engine does it reports no command. Nothing that is done with an engine changes its script.
-/

namespace Prompter

/-- A command stands in a script. -/
def Script.Says (script : Script) (c : Command) : Prop :=
  ∃ node index text, script.instruction? node index = some (.command text) ∧ c = .ofScript text

/-- Whether an event is a command. -/
def Event.isCommand : Event → Bool
  | .command _ => true
  | _ => false

namespace Engine

variable {script : Script} {e e' : Engine} {x : Option Event}

/-- An event is a command only if the script has it. -/
def Utterable (script : Script) (x : Option Event) : Prop :=
  ∀ c, x = some (.command c) → script.Says c

theorem utterable_of_not_isCommand {event : Event} (other : event.isCommand = false) :
    Utterable script (some event) := by
  rintro c ⟨⟩
  cases other

/-- A turn leaves the script alone, and if it reports a command then one of the script. -/
structure Utters (script : Script) (t : Turn) : Prop where
  script_eq : t.1.script = script
  event : Utterable script t.2.1.event?

section

variable {s : Surroundings} {ph : Phase} {n : Nat} {topic : Topic} {t : Turn}
  (own : e.script = script)

include own

theorem goTo_utters (phase : Phase) (rs : List Remark) : Utters script (e.goTo phase rs) :=
  ⟨own, nofun⟩

theorem report_utters {event : Event} (known : Utterable script (some event)) (use : Use)
    (rs : List Remark) : Utters script (e.report event use rs) := by
  unfold report
  split
  · exact ⟨own, known⟩
  · exact goTo_utters own _ _

/-- An event that is not a command can be reported at any time. -/
theorem report_other_utters {event : Event} (other : event.isCommand = false) (use : Use)
    (rs : List Remark) : Utters script (e.report event use rs) :=
  report_utters own (utterable_of_not_isCommand other) use rs

theorem Serves.utters (serves : Serves s e ph n topic t) : Utters script t := by
  cases serves with
  | evaluate | settle => exact goTo_utters own _ _
  | call | store => exact ⟨own, nofun⟩
  | tell => exact report_other_utters own rfl _ _
  | offer => exact report_other_utters (by exact own) rfl _ _

/-- The only place where a command is reported. -/
theorem Performs.utters {node : String} {i : Instruction} (performs : Performs s e node i t)
    (stands : ∃ node index, script.instruction? node index = some i) : Utters script t := by
  cases performs with
  | line serves | options serves | set serves => exact serves.utters own
  | command text =>
    obtain ⟨node', index, stands⟩ := stands
    refine report_utters own ?_ _ _
    rintro _ ⟨⟩
    exact ⟨node', index, text, stands, rfl⟩
  | jump | stop => exact report_other_utters own rfl _ _

theorem Ends.utters (ends : Ends s e t) : Utters script t := by
  cases ends with
  | unheard | outside | undecided | chosen | again | next | wait | enter | halted =>
    exact goTo_utters (by exact own) _ _
  | depart | begin | finish | closed => exact report_other_utters (by exact own) rfl _ _
  | perform _ _ _ stands performs => exact performs.utters (by exact own) ⟨_, _, own ▸ stands⟩
  | evaluate _ serves => exact serves.utters own
  | pause | halt | still => exact ⟨own, nofun⟩

end

/-- Whatever is done with an engine, its script stays, and it reports no commands but those of the
script. -/
theorem Act.utters (act : Act e e' x) (own : e.script = script) :
    e'.script = script ∧ Utterable script x := by
  cases act with
  | turn s =>
    obtain ⟨kept, event⟩ := (e.turn_ends s).utters own
    exact ⟨kept, event⟩
  | continue_ =>
    refine ⟨?_, nofun⟩
    unfold continue?
    split <;> exact own
  | choose id =>
    obtain ⟨choice, same⟩ := e.choose_eq id
    exact ⟨same ▸ own, nofun⟩
  | hear answer =>
    refine ⟨?_, nofun⟩
    unfold Engine.hear
    split <;> exact own
  | receive v =>
    refine ⟨?_, nofun⟩
    unfold Engine.receive
    split <;> exact own
  | equip => exact ⟨own, nofun⟩

end Engine

end Prompter

import Prompter.Command.Basic
import Prompter.HostKey
import Prompter.Line.Basic

/-!
# Prompter.Event

What an engine reports while it runs a script, and the answer it gets to each report.
-/

namespace Prompter

/-- What the engine does after a report. -/
inductive NextAction
  /-- Go on at once. -/
  | next
  /-- Wait to be continued. -/
  | wait
deriving DecidableEq, Repr

/-- A report of an engine. -/
inductive Event
  | line (l : Line)
  | options (set : OptionSet)
  | command (c : Command)
  | nodeStart (node : String)
  | nodeEnd (node : String)
  | dialogueEnd
deriving DecidableEq

/-- Who is told what an engine reports. -/
inductive Listener
  /-- The dialogue. -/
  | dialogue
  /-- A listener of the host. -/
  | host (key : HostKey)
deriving DecidableEq, Repr

end Prompter

/-!
# Prompter.Line.Status

How far the presentation of a line has come. The status moves forward only, through
`running`, `interrupted`, `delivered`, `ended`; `interrupted` may be left out and `ended` reached
from anywhere.

Two signals move it. `proceed` is the player's wish to go on: it interrupts a running line and ends
one that was interrupted or delivered. `deliver` says that every view has shown the line.
-/

namespace Prompter

/-- Presentation status of a line. -/
inductive LineStatus
  /-- Views are presenting the line. -/
  | running
  /-- The player is in a hurry; views should finish now. -/
  | interrupted
  /-- Every view has shown the line. -/
  | delivered
  /-- The line is being taken away or is gone. -/
  | ended
deriving DecidableEq, Repr

/-- What a proceed signal asks for. -/
inductive ProceedEffect
  /-- Tell the views to hurry. -/
  | interrupt
  /-- Take the line away. -/
  | dismiss
  /-- Nothing is in flight. -/
  | ignored
deriving DecidableEq, Repr

namespace LineStatus

/-- The place of a status in the order. -/
def rank : LineStatus → Nat
  | running => 0
  | interrupted => 1
  | delivered => 2
  | ended => 3

instance : LT LineStatus := ⟨fun a b => a.rank < b.rank⟩

instance : LE LineStatus := ⟨fun a b => a.rank ≤ b.rank⟩

instance (a b : LineStatus) : Decidable (a < b) := inferInstanceAs (Decidable (a.rank < b.rank))

instance (a b : LineStatus) : Decidable (a ≤ b) := inferInstanceAs (Decidable (a.rank ≤ b.rank))

/-- The written name of a status. -/
def name : LineStatus → String
  | running => "Running"
  | interrupted => "Interrupted"
  | delivered => "Delivered"
  | ended => "Ended"

/-- The status of a written name. -/
def ofName? : String → Option LineStatus
  | "Running" => some running
  | "Interrupted" => some interrupted
  | "Delivered" => some delivered
  | "Ended" => some ended
  | _ => none

/-- Whether a status may be followed by another. -/
def isBefore (s next : LineStatus) : Bool := s < next

/-- Moves to a later status; `none` if it is not later. -/
def moveTo? (s next : LineStatus) : Option LineStatus :=
  if s.isBefore next then some next else none

/-- The proceed signal: the status after it and what it asks for. -/
def proceed : LineStatus → LineStatus × ProceedEffect
  | running => (interrupted, .interrupt)
  | interrupted => (ended, .dismiss)
  | delivered => (ended, .dismiss)
  | ended => (ended, .ignored)

/-- The signal that every view has shown the line; `none` once the line is past that. -/
def deliver? : LineStatus → Option LineStatus
  | running => some delivered
  | interrupted => some delivered
  | delivered => none
  | ended => none

/-- Whether the line is being taken away or gone. -/
def isEnded (s : LineStatus) : Bool := s = ended

@[simp] theorem ofName?_name (s : LineStatus) : ofName? s.name = some s := by cases s <;> rfl

/-- Delivery moves a status forward. -/
theorem lt_of_deliver? {s t : LineStatus} (h : s.deliver? = some t) : s < t := by
  cases s <;> simp [deliver?] at h <;> subst h <;> decide

end LineStatus

end Prompter

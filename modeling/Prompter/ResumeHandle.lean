import Prompter.Remark
import Prompter.Text.Quoted

/-!
# Prompter.ResumeHandle

The handle by which a pausing command lets the script go on, at most once.

A handle is armed when the command has returned. A resume before that is remembered instead of
forwarded, and the command then counts as finished: the script is never told to wait for a resume
that has happened already.
-/

namespace Prompter

/-- How far a handle has come. -/
inductive ResumePhase
  /-- The command is still being called. -/
  | invoking
  /-- A resume came while the command was being called. -/
  | resumedEarly
  /-- The script waits; the next resume is forwarded. -/
  | armed
  /-- Nothing happens any more. -/
  | finished
deriving DecidableEq, Repr

/-- The name of a phase. -/
def ResumePhase.name : ResumePhase → String
  | invoking => "Invoking"
  | resumedEarly => "ResumedEarly"
  | armed => "Armed"
  | finished => "Done"

/-- A handle: the command it belongs to, its phase, and what a forwarded resume does. -/
structure ResumeHandle (κ : Type) where
  command : String
  phase : ResumePhase
  continuation : κ
deriving DecidableEq

namespace ResumeHandle

variable {κ : Type}

/-- The handle of a command that is about to be called. -/
def fresh (command : String) (k : κ) : ResumeHandle κ := ⟨command, .invoking, k⟩

/-- Lets the script go on; the continuation comes back if the resume is forwarded. -/
def resume (h : ResumeHandle κ) : ResumeHandle κ × Option κ × List Remark :=
  match h.phase with
  | .invoking =>
    ({ h with phase := .resumedEarly }, none,
      [⟨.debug, .resumption, s!"command '{h.command}' resumed before it paused"⟩])
  | .armed =>
    ({ h with phase := .finished }, some h.continuation,
      [⟨.debug, .resumption, s!"command '{h.command}' resumed"⟩])
  | .resumedEarly | .finished =>
    (h, none, [⟨.debug, .resumption, s!"command '{h.command}' resumed more than once; ignoring"⟩])

/-- Notes that the command has returned; the flag says whether the script has to wait. -/
def arm (h : ResumeHandle κ) : ResumeHandle κ × Bool :=
  match h.phase with
  | .invoking => ({ h with phase := .armed }, true)
  | .resumedEarly => ({ h with phase := .finished }, false)
  | .armed | .finished => (h, false)

/-- Whether the handle has been used. -/
def isUsed (h : ResumeHandle κ) : Bool :=
  h.phase = .resumedEarly || h.phase = .finished

/-- A description of the handle. -/
def shown (h : ResumeHandle κ) : String :=
  Text.record "ResumeHandle" [("command", Text.quoted h.command), ("phase", h.phase.name)]

@[simp] theorem resume_continuation (h : ResumeHandle κ) :
    h.resume.1.continuation = h.continuation := by
  unfold resume
  split <;> rfl

@[simp] theorem arm_continuation (h : ResumeHandle κ) :
    h.arm.1.continuation = h.continuation := by
  unfold arm
  split <;> rfl

/-- A resume uses the handle. -/
@[simp] theorem resume_isUsed (h : ResumeHandle κ) : h.resume.1.isUsed = true := by
  unfold resume isUsed
  cases hp : h.phase <;> simp [hp]

/-- The return of its command does not use a handle. -/
@[simp] theorem arm_isUsed (h : ResumeHandle κ) : h.arm.1.isUsed = h.isUsed := by
  unfold arm isUsed
  cases hp : h.phase <;> simp [hp]

/-- A resume is forwarded by an armed handle, which is finished then, or by none. -/
theorem resume_cases (h : ResumeHandle κ) :
    (h.phase = .armed ∧ h.resume.1.phase = .finished ∧ h.resume.2.1 = some h.continuation) ∨
    ((h.resume.1.phase = .finished ↔ h.phase = .finished) ∧ h.resume.2.1 = none) := by
  unfold resume
  cases hp : h.phase <;> simp [hp]

/-- Whether the command has not returned yet. -/
def isCalled (h : ResumeHandle κ) : Bool := h.phase = .invoking || h.phase = .resumedEarly

/-- A resume does not tell whether the command has returned. -/
@[simp] theorem resume_isCalled (h : ResumeHandle κ) : h.resume.1.isCalled = h.isCalled := by
  unfold resume isCalled
  cases hp : h.phase <;> simp [hp]

/-- When a command returns it is waited for, or its handle is finished. -/
theorem arm_cases (h : ResumeHandle κ) (called : h.isCalled = true) :
    (h.arm.1.phase = .armed ∧ h.arm.2 = true) ∨ (h.arm.1.phase = .finished ∧ h.arm.2 = false) := by
  unfold arm
  cases hp : h.phase <;> simp [isCalled, hp] at called ⊢

/-- A finished handle stays finished. -/
theorem arm_finished (h : ResumeHandle κ) (hp : h.phase = .finished) : h.arm.1 = h := by
  simp [arm, hp]

end ResumeHandle

end Prompter

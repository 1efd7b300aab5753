import Prompter.Proofs.Engine.Coherence

/-!
# Prompter.Proofs.Engine.Stake

Whether an engine goes on by itself.

An engine has a *stake* if it will take another step of the script without being asked: it is on its
way to one, or has noted a request to go on. A turn keeps the stake or makes a report of it
(`Turned.stake`), unless the engine is in no node or waits for a choice.
-/

namespace Prompter.Engine

/-- Whether the answer to an event is put to a use. -/
def Use.takes : Use → Event → Bool
  | .plain, .line _ | .plain, .command _ | .plain, .nodeStart _ => true
  | .choice, .options _ => true
  | .leave _ _, .nodeEnd _ | .close, .nodeEnd _ => true
  | .halt, .dialogueEnd => true
  | _, _ => false

/-- Whether an engine in a phase is on its way to a step of the script or to a report. -/
def Phase.goesOn : Phase → Bool
  | .step | .evaluate _ _ _ | .calling _ _ | .settle .next => true
  | .heard .plain .next | .heard (.leave _ _) _ | .heard .close _ => true
  | _ => false

/-- How often an engine is going to go on. -/
def stake (e : Engine) : Nat := e.phase.goesOn.toNat + e.resumeRequested.toNat

/-- Whether options wait for a choice. -/
def isUndecided (e : Engine) : Bool := e.choices.isSome && e.selected.isNone

/-- The stake that a turn hands on. -/
def Request.stake : Request → Nat
  | .report _ _ => 1
  | _ => 0

/-! ### What is reported -/

/-- A report is one that the engine knows what to do with. -/
def Reports (t : Turn) : Prop :=
  ∀ l event, t.2.1 = .report l event → ∃ use, t.1.phase = .reported use ∧ use.takes event = true

section

variable {e : Engine} {s : Surroundings} {ph : Phase} {n : Nat} {topic : Topic} {t : Turn}

theorem goTo_reports (phase : Phase) (rs : List Remark) : Reports (e.goTo phase rs) := nofun

theorem report_reports {event : Event} {use : Use} (takes : use.takes event = true)
    (rs : List Remark) : Reports (e.report event use rs) := by
  unfold report
  split
  · intro l event' same
    cases same
    exact ⟨use, rfl, takes⟩
  · exact goTo_reports _ rs

theorem Serves.reports (serves : Serves s e ph n topic t) : Reports t := by
  cases serves with
  | evaluate | settle => exact goTo_reports _ _
  | call | store => exact nofun
  | tell | offer => exact report_reports rfl _

theorem Performs.reports {node : String} {i : Instruction} (performs : Performs s e node i t) :
    Reports t := by
  cases performs with
  | line serves | options serves | set serves => exact serves.reports
  | command | jump | stop => exact report_reports rfl _

variable (e s) in
/-- An engine that reports an event waits for the answer, and knows what to do with it. -/
theorem turn_reports : Reports (e.turn s) := by
  have ends := e.turn_ends s
  generalize e.turn s = t at ends
  cases ends with
  | unheard | outside | undecided | chosen | again | next | wait | enter | halted =>
    exact goTo_reports _ _
  | depart | begin | finish | closed => exact report_reports rfl _
  | perform _ _ _ _ performs => exact performs.reports
  | evaluate _ serves => exact serves.reports
  | pause | halt | still => exact nofun

end

/-! ### What becomes of the stake -/

/-- Whether options are reported. -/
def Request.offers : Request → Bool
  | .report _ (.options _) => true
  | _ => false

/-- Whether an engine in a phase takes its turn, and is not about to halt. -/
def Phase.turns : Phase → Bool
  | .step | .evaluate _ _ _ | .settle .next | .settle .wait => true
  | .heard .plain _ | .heard .choice _ | .heard (.leave _ _) _ | .heard .close _ => true
  | _ => false

/-- The phase of an engine that has taken its turn fits the way in which the turn has ended. -/
def Request.leaves (e : Engine) : Request → Prop
  | .again | .store _ _ => e.phase.turns = true
  | .rest => e.phase = .idle ∧ e.resumeRequested = false
  | .report _ event => ∃ use, e.phase = .reported use ∧ use.takes event = true
  | .invoke _ _ => ∃ purpose stack, e.phase = .calling purpose stack

section

variable {l : Listener} {e e' : Engine} {r : Request}

theorem Use.offers_of_takes {use : Use} {event : Event} (takes : use.takes event = true) :
    (Request.report l event).offers = (use = .choice : Bool) := by
  cases event <;> cases use <;> first | rfl | cases takes

theorem Performing.goesOn (p : e.Performing l) : e.phase.goesOn = true := by
  rcases p with ⟨phase, -⟩ | ⟨_, _, _, phase, -⟩ <;> rw [phase] <;> rfl

/-- A turn hands the stake on, in a node where no choice is to be made. -/
theorem Turned.stake (t : Turned l e e' r) (one : e.stake ≤ 1)
    (inside : e.phase = .step → e.node.isSome = true)
    (decided : e.phase.goesOn = true → e.isUndecided = false) :
    e'.stake + r.stake = e.stake := by
  cases t with
  | outside phase out =>
    have inside := inside phase
    rw [out] at inside
    cases inside
  | undecided phase _ waiting open_ =>
    simp [isUndecided, waiting, open_, phase, Phase.goesOn] at decided
  | chosen phase | next phase | enter _ _ _ phase | halted _ phase | pause phase | halt phase =>
    simp only [Engine.stake, Phase.goesOn, Request.stake, phase]
    rfl
  | depart phase | begin phase | closed _ phase =>
    simp only [Engine.stake, Phase.goesOn, Request.stake, phase]
    exact Nat.add_right_comm 0 _ 1
  | evaluate p | call p =>
    simp only [Engine.stake, p.goesOn]
    rfl
  | done p index r quiet =>
    simp only [Engine.stake, p.goesOn]
    rcases quiet with rfl | ⟨_, _, rfl⟩ <;> rfl
  | report p | offer p =>
    simp only [Engine.stake, p.goesOn]
    exact Nat.add_right_comm 0 _ 1
  | again phase =>
    rcases phase with phase | ⟨phase, asked⟩
    · have unasked : e.resumeRequested.toNat = 0 := by
        simp only [Engine.stake, Phase.goesOn, phase, Bool.toNat_true] at one
        omega
      simp only [Engine.stake, Phase.goesOn, phase, unasked]
      rfl
    · simp only [Engine.stake, Phase.goesOn, phase, asked]
      rfl
  | wait phase =>
    rcases phase with phase | ⟨_, phase⟩
    all_goals
      simp only [Engine.stake, Phase.goesOn, Request.stake, phase]
      rfl
  | still => rfl

/-- A turn opens a choice when it reports options. -/
theorem Turned.isUndecided (t : Turned l e e' r) (leaves : r.leaves e')
    (decided : e.phase.goesOn = true → e.isUndecided = false) :
    e'.isUndecided.toNat = e.isUndecided.toNat + r.offers.toNat := by
  cases t with
  | offer p index event destinations =>
    obtain ⟨use, phase, takes⟩ := leaves
    cases phase
    rw [Use.offers_of_takes takes, decided p.goesOn]
    rfl
  | report p index event use plain =>
    obtain ⟨use', phase, takes⟩ := leaves
    cases phase
    rw [Use.offers_of_takes takes]
    rcases plain with rfl | rfl | ⟨_, _, rfl⟩ <;> rfl
  | depart phase _ _ _ node destination event =>
    obtain ⟨use, phase', takes⟩ := leaves
    cases phase'
    rw [Use.offers_of_takes takes, decided (by rw [phase]; rfl)]
    rfl
  | chosen phase | closed _ phase =>
    rw [decided (by rw [phase]; rfl)]
    rfl
  | done p index r quiet => rcases quiet with rfl | ⟨_, _, rfl⟩ <;> rfl
  | _ => rfl

/-- A turn leaves the engine in a node, unless it ends the dialogue. -/
theorem Turned.inside (t : Turned l e e' r) (inside : e.node.isSome = true) :
    e'.node.isSome = true ∨ e'.phase = .reported .halt := by
  cases t with
  | closed => exact .inr rfl
  | enter => exact .inl rfl
  | _ => exact .inl inside

/-- A turn that does not halt the engine leaves it in a phase that fits. -/
theorem leaves_of_turn {around : Surroundings}
    (t : Turned l e (e.turn around).1 (e.turn around).2.1) (turns : e.phase.turns = true)
    (inside : e.phase = .step → e.node.isSome = true)
    (decided : e.phase.goesOn = true → e.isUndecided = false) :
    (e.turn around).2.1.leaves (e.turn around).1 := by
  have reports := e.turn_reports around
  rcases ht : e.turn around with ⟨e', r, rs⟩
  rw [ht] at t reports
  cases t with
  | outside phase out =>
    have inside := inside phase
    rw [out] at inside
    cases inside
  | undecided phase _ waiting open_ =>
    simp [Engine.isUndecided, waiting, open_, phase, Phase.goesOn] at decided
  | depart | begin | report | offer | closed => exact reports _ _ rfl
  | call => exact ⟨_, _, rfl⟩
  | pause _ unasked => exact ⟨rfl, unasked⟩
  | halt phase | halted _ phase =>
    rw [phase] at turns
    cases turns
  | still phase =>
    rcases phase with phase | ⟨_, phase⟩ | ⟨_, _, phase⟩
    all_goals
      rw [phase] at turns
      cases turns
  | done p index r quiet => rcases quiet with rfl | ⟨_, _, rfl⟩ <;> rfl
  | evaluate | chosen | again | next | wait | enter => rfl

end

end Prompter.Engine

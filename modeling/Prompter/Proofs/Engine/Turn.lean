import Prompter.Proofs.Engine.Ending

/-!
# Prompter.Proofs.Engine.Turn

What a turn does to an engine while somebody listens.

`Turned` forgets what does not matter to where the engine stands: the values, and what is said of
them. Every turn that ends with a listener is of that kind (`Ends.turned`).
-/

namespace Prompter.Engine

/-- The engine is about to perform an instruction of its node, or is evaluating an expression of
one. -/
def Performing (l : Listener) (e : Engine) : Prop :=
  (e.phase = .step ∧ e.node.isSome = true ∧ e.choices = none ∧ e.nodeStarted = true) ∨
  (∃ purpose focus stack, e.phase = .evaluate purpose focus stack ∧ e.hearer = some l)

/-- An engine that goes on with an instruction. -/
def goOn (e : Engine) (l : Listener) (index : Nat) (phase : Phase) : Engine :=
  { e with index := index, hearer := some l, phase := phase }

/-- What a turn makes of the engine `e` while `l` listens, and how it ends. -/
inductive Turned (l : Listener) (e : Engine) : Engine → Request → Prop
  /-- The engine is in no node. -/
  | outside (phase : e.phase = .step) (out : e.node = none) :
      Turned l e { e with hearer := some l, phase := .settle .halt } .again
  /-- Options wait for a choice that has not been made. -/
  | undecided (phase : e.phase = .step) (inside : e.node.isSome = true)
      (waiting : e.choices.isSome = true) (open_ : e.selected = none) :
      Turned l e { e with hearer := some l, phase := .settle .halt } .again
  /-- The chosen option goes on in the node. -/
  | chosen (phase : e.phase = .step) (inside : e.node.isSome = true)
      (waiting : e.choices.isSome = true) (made : e.selected.isSome = true) :
      Turned l e
        { e with
          hearer := some l, choices := none, selected := none
          phase := .settle .next } .again
  /-- The chosen option goes to another node. -/
  | depart (phase : e.phase = .step) (inside : e.node.isSome = true)
      (waiting : e.choices.isSome = true) (made : e.selected.isSome = true)
      (node destination : String) (event : Event) :
      Turned l e
        { e with
          hearer := some l, choices := none, selected := none
          phase := .reported (.leave node destination) }
        (.report l event)
  /-- The start of the node is reported. -/
  | begin (phase : e.phase = .step) (node : String) (inside : e.node = some node)
      (free : e.choices = none) (unstarted : e.nodeStarted = false) :
      Turned l e { e with hearer := some l, nodeStarted := true, phase := .reported .plain }
        (.report l (.nodeStart node))
  /-- An expression is evaluated. -/
  | evaluate (p : e.Performing l) (index : Nat) (purpose : Purpose) (focus : Focus)
      (stack : List Frame) :
      Turned l e (e.goOn l index (.evaluate purpose focus stack)) .again
  /-- A function is called. -/
  | call (p : e.Performing l) (index : Nat) (purpose : Purpose) (stack : List Frame)
      (key : HostKey) (args : List Value) :
      Turned l e (e.goOn l index (.calling purpose stack)) (.invoke key args)
  /-- The instruction is done. -/
  | done (p : e.Performing l) (index : Nat) (r : Request)
      (quiet : r = .again ∨ ∃ name v, r = .store name v) :
      Turned l e (e.goOn l index (.settle .next)) r
  /-- A line or a command is reported, or the end of the node. -/
  | report (p : e.Performing l) (index : Nat) (event : Event) (use : Use)
      (plain : use = .plain ∨ use = .close ∨ ∃ node destination, use = .leave node destination) :
      Turned l e (e.goOn l index (.reported use)) (.report l event)
  /-- Options are reported. -/
  | offer (p : e.Performing l) (index : Nat) (event : Event)
      (destinations : List (Option String)) :
      Turned l e { e.goOn l index (.reported .choice) with
        choices := some destinations, selected := none } (.report l event)
  /-- The next step of the script is due. -/
  | again (phase : e.phase = .settle .next ∨ e.phase = .settle .wait ∧ e.resumeRequested = true) :
      Turned l e { e with hearer := none, resumeRequested := false, phase := .step } .again
  /-- The run is over for now. -/
  | pause (phase : e.phase = .settle .wait) (unasked : e.resumeRequested = false) :
      Turned l e { e with hearer := none, phase := .idle } .rest
  /-- The run is over. -/
  | halt (phase : e.phase = .settle .halt) :
      Turned l e { e with hearer := none, phase := .idle } .rest
  /-- An event is answered `next`. -/
  | next (phase : e.phase = .heard .plain .next) :
      Turned l e { e with phase := .settle .next } .again
  /-- An event is answered `wait`, or makes the engine wait anyway. -/
  | wait (phase : e.phase = .heard .plain .wait ∨ ∃ answer, e.phase = .heard .choice answer) :
      Turned l e { e with phase := .settle .wait } .again
  /-- The engine enters another node. -/
  | enter (node destination : String) (answer : NextAction)
      (phase : e.phase = .heard (.leave node destination) answer) :
      Turned l e { e.enter destination with phase := .settle .next } .again
  /-- The engine leaves its last node. -/
  | closed (answer : NextAction) (phase : e.phase = .heard .close answer) :
      Turned l e { e.leaveScript with phase := .reported .halt } (.report l .dialogueEnd)
  /-- The dialogue is over. -/
  | halted (answer : NextAction) (phase : e.phase = .heard .halt answer) :
      Turned l e { e with phase := .settle .halt } .again
  /-- Somebody else has the word. -/
  | still (phase : e.phase = .idle ∨ (∃ use, e.phase = .reported use) ∨
      ∃ purpose stack, e.phase = .calling purpose stack) :
      Turned l e e .rest

section

variable {l : Listener} {e : Engine} {s : Surroundings} {ph ph' : Phase} {n i : Nat} {topic : Topic}
  {t : Turn}

theorem Serves.turned (p : e.Performing l) (serves : Serves s (e.goOn l i ph) ph' n topic t) :
    Turned l e t.1 t.2.1 := by
  cases serves with
  | evaluate => exact .evaluate p i _ _ _
  | call => exact .call p i _ _ _ _
  | settle => exact .done p i _ (.inl rfl)
  | store name v => exact .done p i _ (.inr ⟨name, v, rfl⟩)
  | tell => exact .report p i _ .plain (.inl rfl)
  | offer destinations => exact .offer p i _ destinations

theorem Performs.turned (p : e.Performing l) {node : String} {x : Instruction}
    (performs : Performs s (e.goOn l i ph) node x t) : Turned l e t.1 t.2.1 := by
  cases performs with
  | line serves | options serves | set serves => exact serves.turned p
  | command => exact .report p i _ .plain (.inl rfl)
  | jump destination => exact .report p i _ _ (.inr (.inr ⟨node, destination, rfl⟩))
  | stop => exact .report p i _ .close (.inr (.inl rfl))

/-- A turn ends in one of the ways listed, while the same listener is told about the step. -/
theorem Ends.turned (ends : Ends s e t) (hl : e.phase = .step → s.listener = some l)
    (hh : (∃ purpose focus stack, e.phase = .evaluate purpose focus stack) ∨
      (∃ use answer, e.phase = .heard use answer) → e.hearer = some l) :
    Turned l e t.1 t.2.1 := by
  have told {l' : Listener} (phase : e.phase = .step) (hears : s.listener = some l') : l' = l :=
    Option.some.inj (hears.symm.trans (hl phase))
  have inside {l' : Listener} {node : String} (steps : StepsIn s e l' node) :
      e.node.isSome = true := by simp [steps.inside]
  cases ends with
  | unheard phase nobody => cases nobody.symm.trans (hl phase)
  | outside phase hears out =>
    obtain rfl := told phase hears
    exact .outside phase out
  | undecided steps waiting open_ =>
    obtain rfl := told steps.phase steps.hears
    exact .undecided steps.phase (inside steps) waiting open_
  | chosen steps waiting made =>
    obtain rfl := told steps.phase steps.hears
    exact .chosen steps.phase (inside steps) (by simp [waiting]) (by simp [made])
  | depart steps waiting made =>
    obtain rfl := told steps.phase steps.hears
    exact .depart steps.phase (inside steps) (by simp [waiting]) (by simp [made]) _ _ _
  | begin steps free unstarted =>
    obtain rfl := told steps.phase steps.hears
    exact .begin steps.phase _ steps.inside free unstarted
  | perform steps free started stands performs =>
    obtain rfl := told steps.phase steps.hears
    refine Performs.turned (i := e.index + 1) (.inl ⟨steps.phase, ?_, free, started⟩) performs
    exact inside steps
  | finish steps free started =>
    obtain rfl := told steps.phase steps.hears
    exact .report (.inl ⟨steps.phase, inside steps, free, started⟩) e.index _ .close
      (.inr (.inl rfl))
  | @evaluate purpose focus stack phase _ serves =>
    have hearer := hh (.inl ⟨purpose, focus, stack, phase⟩)
    -- an evaluation goes on where the instruction was begun, for the listener that it was begun for
    have same : e.goOn l e.index e.phase = e := by
      unfold goOn
      rw [← hearer]
    rw [← same] at serves
    exact serves.turned (.inr ⟨purpose, focus, stack, phase, hearer⟩)
  | again phase => exact .again phase
  | pause phase unasked => exact .pause phase unasked
  | halt phase => exact .halt phase
  | next phase => exact .next phase
  | wait phase => exact .wait phase
  | enter phase => exact .enter _ _ _ phase
  | closed phase =>
    have hearer : e.leaveScript.hearer = some l := hh (.inr ⟨_, _, phase⟩)
    rw [report_of_hears hearer]
    exact .closed _ phase
  | halted phase => exact .halted _ phase
  | still phase => exact .still phase

theorem turn_turned (hl : s.listener = some l)
    (hh : (∃ purpose focus stack, e.phase = .evaluate purpose focus stack) ∨
      (∃ use answer, e.phase = .heard use answer) → e.hearer = some l) :
    Turned l e (e.turn s).1 (e.turn s).2.1 :=
  (e.turn_ends s).turned (fun _ => hl) hh

/-- The next step of the script follows, and whatever request was noted is done with. -/
theorem endStep_again (x : StepEnd) (goesOn : x = .next ∨ x = .wait ∧ e.resumeRequested = true) :
    (e.endStep x).1 = { e with hearer := none, resumeRequested := false, phase := .step } ∧
      (e.endStep x).2.1 = .again := by
  unfold endStep
  dsimp only
  split
  · next unasked =>
    refine ⟨?_, rfl⟩
    -- the request is cleared only where one was noted
    simp only [goTo]
    rw [← show e.resumeRequested = false from unasked]
  · exact ⟨rfl, rfl⟩
  · exact ⟨rfl, rfl⟩
  · next unasked => simp_all
  · simp at goesOn

end

end Prompter.Engine

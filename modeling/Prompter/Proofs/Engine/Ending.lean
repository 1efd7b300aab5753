import Prompter.Engine

/-!
# Prompter.Proofs.Engine.Ending

How a turn of the engine can end.

`Ends` has one constructor for each way, whoever listens. Some instructions have expressions
evaluated: these have a topic, which stays the same until something comes of them, and with every
turn less is left to be evaluated (`Serves`). What other modules say of a turn they read off
`turn_ends`, unless it depends on the values.
-/

namespace Prompter.Engine

/-! ### Evaluations -/

mutual

/-- How many turns it may take to evaluate an expression. -/
def cost : Expression → Nat
  | .literal _ | .read _ => 1
  | .call _ args => 2 + costs args

/-- How many turns it may take to evaluate what is to come of a list of expressions. -/
def costs : List Expression → Nat
  | [] => 0
  | x :: rest => 1 + cost x + costs rest

end

def optionCosts : List ScriptOption → Nat
  | [] => 0
  | o :: rest => (match o.condition with | some x => 1 + cost x | none => 0) + optionCosts rest

def Focus.effort : Focus → Nat
  | .expression x => cost x
  | .result _ => 0

def stackEffort : List Frame → Nat
  | [] => 0
  | f :: stack => 1 + costs f.rest + stackEffort stack

/-- What the expressions of an instruction are evaluated for. -/
inductive Topic
  /-- A variable gets a value. -/
  | assign (name : String)
  /-- A line is told. -/
  | line (id text : String)
  /-- Options are offered. -/
  | offer (destinations : List (Option String))

def Purpose.topic : Purpose → Topic
  | .assign name => .assign name
  | .line id text _ _ => .line id text
  | .offer _ _ _ destinations => .offer destinations

/-- How many turns it may take to evaluate what is to come after an expression. -/
def Purpose.load : Purpose → Nat
  | .assign _ => 0
  | .line _ _ _ rest => costs rest
  | .offer _ _ rest _ => optionCosts rest

/-- What comes of the expressions of a topic in a turn that is taken in a phase, where it may take
`n` turns to evaluate them. -/
inductive Serves (s : Surroundings) (e : Engine) (ph : Phase) (n : Nat) : Topic → Turn → Prop
  /-- One is evaluated, and less is left. -/
  | evaluate {topic : Topic} {p : Purpose} (same : p.topic = topic) (focus : Focus)
      (stack : List Frame) (rs : List Remark)
      (less : p.load + focus.effort + stackEffort stack < n) :
      Serves s e ph n topic (e.goTo (.evaluate p focus stack) rs)
  /-- A function is called that takes the arguments. -/
  | call {topic : Topic} {p : Purpose} (same : p.topic = topic) (stack : List Frame)
      {library : Library} {function : String} {f : ScriptFunction} {args : List Value}
      (bound : s.library = some library)
      (found : library.functions.functions.find? function = some f)
      (fits : f.arity = args.length) (rs : List Remark) (less : p.load + stackEffort stack < n) :
      Serves s e ph n topic ({ e with phase := .calling p stack }, .invoke f.key args, rs)
  /-- The variable does not get a value. -/
  | settle (name : String) (rs : List Remark) :
      Serves s e ph n (.assign name) (e.goTo (.settle .next) rs)
  /-- The value is stored. -/
  | store (name : String) (v : Value)
      (evaluated : ph = .evaluate (.assign name) (.result (.ok v)) []) :
      Serves s e ph n (.assign name) ({ e with phase := .settle .next }, .store name v, [])
  | tell (id text : String) (filled : List String) (rs : List Remark) :
      Serves s e ph n (.line id text) (e.report (.line ⟨id, text, filled⟩) .plain rs)
  | offer (destinations : List (Option String)) (offered : List DialogueOption)
      (rs : List Remark) :
      Serves s e ph n (.offer destinations)
        ({ e with choices := some destinations, selected := none }.report
          (.options ⟨offered⟩) .choice rs)

theorem report_of_hears {e : Engine} {l : Listener} (hears : e.hearer = some l) (event : Event)
    (use : Use) (rs : List Remark) :
    e.report event use rs = ({ e with phase := .reported use }, .report l event, rs) := by
  simp [report, hears]

section

variable (e : Engine) (s : Surroundings) {ph : Phase} {n : Nat}

theorem effort_focusOn (x : Expression) : (focusOn s x).effort ≤ cost x := by
  unfold focusOn
  split
  · exact Nat.le_refl _
  · exact Nat.zero_le _

theorem fillLine_serves (id text : String) (filled : List String) (rest : List Expression)
    (rs : List Remark) (enough : costs rest ≤ n) :
    Serves s e ph n (.line id text) (e.fillLine s id text filled rest rs) := by
  cases rest with
  | nil => exact .tell id text filled rs
  | cons x rest =>
    refine .evaluate (p := .line id text filled rest) rfl _ _ rs ?_
    have first := effort_focusOn s x
    simp only [costs] at enough
    simp only [Purpose.load, stackEffort]
    omega

theorem fillOffer_serves (destinations : List (Option String)) (offered : List DialogueOption)
    (rs : List Remark) (os : List ScriptOption) (enough : optionCosts os ≤ n) :
    Serves s e ph n (.offer destinations) (e.fillOffer s destinations offered rs os) := by
  induction os generalizing offered with
  | nil => exact .offer destinations offered rs
  | cons o rest ih =>
    simp only [optionCosts] at enough
    unfold fillOffer
    split
    · next x hx =>
      refine .evaluate (p := .offer offered o rest destinations) rfl _ _ rs ?_
      have first := effort_focusOn s x
      rw [hx] at enough
      simp only [Purpose.load, stackEffort]
      dsimp only at enough
      omega
    · exact ih _ (by omega)

theorem deliverValue_serves (r : Except EvaluationError Value) (purpose : Purpose)
    (enough : purpose.load ≤ n)
    (evaluated : ∀ v, r = .ok v → ph = .evaluate purpose (.result (.ok v)) []) :
    Serves s e ph n purpose.topic (e.deliverValue s r purpose) := by
  cases purpose with
  | assign name =>
    cases r with
    | ok v => exact .store name v (evaluated v rfl)
    | error err => exact .settle name _
  | line id text filled rest => cases r <;> exact e.fillLine_serves s id text _ rest _ enough
  | offer offered o rest destinations =>
    unfold deliverValue
    dsimp only
    split <;> exact e.fillOffer_serves s destinations _ _ rest enough

theorem call_serves (purpose : Purpose) (stack : List Frame) (function : String)
    (args : List Value) (less : purpose.load + stackEffort stack < n) :
    Serves s e ph n purpose.topic (e.call s purpose stack function args) := by
  have failed (err : EvaluationError) (rs : List Remark) :
      Serves s e ph n purpose.topic (e.goTo (.evaluate purpose (.result (.error err)) []) rs) :=
    .evaluate rfl _ _ rs (Nat.lt_of_le_of_lt (Nat.le_add_right _ _) less)
  unfold call
  split
  · exact failed _ _
  · next library bound =>
    split
    · next f rs found =>
      obtain ⟨found, fits⟩ := FunctionTable.find?_eq_some.1 (congrArg Prod.fst found)
      exact .call rfl stack bound found fits rs less
    · exact failed _ _

theorem evaluateStep_serves (purpose : Purpose) (focus : Focus) (stack : List Frame) :
    Serves s e (.evaluate purpose focus stack) (purpose.load + focus.effort + stackEffort stack)
      purpose.topic (e.evaluateStep s purpose focus stack) := by
  unfold evaluateStep
  split
  · exact .evaluate rfl _ _ _ (by simp [Focus.effort, cost])
  · exact .evaluate rfl _ _ _ (by simp [Focus.effort, cost])
  · exact e.call_serves s _ _ _ _ (by simp only [Focus.effort, cost]; omega)
  · exact .evaluate rfl _ _ _ (by simp only [Focus.effort, stackEffort, cost, costs]; omega)
  · exact e.deliverValue_serves s _ purpose (by omega) nofun
  · split
    · refine e.deliverValue_serves s _ purpose (by omega) fun v same => ?_
      cases same
      rfl
    · exact e.call_serves s _ _ _ _ (by simp only [stackEffort]; omega)
    · exact .evaluate rfl _ _ _ (by simp only [Focus.effort, stackEffort, costs]; omega)

end

/-! ### Instructions -/

/-- What comes of an instruction of a node when it is begun. -/
inductive Performs (s : Surroundings) (e : Engine) (node : String) : Instruction → Turn → Prop
  | line {id text : String} {substitutions : List Expression} {t : Turn}
      (serves : Serves s e .step (costs substitutions) (.line id text) t) :
      Performs s e node (.line id text substitutions) t
  | options {os : List ScriptOption} {t : Turn}
      (serves : Serves s e .step (optionCosts os) (.offer (os.map (·.destination))) t) :
      Performs s e node (.options os) t
  | command (text : String) :
      Performs s e node (.command text) (e.report (.command (.ofScript text)) .plain [])
  | jump (destination : String) :
      Performs s e node (.jump destination) (e.report (.nodeEnd node) (.leave node destination) [])
  | set {name : String} {x : Expression} {t : Turn}
      (serves : Serves s e .step (1 + cost x) (.assign name) t) :
      Performs s e node (.set name x) t
  | stop : Performs s e node .stop (e.report (.nodeEnd node) .close [])

theorem perform_performs (e : Engine) (s : Surroundings) (node : String) (i : Instruction) :
    Performs s e node i (e.perform s node i) := by
  cases i with
  | line id text substitutions => exact .line (e.fillLine_serves s id text _ _ _ (Nat.le_refl _))
  | options os => exact .options (e.fillOffer_serves s _ _ _ os (Nat.le_refl _))
  | command text => exact .command text
  | jump destination => exact .jump destination
  | set name x =>
    refine .set ?_
    simp only [perform]
    split
    · refine .evaluate (p := .assign name) rfl _ _ _ ?_
      simp only [Purpose.load, Focus.effort, stackEffort]
      omega
    · exact .settle name _
  | stop => exact .stop

/-! ### Turns -/

/-- A step of the script is due in a node, and there is somebody to tell about it. -/
structure StepsIn (s : Surroundings) (e : Engine) (l : Listener) (node : String) : Prop where
  phase : e.phase = .step
  hears : s.listener = some l
  inside : e.node = some node

/-- How a turn of an engine can end. -/
inductive Ends (s : Surroundings) (e : Engine) : Turn → Prop
  /-- Nobody listens. -/
  | unheard (phase : e.phase = .step) (nobody : s.listener = none) (rs : List Remark) :
      Ends s e ({ e with hearer := none }.goTo (.settle .halt) rs)
  /-- The engine is in no node. -/
  | outside (phase : e.phase = .step) {l : Listener} (hears : s.listener = some l)
      (out : e.node = none) : Ends s e ({ e with hearer := some l }.goTo (.settle .halt) [])
  /-- Options wait for a choice that has not been made. -/
  | undecided {l : Listener} {node : String} (steps : StepsIn s e l node)
      (waiting : e.choices.isSome = true) (open_ : e.selected = none) (rs : List Remark) :
      Ends s e ({ e with hearer := some l }.goTo (.settle .halt) rs)
  /-- The chosen option goes on in the node. -/
  | chosen {l : Listener} {node : String} (steps : StepsIn s e l node)
      {destinations : List (Option String)} (waiting : e.choices = some destinations)
      {id : OptionId} (made : e.selected = some id) (stays : destinations[id]?.join = none) :
      Ends s e
        ({ e with hearer := some l, choices := none, selected := none }.goTo (.settle .next) [])
  /-- The chosen option goes to another node. -/
  | depart {l : Listener} {node : String} (steps : StepsIn s e l node)
      {destinations : List (Option String)} (waiting : e.choices = some destinations)
      {id : OptionId} (made : e.selected = some id) {destination : String}
      (leads : destinations[id]?.join = some destination) :
      Ends s e
        ({ e with hearer := some l, choices := none, selected := none }.report
          (.nodeEnd node) (.leave node destination) [])
  /-- The start of the node is reported. -/
  | begin {l : Listener} {node : String} (steps : StepsIn s e l node) (free : e.choices = none)
      (unstarted : e.nodeStarted = false) :
      Ends s e ({ e with hearer := some l, nodeStarted := true }.report (.nodeStart node) .plain [])
  /-- An instruction of the node is begun. -/
  | perform {l : Listener} {node : String} (steps : StepsIn s e l node) (free : e.choices = none)
      (started : e.nodeStarted = true) {i : Instruction}
      (stands : e.script.instruction? node e.index = some i) {t : Turn}
      (performs : Performs s { e with hearer := some l, index := e.index + 1 } node i t) :
      Ends s e t
  /-- No instruction of the node is left. -/
  | finish {l : Listener} {node : String} (steps : StepsIn s e l node) (free : e.choices = none)
      (started : e.nodeStarted = true) :
      Ends s e ({ e with hearer := some l }.report (.nodeEnd node) .close [])
  /-- The expressions of an instruction are evaluated. -/
  | evaluate {purpose : Purpose} {focus : Focus} {stack : List Frame}
      (phase : e.phase = .evaluate purpose focus stack) {t : Turn}
      (serves : Serves s e e.phase (purpose.load + focus.effort + stackEffort stack)
        purpose.topic t) : Ends s e t
  /-- The next step of the script is due. -/
  | again (phase : e.phase = .settle .next ∨ e.phase = .settle .wait ∧ e.resumeRequested = true)
      (rs : List Remark) :
      Ends s e ({ e with hearer := none, resumeRequested := false }.goTo .step rs)
  /-- The run is over for now. -/
  | pause (phase : e.phase = .settle .wait) (unasked : e.resumeRequested = false) :
      Ends s e ({ e with hearer := none, phase := .idle }, .rest, [])
  /-- The run is over. -/
  | halt (phase : e.phase = .settle .halt) :
      Ends s e ({ e with hearer := none, phase := .idle }, .rest, [])
  /-- An event is answered `next`. -/
  | next (phase : e.phase = .heard .plain .next) : Ends s e (e.goTo (.settle .next) [])
  /-- An event is answered `wait`, or makes the engine wait anyway. -/
  | wait (phase : e.phase = .heard .plain .wait ∨ ∃ answer, e.phase = .heard .choice answer)
      (rs : List Remark) : Ends s e (e.goTo (.settle .wait) rs)
  /-- The engine enters another node. -/
  | enter {node destination : String} {answer : NextAction}
      (phase : e.phase = .heard (.leave node destination) answer) (rs : List Remark) :
      Ends s e ((e.enter destination).goTo (.settle .next) rs)
  /-- The engine leaves its last node. -/
  | closed {answer : NextAction} (phase : e.phase = .heard .close answer) :
      Ends s e (e.leaveScript.report .dialogueEnd .halt [])
  /-- The dialogue is over. -/
  | halted {answer : NextAction} (phase : e.phase = .heard .halt answer) :
      Ends s e (e.goTo (.settle .halt) [])
  /-- Somebody else has the word. -/
  | still (phase : e.phase = .idle ∨ (∃ use, e.phase = .reported use) ∨
      ∃ purpose stack, e.phase = .calling purpose stack) : Ends s e (e, .rest, [])

section

variable (e : Engine) (s : Surroundings)

theorem takeStep_ends (phase : e.phase = .step) : Ends s e (e.takeStep s) := by
  unfold takeStep
  split
  · next nobody => exact .unheard phase nobody _
  · next l hears =>
    dsimp only
    split
    · next out => exact .outside phase hears out
    · next node inside =>
      have steps : StepsIn s e l node := ⟨phase, hears, inside⟩
      split
      · next destinations waiting =>
        split
        · next undecided => exact .undecided steps (by simp [waiting]) undecided _
        · next id made =>
          split
          · next destination leads => exact .depart steps waiting made leads
          · next stays => exact .chosen steps waiting made stays
      · next free =>
        split
        · next unstarted => exact .begin steps free (by simpa using unstarted)
        · next started =>
          have started : e.nodeStarted = true := by simpa using started
          split
          · next i stands => exact .perform steps free started stands (perform_performs _ s node i)
          · exact .finish steps free started

theorem endStep_ends (x : StepEnd) (phase : e.phase = .settle x) : Ends s e (e.endStep x) := by
  unfold endStep
  dsimp only
  split
  · next unasked =>
    -- no request was noted, so there is none to clear
    have ends := Ends.again (s := s) (.inl phase) []
    rwa [← show e.resumeRequested = false from unasked] at ends
  · exact .again (.inl phase) _
  · next asked => exact .again (.inr ⟨phase, asked⟩) _
  · next unasked => exact .pause phase unasked
  · exact .halt phase

theorem actOn_ends (use : Use) (answer : NextAction) (phase : e.phase = .heard use answer) :
    Ends s e (e.actOn use answer) := by
  cases use with
  | plain =>
    cases answer with
    | next => exact .next phase
    | wait => exact .wait (.inl phase) _
  | choice => cases answer <;> exact .wait (.inr ⟨_, phase⟩) _
  | leave node destination => exact .enter phase _
  | close => exact .closed phase
  | halt => exact .halted phase

/-- A turn ends in one of the ways listed. -/
theorem turn_ends : Ends s e (e.turn s) := by
  unfold turn
  split
  · next phase => exact e.takeStep_ends s phase
  · next x phase => exact e.endStep_ends s x phase
  · next use answer phase => exact e.actOn_ends s use answer phase
  · next purpose focus stack phase =>
    have serves := e.evaluateStep_serves s purpose focus stack
    rw [← phase] at serves
    exact .evaluate phase serves
  · next phase => exact .still (.inl phase)
  · next purpose stack phase => exact .still (.inr (.inr ⟨purpose, stack, phase⟩))
  · next use phase => exact .still (.inr (.inl ⟨use, phase⟩))

end

end Prompter.Engine

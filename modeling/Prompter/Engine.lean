import Prompter.Event
import Prompter.Library.Basic
import Prompter.Script.Basic

/-!
# Prompter.Engine

The engine that runs a script. It reports each instruction and goes on while it is answered `next`.

The engine is a machine that takes small turns. A turn that needs somebody else ends with a request
(report an event, call a function, store a variable), and the engine stays in a phase that says what
it is waiting for; `hear` and `receive` bring the answer. So whoever is asked may first do what they
like with the engine, and all that can happen is a sequence of the operations below.

* At most one run is under way. `continue?` during a run is only noted: it is honoured when the
  event being reported is answered `wait`, and dropped with a remark when it is answered `next`.
* Expressions are evaluated on a stack of started calls, because functions are the host's. A failed
  evaluation is remarked on and the run goes on.
* `stop` and `place` act at once, also in the middle of a run. A jump that has been begun still
  enters its destination, and the end of a node still completes the dialogue.
-/

namespace Prompter

inductive EvaluationError
  /-- No library is bound. -/
  | unbound
  | unsetVariable (name : String)
  /-- The function is unknown or takes another number of arguments. -/
  | uncallable (function : String)
deriving DecidableEq

def EvaluationError.message : EvaluationError → String
  | unbound => "no variable storage or function library is bound"
  | unsetVariable name => s!"variable '{name}' is not set"
  | uncallable function => s!"function '{function}' could not be called"

namespace Engine

/-- What an evaluated expression is for. -/
inductive Purpose
  /-- To be stored in a variable. -/
  | assign (name : String)
  /-- To fill a placeholder of a line; the texts so far and the expressions to come. -/
  | line (id text : String) (filled : List String) (rest : List Expression)
  /-- To decide whether an option is available; the options so far, this one and those to come. -/
  | offer (offered : List DialogueOption) (option : ScriptOption) (rest : List ScriptOption)
      (destinations : List (Option String))
deriving DecidableEq

/-- A call that has been started: its evaluated arguments and those to come. -/
structure Frame where
  function : String
  evaluated : List Value
  rest : List Expression
deriving DecidableEq

/-- What an evaluation looks at. -/
inductive Focus
  | expression (e : Expression)
  | result (r : Except EvaluationError Value)

/-- What the engine does with the answer to a report. -/
inductive Use
  /-- Go on or wait, as the answer says. -/
  | plain
  /-- Wait for a choice, whatever the answer says. -/
  | choice
  /-- Go from one node to another, whatever the answer says. -/
  | leave (node destination : String)
  /-- End the dialogue, whatever the answer says. -/
  | close
  /-- Halt, whatever the answer says. -/
  | halt
deriving DecidableEq

/-- How a step of the script ends. -/
inductive StepEnd
  | next
  | wait
  | halt
deriving DecidableEq, Repr

inductive Phase
  /-- No run is under way. -/
  | idle
  | step
  /-- A step of the script has ended. -/
  | settle (s : StepEnd)
  | evaluate (purpose : Purpose) (focus : Focus) (stack : List Frame)
  | calling (purpose : Purpose) (stack : List Frame)
  /-- An event has been reported and not answered yet. -/
  | reported (use : Use)
  /-- The answer has come. -/
  | heard (use : Use) (answer : NextAction)

end Engine

structure Engine where
  script : Script
  node : Option String := none
  /-- The place of the next instruction in the node. -/
  index : Nat := 0
  /-- Whether the start of the node has been reported. -/
  nodeStarted : Bool := false
  /-- The destinations of the options that wait for a choice. -/
  choices : Option (List (Option String)) := none
  /-- The choice that has been made. -/
  selected : Option OptionId := none
  /-- Whether the engine was asked to continue during the run. -/
  resumeRequested : Bool := false
  bound : Bool := false
  /-- Who is told about events, as long as they exist. -/
  listener : Option Listener := none
  /-- Who is told about the events of the current step. -/
  hearer : Option Listener := none
  phase : Engine.Phase := .idle

namespace Engine

/-- What an engine needs to know for a turn. -/
structure Surroundings where
  library : Option Library
  /-- The listener, if it still exists. -/
  listener : Option Listener

inductive Request
  /-- Another turn is due. -/
  | again
  /-- The run is over, or waits for an answer it has asked for. -/
  | rest
  /-- A listener is to be told about an event. -/
  | report (l : Listener) (e : Event)
  /-- A function of the host is to be called. -/
  | invoke (key : HostKey) (args : List Value)
  /-- A value is to be stored, and then another turn is due. -/
  | store (name : String) (value : Value)

abbrev Turn := Engine × Request × List Remark

def remark (level : LogLevel) (text : String) : Remark := ⟨level, .script, "script: " ++ text⟩

/-- Whether a run is under way. -/
def isRunning (e : Engine) : Bool :=
  match e.phase with
  | .idle => false
  | _ => true

def hasNode (e : Engine) (node : String) : Bool := e.script.nodes.contains node

/-- Asks the engine to go on; the flag says whether a run begins. -/
def continue? (e : Engine) : Engine × Bool :=
  if e.isRunning then ({ e with resumeRequested := true }, false)
  else ({ e with phase := .step, resumeRequested := false }, true)

/-- Puts the engine at the start of a node. -/
def enter (e : Engine) (node : String) : Engine :=
  { e with node := some node, index := 0, nodeStarted := false }

/-- Takes the engine out of its node. -/
def leaveScript (e : Engine) : Engine :=
  { e with node := none, index := 0, nodeStarted := false, choices := none }

/-- Puts the engine at the start of a node that exists, with no choice open. -/
def place (e : Engine) (node : String) : Except DialogueError Engine :=
  if e.hasNode node then .ok ({ e with choices := none, selected := none }.enter node)
  else .error (.unknownNode node)

def stop (e : Engine) : Engine × List Remark :=
  (e.leaveScript, match e.node with
    | some node => [remark .debug s!"stopped in node '{node}'"]
    | none => [])

/-- Notes the choice among the options that wait for one. -/
def choose (e : Engine) (id : OptionId) : Engine × List Remark :=
  if e.choices.isSome then ({ e with selected := some id }, [])
  else (e, [remark .warn s!"option {id} selected while no options are pending"])

/-- A turn that only changes the phase. -/
def goTo (e : Engine) (phase : Phase) (remarks : List Remark) : Turn :=
  ({ e with phase := phase }, .again, remarks)

/-- A turn that reports an event. -/
def report (e : Engine) (event : Event) (use : Use) (remarks : List Remark) : Turn :=
  match e.hearer with
  | some l => ({ e with phase := .reported use }, .report l event, remarks)
  | none => e.goTo (.settle .halt) remarks

/-- The focus on an expression that is not part of another one. -/
def focusOn (s : Surroundings) (expression : Expression) : Focus :=
  if expression.isLiteral || s.library.isSome then .expression expression
  else .result (.error .unbound)

/-- Fills the placeholders of a line, then reports it. -/
def fillLine (e : Engine) (s : Surroundings) (id text : String) (filled : List String)
    (rest : List Expression) (remarks : List Remark) : Turn :=
  match rest with
  | [] => e.report (.line ⟨id, text, filled⟩) .plain remarks
  | x :: rest => e.goTo (.evaluate (.line id text filled rest) (focusOn s x) []) remarks

/-- An option of a script as it is offered; its place in the set is its id. -/
def offerOption (o : ScriptOption) (id : OptionId) (available : Bool) : DialogueOption :=
  ⟨id, ⟨o.id.getD o.text, o.text, []⟩, available⟩

/-- Decides which options are available, then reports the set. -/
def fillOffer (e : Engine) (s : Surroundings) (destinations : List (Option String))
    (offered : List DialogueOption) (remarks : List Remark) : List ScriptOption → Turn
  | [] =>
    { e with choices := some destinations, selected := none }.report
      (.options ⟨offered⟩) .choice remarks
  | o :: rest =>
    match o.condition with
    | some x => e.goTo (.evaluate (.offer offered o rest destinations) (focusOn s x) []) remarks
    | none =>
      e.fillOffer s destinations (offered ++ [offerOption o offered.length o.available]) remarks
        rest

/-- Begins an instruction of a node. -/
def perform (e : Engine) (s : Surroundings) (node : String) : Instruction → Turn
  | .line id text substitutions => e.fillLine s id text [] substitutions []
  | .options os => e.fillOffer s (os.map (·.destination)) [] [] os
  | .command text => e.report (.command (.ofScript text)) .plain []
  | .jump destination => e.report (.nodeEnd node) (.leave node destination) []
  | .set name value =>
    if s.library.isSome then e.goTo (.evaluate (.assign name) (.expression value) []) []
    else
      e.goTo (.settle .next)
        [remark .error s!"cannot set {name}: no variable storage is bound"]
  | .stop => e.report (.nodeEnd node) .close []

/-- Takes the step of the script that is due. -/
def takeStep (e : Engine) (s : Surroundings) : Turn :=
  match s.listener with
  | none =>
    { e with hearer := none }.goTo (.settle .halt) [remark .warn "no event handler attached"]
  | some l =>
    let e := { e with hearer := some l }
    match e.node with
    | none => e.goTo (.settle .halt) []
    | some node =>
      match e.choices with
      | some destinations =>
        match e.selected with
        | none =>
          e.goTo (.settle .halt) [remark .warn "continued without an option being selected"]
        | some id =>
          let e := { e with choices := none, selected := none }
          match destinations[id]?.join with
          | some destination => e.report (.nodeEnd node) (.leave node destination) []
          | none => e.goTo (.settle .next) []
      | none =>
        if !e.nodeStarted then { e with nodeStarted := true }.report (.nodeStart node) .plain []
        else
          match e.script.instruction? node e.index with
          | some i => { e with index := e.index + 1 }.perform s node i
          | none => e.report (.nodeEnd node) .close []

def endStep (e : Engine) (s : StepEnd) : Turn :=
  let e := { e with hearer := none }
  match s, e.resumeRequested with
  | .next, false => e.goTo .step []
  | .next, true =>
    { e with resumeRequested := false }.goTo .step
      [remark .debug "dropping a continue issued during a non-waiting event"]
  | .wait, true => { e with resumeRequested := false }.goTo .step []
  | .wait, false | .halt, _ => ({ e with phase := .idle }, .rest, [])

/-- Acts on the answer to a report. -/
def actOn (e : Engine) (use : Use) (answer : NextAction) : Turn :=
  match use, answer with
  | .plain, .next => e.goTo (.settle .next) []
  | .plain, .wait => e.goTo (.settle .wait) []
  | .choice, .next =>
    e.goTo (.settle .wait) [remark .warn "options must wait for a selection"]
  | .choice, .wait => e.goTo (.settle .wait) []
  | .leave node destination, answer =>
    let asked := match answer with
      | .wait => [remark .debug s!"handler asked to wait at the end of '{node}'; ignoring"]
      | .next => []
    (e.enter destination).goTo (.settle .next)
      (asked ++ [remark .trace s!"jump to '{destination}'"])
  | .close, _ => e.leaveScript.report .dialogueEnd .halt []
  | .halt, _ => e.goTo (.settle .halt) []

def call (e : Engine) (s : Surroundings) (purpose : Purpose) (stack : List Frame)
    (function : String) (args : List Value) : Turn :=
  match s.library with
  | none => e.goTo (.evaluate purpose (.result (.error .unbound)) []) []
  | some library =>
    match library.functions.find? function args.length with
    | (some f, remarks) => ({ e with phase := .calling purpose stack }, .invoke f.key args, remarks)
    | (none, remarks) =>
      e.goTo (.evaluate purpose (.result (.error (.uncallable function))) []) remarks

/-- Puts the value of an expression to its purpose. -/
def deliverValue (e : Engine) (s : Surroundings) (r : Except EvaluationError Value) :
    Purpose → Turn
  | .assign name =>
    match r with
    | .ok v => ({ e with phase := .settle .next }, .store name v, [])
    | .error err =>
      e.goTo (.settle .next) [remark .error s!"cannot set {name}: {err.message}"]
  | .line id text filled rest =>
    match r with
    | .ok v => e.fillLine s id text (filled ++ [v.display]) rest []
    | .error err =>
      e.fillLine s id text (filled ++ [""]) rest
        [remark .error s!"substitution failed: {err.message}"]
  | .offer offered o rest destinations =>
    let offer (available : Bool) (remarks : List Remark) : Turn :=
      e.fillOffer s destinations (offered ++ [offerOption o offered.length available]) remarks rest
    match r with
    | .ok (.bool passed) => offer (o.available && passed) []
    | .ok v =>
      offer false [remark .error s!"condition on '{o.text}' gave {v.display}, not a bool"]
    | .error err =>
      offer false [remark .error s!"condition on '{o.text}' failed: {err.message}"]

/-- Takes one step of an evaluation. -/
def evaluateStep (e : Engine) (s : Surroundings) (purpose : Purpose) (focus : Focus)
    (stack : List Frame) : Turn :=
  match focus with
  | .expression (.literal v) => e.goTo (.evaluate purpose (.result (.ok v)) stack) []
  | .expression (.read name) =>
    let r := match s.library with
      | none => .error .unbound
      | some library => ((library.storage.find? name).elim (.error (.unsetVariable name)) .ok)
    e.goTo (.evaluate purpose (.result r) stack) []
  | .expression (.call f []) => e.call s purpose stack f []
  | .expression (.call f (x :: rest)) =>
    e.goTo (.evaluate purpose (.expression x) (⟨f, [], rest⟩ :: stack)) []
  | .result (.error err) => e.deliverValue s (.error err) purpose
  | .result (.ok v) =>
    match stack with
    | [] => e.deliverValue s (.ok v) purpose
    | ⟨f, evaluated, []⟩ :: stack => e.call s purpose stack f (evaluated ++ [v])
    | ⟨f, evaluated, x :: rest⟩ :: stack =>
      e.goTo (.evaluate purpose (.expression x) (⟨f, evaluated ++ [v], rest⟩ :: stack)) []

def turn (e : Engine) (s : Surroundings) : Turn :=
  match e.phase with
  | .step => e.takeStep s
  | .settle ending => e.endStep ending
  | .heard use answer => e.actOn use answer
  | .evaluate purpose focus stack => e.evaluateStep s purpose focus stack
  | .idle | .calling _ _ | .reported _ => (e, .rest, [])

/-- Brings the answer to the event that was reported. -/
def hear (e : Engine) (answer : NextAction) : Engine :=
  match e.phase with
  | .reported use => { e with phase := .heard use answer }
  | _ => e

/-- Brings the value of the function that was called. -/
def receive (e : Engine) (v : Value) : Engine :=
  match e.phase with
  | .calling purpose stack => { e with phase := .evaluate purpose (.result (.ok v)) stack }
  | _ => e

/-! ### What the operations change -/

section

variable (e : Engine)

theorem continue?_of_idle (idle : e.phase = .idle) :
    e.continue? = ({ e with phase := .step, resumeRequested := false }, true) := by
  simp [continue?, isRunning, idle]

theorem continue?_of_reported {use : Use} (reported : e.phase = .reported use) :
    e.continue? = ({ e with resumeRequested := true }, false) := by
  simp [continue?, isRunning, reported]

/-- A choice is noted, or ignored. -/
theorem choose_eq (id : OptionId) : ∃ choice, (e.choose id).1 = { e with selected := choice } := by
  unfold choose
  split
  · exact ⟨some id, rfl⟩
  · exact ⟨e.selected, rfl⟩

/-- An engine is put exactly at those nodes that its script has. -/
theorem place_eq_ok {e e' : Engine} {node : String} : e.place node = .ok e' ↔
    e.hasNode node = true ∧ e' = { e with choices := none, selected := none }.enter node := by
  unfold place
  split
  · next known => exact ⟨fun same => ⟨known, (Except.ok.inj same).symm⟩, fun same => by rw [same.2]⟩
  · next unknown => exact ⟨fun same => by simp at same, fun same => absurd same.1 unknown⟩

theorem hear_of_reported {use : Use} (reported : e.phase = .reported use) (answer : NextAction) :
    e.hear answer = { e with phase := .heard use answer } := by
  simp [hear, reported]

theorem receive_of_calling {purpose : Purpose} {stack : List Frame}
    (calling : e.phase = .calling purpose stack) (v : Value) :
    e.receive v = { e with phase := .evaluate purpose (.result (.ok v)) stack } := by
  simp [receive, calling]

end

end Engine

end Prompter

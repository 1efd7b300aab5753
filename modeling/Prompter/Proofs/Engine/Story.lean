import Prompter.Proofs.Engine.Prospect

/-!
# Prompter.Proofs.Engine.Story

The story that a script tells.

`Story.step` reads a script instruction by instruction, with nobody to be asked: what functions
answer and what the player chooses is given beforehand. An engine tells the same story in many small
turns. Wherever it has got to, `Engine.outlook` reads back how far the story has been told, with the
instruction that is under way taken as done, and each turn leaves that as it is or makes one step of
the story (`turn_outlook`).
-/

namespace Prompter

/-! ### Expressions -/

/-- The functions of a host, and what they answer. -/
structure World where
  functions : FunctionTable
  answer : HostKey → List Value → Value

/-- The value of a call. -/
def World.apply (w : World) (function : String) (args : List Value) :
    Except EvaluationError Value :=
  match (w.functions.find? function args.length).1 with
  | some f => .ok (w.answer f.key args)
  | none => .error (.uncallable function)

namespace Expression

mutual

/-- The value of an expression. -/
def value (w : World) (vs : Variables) : Expression → Except EvaluationError Value
  | literal v => .ok v
  | read name => (vs.find? name).elim (.error (.unsetVariable name)) .ok
  | call function args => (values w vs args).bind (w.apply function)

/-- The values of expressions, up to the first that has none. -/
def values (w : World) (vs : Variables) : List Expression → Except EvaluationError (List Value)
  | [] => .ok []
  | x :: xs => (value w vs x).bind fun v => (values w vs xs).map (v :: ·)

end

/-- How an expression reads in a line. One without a value leaves its place empty. -/
def shown : Except EvaluationError Value → String
  | .ok v => v.display
  | .error _ => ""

end Expression

/-- Stores the value of an expression, if it has one and the name is that of a variable. -/
def Variables.assign (vs : Variables) (name : String) : Except EvaluationError Value → Variables
  | .ok v =>
    match vs.set name v with
    | .ok vs => vs
    | .error _ => vs
  | .error _ => vs

namespace ScriptOption

/-- Whether an option is available, given the value of its condition. -/
def passes (o : ScriptOption) : Except EvaluationError Value → Bool
  | .ok (.bool passed) => o.available && passed
  | _ => false

def isOffered (w : World) (vs : Variables) (o : ScriptOption) : Bool :=
  match o.condition with
  | some x => o.passes (x.value w vs)
  | none => o.available

/-- Options as they are offered, numbered from `id`. -/
def offers (w : World) (vs : Variables) : Nat → List ScriptOption → List DialogueOption
  | _, [] => []
  | id, o :: rest => Engine.offerOption o id (o.isOffered w vs) :: offers w vs (id + 1) rest

end ScriptOption

/-! ### Stories -/

/-- A place in a story. -/
inductive Spot
  /-- A node is to be started. -/
  | entrance (node : String)
  /-- Instructions of a node are to follow. -/
  | within (node : String) (rest : List Instruction)
  /-- The player is to choose where to go. -/
  | choosing (node : String) (destinations : List (Option String)) (rest : List Instruction)
  | ended
deriving DecidableEq

/-- What has been told of a story, and where it stands. -/
structure Tale where
  told : List Event
  storage : Variables
  spot : Spot

/-- Goes on with a story that tells what happens. -/
def Tale.tell (t : Tale) (events : List Event) (spot : Spot) : Tale :=
  { t with told := t.told ++ events, spot := spot }

/-- The instructions of a node. -/
def Script.body (s : Script) (node : String) : List Instruction := (s.nodes.find? node).getD []

/-- A script, the world it is told in, and a player who chooses by what has been told. -/
structure Story where
  script : Script
  world : World
  player : List Event → OptionId

namespace Story

/-- Reads the next instruction. -/
def step (σ : Story) (t : Tale) : Tale :=
  match t.spot with
  | .entrance node => t.tell [.nodeStart node] (.within node (σ.script.body node))
  | .within node [] => t.tell [.nodeEnd node, .dialogueEnd] .ended
  | .within node (i :: rest) =>
    match i with
    | .line id text substitutions =>
      let filled := substitutions.map fun x => Expression.shown (x.value σ.world t.storage)
      t.tell [.line ⟨id, text, filled⟩] (.within node rest)
    | .options os =>
      t.tell [.options ⟨ScriptOption.offers σ.world t.storage 0 os⟩]
        (.choosing node (os.map (·.destination)) rest)
    | .command text => t.tell [.command (.ofScript text)] (.within node rest)
    | .jump destination => t.tell [.nodeEnd node] (.entrance destination)
    | .set name x =>
      { t with
        storage := t.storage.assign name (x.value σ.world t.storage)
        spot := .within node rest }
    | .stop => t.tell [.nodeEnd node, .dialogueEnd] .ended
  | .choosing node destinations rest =>
    match destinations[σ.player t.told]?.join with
    | some destination => t.tell [.nodeEnd node] (.entrance destination)
    | none => { t with spot := .within node rest }
  | .ended => t

/-- The story after a number of instructions. -/
def tale (σ : Story) (t : Tale) : Nat → Tale
  | 0 => t
  | n + 1 => σ.step (σ.tale t n)

/-- A story goes on from one place to another. -/
def Reaches (σ : Story) (t t' : Tale) : Prop := ∃ n, t' = σ.tale t n

variable {σ : Story} {t t' t'' : Tale}

theorem Reaches.refl : σ.Reaches t t := ⟨0, rfl⟩

theorem Reaches.step : σ.Reaches t (σ.step t) := ⟨1, rfl⟩

theorem Reaches.trans (r : σ.Reaches t t') (r' : σ.Reaches t' t'') : σ.Reaches t t'' := by
  obtain ⟨m, rfl⟩ := r
  obtain ⟨n, rfl⟩ := r'
  refine ⟨m + n, ?_⟩
  induction n with
  | zero => rfl
  | succ n ih => exact congrArg σ.step ih

end Story

/-! ### What an engine is about to tell -/

namespace Engine

section

variable (w : World) (vs : Variables)

/-- The value of a call that has been started, given the value of the argument that is evaluated
next. -/
def Frame.value (f : Frame) (v : Value) : Except EvaluationError Value :=
  (Expression.values w vs f.rest).bind fun rest => w.apply f.function (f.evaluated ++ v :: rest)

def Focus.value : Focus → Except EvaluationError Value
  | .expression x => x.value w vs
  | .result r => r

/-- The value of an expression of which a part has been evaluated. -/
def unwind (r : Except EvaluationError Value) : List Frame → Except EvaluationError Value
  | [] => r
  | f :: stack => unwind (r.bind (f.value w vs)) stack

/-- Where an engine stands between two instructions. -/
def spot (e : Engine) : Spot :=
  match e.node with
  | none => .ended
  | some node =>
    let rest := (e.script.body node).drop e.index
    match e.choices with
    | some destinations => .choosing node destinations rest
    | none => if e.nodeStarted then .within node rest else .entrance node

variable (told : List Event)

/-- The story when the value of an expression has been put to its purpose. -/
def Purpose.outlook (e : Engine) (r : Except EvaluationError Value) : Purpose → Tale
  | .assign name => ⟨told, vs.assign name r, e.spot⟩
  | .line id text filled rest =>
    let filled := filled ++ Expression.shown r :: rest.map fun x => Expression.shown (x.value w vs)
    ⟨told ++ [.line ⟨id, text, filled⟩], vs, e.spot⟩
  | .offer offered o rest destinations =>
    let options := offered ++ offerOption o offered.length (o.passes r) ::
      ScriptOption.offers w vs (offered.length + 1) rest
    ⟨told ++ [.options ⟨options⟩], vs, { e with choices := some destinations }.spot⟩

/-- The story that an engine tells, with what is under way taken as done. -/
def outlook (e : Engine) : Tale :=
  match e.phase with
  | .evaluate purpose focus stack =>
    purpose.outlook w vs told e (unwind w vs (focus.value w vs) stack)
  | .reported (.leave _ destination) | .heard (.leave _ destination) _ =>
    ⟨told, vs, .entrance destination⟩
  | .reported .close | .heard .close _ => ⟨told ++ [.dialogueEnd], vs, .ended⟩
  | .idle | .step | .settle _ | .calling _ _ | .reported _ | .heard _ _ => ⟨told, vs, e.spot⟩

/-- The engine when what it has requested has been answered. -/
def Request.answered (e : Engine) : Request → Engine
  | .invoke key args => e.receive (w.answer key args)
  | _ => e

/-- The variables when a request has been met. -/
def Request.stored : Request → Variables
  | .store name v => vs.assign name (.ok v)
  | _ => vs

/-- The story that an engine tells after a turn. -/
def Turn.outlook (t : Turn) : Tale :=
  (t.2.1.answered w t.1).outlook w (t.2.1.stored vs) (told ++ t.2.1.event?.toList)

end

/-! ### Evaluations -/

section

variable {w : World} {vs : Variables} {told : List Event} {l : Listener}

theorem value_call_cons (function : String) (x : Expression) (rest : List Expression) :
    (Expression.call function (x :: rest)).value w vs =
      (x.value w vs).bind (Frame.value w vs ⟨function, [], rest⟩) := by
  rw [Expression.value, Expression.values]
  cases x.value w vs with
  | error err => rfl
  | ok v =>
    cases hr : Expression.values w vs rest <;> simp [Except.bind, Except.map, Frame.value, hr]

theorem Frame.value_cons (function : String) (evaluated : List Value) (v : Value) (x : Expression)
    (rest : List Expression) :
    Frame.value w vs ⟨function, evaluated, x :: rest⟩ v =
      (x.value w vs).bind (Frame.value w vs ⟨function, evaluated ++ [v], rest⟩) := by
  rw [Frame.value, Expression.values]
  cases x.value w vs with
  | error err => rfl
  | ok v =>
    cases hr : Expression.values w vs rest <;> simp [Except.bind, Except.map, Frame.value, hr]

theorem unwind_error (err : EvaluationError) (stack : List Frame) :
    unwind w vs (.error err) stack = .error err := by
  induction stack with
  | nil => rfl
  | cons f stack ih => exact ih

variable (e : Engine)

@[simp] theorem outlook_goTo (phase : Phase) (rs : List Remark) :
    Turn.outlook w vs told (e.goTo phase rs) = { e with phase := phase }.outlook w vs told := by
  simp only [Turn.outlook, goTo, Request.answered, Request.stored, Request.event?, Option.toList,
    List.append_nil]

theorem outlook_rest (rs : List Remark) :
    Turn.outlook w vs told (e, .rest, rs) = e.outlook w vs told := by
  simp only [Turn.outlook, Request.answered, Request.stored, Request.event?, Option.toList,
    List.append_nil]

theorem outlook_report (hears : e.hearer = some l) (event : Event) (use : Use)
    (rs : List Remark) :
    Turn.outlook w vs told (e.report event use rs) =
      { e with phase := .reported use }.outlook w vs (told ++ [event]) := by
  simp only [report, hears]
  rfl

variable {s : Surroundings} (bound : s.library = some ⟨vs, w.functions⟩)

include bound

theorem focusOn_of_bound (x : Expression) : focusOn s x = .expression x := by
  simp [focusOn, bound]

theorem outlook_call (purpose : Purpose) (stack : List Frame) (function : String)
    (args : List Value) :
    Turn.outlook w vs told (e.call s purpose stack function args) =
      purpose.outlook w vs told e (unwind w vs (w.apply function args) stack) := by
  simp only [call, bound, World.apply]
  rcases w.functions.find? function args.length with ⟨_ | f, rs⟩
  · simp only [outlook_goTo, unwind_error]
    rfl
  · simp only [Turn.outlook, Request.answered, Request.stored, Request.event?, Option.toList,
      List.append_nil]
    rfl

variable (hears : e.hearer = some l)

include hears

theorem outlook_fillLine (id text : String) (filled : List String) (rest : List Expression)
    (rs : List Remark) :
    Turn.outlook w vs told (e.fillLine s id text filled rest rs) =
      ⟨told ++ [.line ⟨id, text, filled ++ rest.map fun x => Expression.shown (x.value w vs)⟩],
        vs, e.spot⟩ := by
  cases rest with
  | nil =>
    rw [fillLine, e.outlook_report hears, List.map_nil, List.append_nil]
    rfl
  | cons x rest =>
    rw [fillLine, focusOn_of_bound bound, outlook_goTo]
    rfl

theorem outlook_fillOffer (destinations : List (Option String)) (offered : List DialogueOption)
    (rs : List Remark) (os : List ScriptOption) :
    Turn.outlook w vs told (e.fillOffer s destinations offered rs os) =
      ⟨told ++ [.options ⟨offered ++ ScriptOption.offers w vs offered.length os⟩], vs,
        { e with choices := some destinations }.spot⟩ := by
  induction os generalizing offered with
  | nil =>
    have hears : { e with choices := some destinations, selected := none }.hearer = some l := hears
    rw [fillOffer, outlook_report _ hears, ScriptOption.offers, List.append_nil]
    rfl
  | cons o rest ih =>
    rw [fillOffer, ScriptOption.offers, ScriptOption.isOffered]
    cases o.condition with
    | some x =>
      dsimp only
      rw [focusOn_of_bound bound, outlook_goTo]
      rfl
    | none =>
      dsimp only
      rw [ih, List.length_append, List.append_assoc]
      rfl

theorem outlook_deliverValue (r : Except EvaluationError Value) (purpose : Purpose) :
    Turn.outlook w vs told (e.deliverValue s r purpose) = purpose.outlook w vs told e r := by
  cases purpose with
  | assign name =>
    cases r with
    | ok v =>
      rw [Turn.outlook, Purpose.outlook]
      simp only [deliverValue, Request.event?, Option.toList, List.append_nil]
      rfl
    | error err =>
      rw [deliverValue, outlook_goTo]
      rfl
  | line id text filled rest =>
    rw [Purpose.outlook]
    cases r with
    | ok v =>
      rw [deliverValue, e.outlook_fillLine bound hears, List.append_assoc]
      rfl
    | error err =>
      rw [deliverValue, e.outlook_fillLine bound hears, List.append_assoc]
      rfl
  | offer offered o rest destinations =>
    have offer (available : Bool) (rs : List Remark) :
        Turn.outlook w vs told (e.fillOffer s destinations
          (offered ++ [offerOption o offered.length available]) rs rest) =
        ⟨told ++ [.options ⟨offered ++ offerOption o offered.length available ::
          ScriptOption.offers w vs (offered.length + 1) rest⟩], vs,
          { e with choices := some destinations }.spot⟩ := by
      rw [e.outlook_fillOffer bound hears, List.length_append, List.append_assoc]
      rfl
    cases r with
    | ok v => cases v <;> exact offer _ _
    | error err => exact offer _ _

/-- A step of an evaluation leaves its value as it is. -/
theorem outlook_evaluateStep (purpose : Purpose) (focus : Focus) (stack : List Frame) :
    Turn.outlook w vs told (e.evaluateStep s purpose focus stack) =
      purpose.outlook w vs told e (unwind w vs (focus.value w vs) stack) := by
  unfold evaluateStep
  split
  · rw [outlook_goTo]
    rfl
  · simp only [bound, outlook_goTo]
    rfl
  · rw [e.outlook_call bound]
    rfl
  · rw [outlook_goTo, Focus.value, value_call_cons]
    rfl
  · rw [e.outlook_deliverValue bound hears, Focus.value, unwind_error]
  · split
    · rw [e.outlook_deliverValue bound hears]
      rfl
    · rw [e.outlook_call bound]
      rfl
    · rw [outlook_goTo, unwind, Focus.value, Except.bind, Frame.value_cons]
      rfl

end

/-! ### Instructions -/

/-- What has been told is the beginning of what is going to be told. -/
theorem told_prefix_outlook (w : World) (vs : Variables) (told : List Event) (e : Engine) :
    told <+: (e.outlook w vs told).told := by
  unfold outlook
  split
  · next purpose _ _ _ =>
    cases purpose with
    | assign => exact List.prefix_rfl
    | line | offer => exact List.prefix_append _ _
  all_goals first | exact List.prefix_rfl | exact List.prefix_append _ _


section

variable {σ : Story} {vs : Variables} {told : List Event} {l : Listener} {s : Surroundings}
  {e : Engine} {node : String}

theorem spot_choosing (inside : e.node = some node) {destinations : List (Option String)}
    (waiting : e.choices = some destinations) :
    e.spot = .choosing node destinations ((e.script.body node).drop e.index) := by
  simp [spot, inside, waiting]

theorem spot_within (inside : e.node = some node) (free : e.choices = none)
    (started : e.nodeStarted = true) :
    e.spot = .within node ((e.script.body node).drop e.index) := by
  simp [spot, inside, free, started]

theorem spot_entrance (inside : e.node = some node) (free : e.choices = none)
    (unstarted : e.nodeStarted = false) : e.spot = .entrance node := by
  simp [spot, inside, free, unstarted]

theorem instruction?_eq (script : Script) (node : String) (index : Nat) :
    script.instruction? node index = (script.body node)[index]? := by
  unfold Script.instruction? Script.body
  cases script.nodes.find? node <;> rfl

variable (bound : s.library = some ⟨vs, σ.world.functions⟩)

include bound

/-- An instruction that is begun is a step of the story. -/
theorem outlook_perform (hears : e.hearer = some l) (inside : e.node = some node)
    (free : e.choices = none) (started : e.nodeStarted = true) (i : Instruction) :
    Turn.outlook σ.world vs told (e.perform s node i) =
      σ.step ⟨told, vs, .within node (i :: (e.script.body node).drop e.index)⟩ := by
  have here := spot_within inside free started
  cases i with
  | line id text substitutions =>
    rw [perform, e.outlook_fillLine bound hears, here]
    rfl
  | options os =>
    have there :=
      spot_choosing (e := { e with choices := some (os.map (·.destination)) }) inside rfl
    rw [perform, e.outlook_fillOffer bound hears, there]
    rfl
  | command text =>
    rw [perform, e.outlook_report hears]
    exact congrArg (Tale.mk (told ++ [.command (.ofScript text)]) vs) here
  | jump destination =>
    rw [perform, e.outlook_report hears]
    rfl
  | set name x =>
    rw [perform, bound, Option.isSome_some, if_pos rfl, outlook_goTo]
    exact congrArg (Tale.mk told (vs.assign name (x.value σ.world vs))) here
  | stop =>
    rw [perform, e.outlook_report hears]
    exact congrArg (Tale.mk · vs .ended) (List.append_assoc told _ _)

/-- A step of the script is one of the story, unless the story is over or the player has not
chosen. -/
theorem outlook_takeStep (hl : s.listener = some l) (script : e.script = σ.script)
    (fresh : e.nodeStarted = false → e.index = 0 ∧ e.choices = none)
    (picks : ∀ id, e.choices.isSome = true → e.selected = some id → σ.player told = id) :
    Turn.outlook σ.world vs told (e.takeStep s) = ⟨told, vs, e.spot⟩ ∨
      (e.choices.isSome = true → e.selected.isSome = true) ∧
        Turn.outlook σ.world vs told (e.takeStep s) = σ.step ⟨told, vs, e.spot⟩ := by
  unfold takeStep
  simp only [hl]
  split
  · exact .inl (outlook_goTo _ _ _)
  · next node inside =>
    split
    · next destinations waiting =>
      split
      · exact .inl (outlook_goTo _ _ _)
      · next id selected =>
        have picked := picks id (by simp [waiting]) selected
        have started : e.nodeStarted = true := by
          cases unstarted : e.nodeStarted with
          | true => rfl
          | false => cases waiting.symm.trans (fresh unstarted).2
        refine .inr ⟨fun _ => by simp [selected], ?_⟩
        rw [spot_choosing inside waiting, Story.step]
        dsimp only
        rw [picked]
        cases destinations[id]?.join with
        | some destination =>
          dsimp only
          rw [outlook_report (l := l) _ rfl]
          rfl
        | none =>
          dsimp only
          rw [outlook_goTo]
          exact congrArg (Tale.mk told vs) (spot_within (e := { e with choices := none }) inside
            rfl started)
    · next free =>
      have decided : e.choices.isSome = true → e.selected.isSome = true := by simp [free]
      refine .inr ⟨decided, ?_⟩
      split
      · next unstarted =>
        have unstarted : e.nodeStarted = false := by simpa using unstarted
        have here := spot_within (e := { e with nodeStarted := true }) inside free rfl
        have whole : (e.script.body node).drop e.index = σ.script.body node := by
          rw [(fresh unstarted).1, List.drop_zero, script]
        rw [outlook_report (l := l) _ rfl, spot_entrance inside free unstarted]
        exact congrArg (Tale.mk (told ++ [.nodeStart node]) vs)
          (here.trans (congrArg (Spot.within node) whole))
      · next started =>
        have started : e.nodeStarted = true := by simpa using started
        have here := spot_within inside free started
        rw [here, instruction?_eq]
        split
        · next i hi =>
          obtain ⟨hk, rfl⟩ := List.getElem?_eq_some_iff.1 hi
          rw [List.drop_eq_getElem_cons hk]
          exact outlook_perform (e := { e with index := e.index + 1, hearer := some l }) bound rfl
            inside free started _
        · next none =>
          rw [List.drop_eq_nil_of_le (List.getElem?_eq_none_iff.1 none),
            outlook_report (l := l) _ rfl]
          exact congrArg (Tale.mk · vs .ended) (List.append_assoc told _ _)

end

end Engine

end Prompter

import Prompter.Proofs.Engine.Supply
import Prompter.Proofs.Session.Purity

/-!
# Prompter.Proofs.Session.Assignment

What a set instruction does to a session.

The engine takes a turn to begin with the instruction, some to evaluate the expression
(`getsTo_result`), one to store the value and one to get to the next instruction. If functions do
nothing but answer, this is the one thing that can happen (`IsDue.sets`), and the variables are
those before the instruction until they are those after it.
-/

namespace Prompter

/-! ### Variables -/

namespace Variables

variable {name : String} (vs : Variables)

theorem isName_iff : isName name = true ↔ ∃ rest, name = "$" ++ rest := by
  unfold isName
  rw [decide_eq_true_iff]
  constructor
  · intro first
    obtain ⟨rest, parts⟩ := List.head?_eq_some_iff.1 first
    refine ⟨String.ofList rest, String.toList_inj.1 ?_⟩
    simp [parts]
  · rintro ⟨rest, rfl⟩
    rw [String.toList_append]
    rfl

/-- A value that is stored changes no other variable. -/
theorem find?_assign (named : isName name = true) (v : Value) (other : String) :
    (vs.assign name (.ok v)).find? other = if other = name then some v else vs.find? other := by
  rw [assign, set, if_pos named]
  exact vs.values.find?_insert name v other

theorem assign_eq_self {r : Except EvaluationError Value}
    (kept : ∀ v, r = .ok v → isName name = false) : vs.assign name r = vs := by
  cases r with
  | error err => rfl
  | ok v => simp [assign, set, kept v rfl]

end Variables

namespace Engine

/-- An engine that evaluates an expression. -/
def evaluating (e : Engine) (purpose : Purpose) (focus : Focus) (stack : List Frame) : Engine :=
  { e with phase := .evaluate purpose focus stack }

/-- An engine that has begun with an instruction. -/
def begun (e : Engine) (l : Listener) : Engine :=
  { e with index := e.index + 1, hearer := some l }

/-- An engine that is done with an instruction and going to begin with the next one. -/
def passed (e : Engine) : Engine :=
  { e with index := e.index + 1, hearer := none, resumeRequested := false, phase := .step }

/-- A set instruction is begun by evaluating its expression, if a library is bound. -/
theorem perform_set (e : Engine) (s : Surroundings) (node name : String) (x : Expression) :
    ∃ rs, e.perform s node (.set name x) = e.goTo
      (if s.library.isSome then .evaluate (.assign name) (.expression x) []
        else .settle .next) rs := by
  unfold perform
  dsimp only
  split <;> exact ⟨_, rfl⟩

end Engine

namespace Session

variable {w : World} {vs : Variables} {P : Session → Prop} {s : Session} {e e' : Engine}
  {rest : List Item}

/-! ### Turns -/

/-- A session whose engine is about to take a turn. -/
def turning (s : Session) (e : Engine) (rest : List Item) : Session :=
  { s with engine := .script e, agenda := .turn :: rest }

/-- What the engine finds around it in its turn. -/
def vicinity (s : Session) (e : Engine) (rest : List Item) : Engine.Surroundings :=
  { s with engine := .script e, agenda := rest }.surroundings e

theorem eq_turning (he : s.engine = .script e) (top : s.agenda = .turn :: rest) :
    s = s.turning e rest := by
  cases s
  cases he
  cases top
  rfl

theorem turning_step (s : Session) (e : Engine) (rest : List Item) :
    (s.turning e rest).step.1 = { s with engine := .script e, agenda := rest }.turn.1 := by
  have busy : (s.turning e rest).awaitsHost = false := rfl
  have top : (s.turning e rest).agenda = .turn :: rest := rfl
  rw [step_eq_work busy top]
  rfl

section

variable (holds : P (s.turning e rest)) {rs : List Remark}

include holds

theorem getsTo_again (taken : e.turn (s.vicinity e rest) = (e', .again, rs)) :
    GetsTo w P (s.turning e rest) (s.turning e' rest) := by
  have step : (s.turning e rest).step.1 = s.turning e' rest := by
    rw [turning_step]
    unfold vicinity at taken
    simp only [turn, taken]
    rfl
  exact step ▸ .work holds rfl rfl

theorem getsTo_store {name : String} {v : Value}
    (taken : e.turn (s.vicinity e rest) = (e', .store name v, rs)) :
    GetsTo w P (s.turning e rest)
      ({ s with storage := s.storage.map fun vs : Variables => vs.assign name (.ok v) }.turning
        e' rest) := by
  have step : (s.turning e rest).step.1 =
      { s with storage := s.storage.map fun vs : Variables => vs.assign name (.ok v) }.turning
        e' rest := by
    rw [turning_step]
    unfold vicinity at taken
    simp only [turn, taken, store, push]
    cases s.storage with
    | none => rfl
    | some vs =>
      simp only [Option.map_some, Variables.assign]
      cases vs.set name v <;> rfl
  exact step ▸ .work holds rfl rfl

/-- A function is called and answers. `P` holds while it does. -/
theorem getsTo_invoke {key : HostKey} {args : List Value}
    (taken : e.turn (s.vicinity e rest) = (e', .invoke key args, rs))
    (holds' : P { s with engine := .script e', agenda := .invoke key args .engine :: rest }) :
    GetsTo w P (s.turning e rest) (s.turning (e'.receive (w.answer key args)) rest) := by
  have step : (s.turning e rest).step.1 =
      { s with engine := .script e', agenda := .invoke key args .engine :: rest } := by
    rw [turning_step]
    unfold vicinity at taken
    simp only [turn, taken]
    rfl
  have first : GetsTo w P (s.turning e rest) (s.turning e rest).step.1 := .work holds rfl rfl
  rw [step] at first
  exact first.trans (.answer holds' rfl)

end

/-! ### Evaluations -/

section

variable (bound : e.bound = true) (stored : s.storage = some vs)
  (same : s.functions = w.functions)

include bound stored same

theorem vicinity_library : (s.vicinity e rest).library = some ⟨vs, w.functions⟩ := by
  simp [vicinity, surroundings, bound, stored, same]

/-- An evaluation that is under way comes to its value, and nothing is stored meanwhile. -/
theorem getsTo_result (rest : List Item) (purpose : Engine.Purpose) (focus : Engine.Focus)
    (stack : List Engine.Frame) :
    ∃ stack', (Engine.Focus.result
        (Engine.unwind w vs (focus.value w vs) stack)).isOver stack' = true ∧
      GetsTo w (·.storage = s.storage) (s.turning (e.evaluating purpose focus stack) rest)
        (s.turning (e.evaluating purpose
          (.result (Engine.unwind w vs (focus.value w vs) stack)) stack') rest) := by
  cases ended : focus.isOver stack with
  | true =>
    have result : focus = .result (Engine.unwind w vs (focus.value w vs) stack) :=
      Engine.Focus.eq_result_of_isOver ended
    refine ⟨stack, result ▸ ended, ?_⟩
    rw [← result]
    exact .refl w _ _
  | false =>
    have library : (s.vicinity (e.evaluating purpose focus stack) rest).library =
        some ⟨vs, w.functions⟩ := vicinity_library bound stored same
    obtain ⟨focus', stack', getsOn, value, less⟩ :=
      (e.evaluating purpose focus stack).evaluateStep_getsOn library ended
    obtain ⟨last, ended', later⟩ := getsTo_result rest purpose focus' stack'
    refine ⟨last, value ▸ ended', ?_⟩
    rw [value] at later
    refine GetsTo.trans ?_ later
    generalize taken : Engine.evaluateStep _ _ purpose focus stack = t at getsOn
    obtain ⟨e', r, rs⟩ := t
    cases getsOn with
    | again => exact getsTo_again rfl taken
    | invoke key args =>
      exact getsTo_invoke (P := (·.storage = s.storage)) (e := e.evaluating purpose focus stack) rfl
        taken rfl
termination_by focus.effort + Engine.stackEffort stack

end

/-- The engine of a session is going to evaluate an expression, with the variables `vs` and the
functions of a world. -/
structure IsEvaluating (w : World) (s : Session) (e : Engine) (vs : Variables)
    (purpose : Engine.Purpose) (x : Expression) : Prop where
  engine : s.engine = .script e
  turn : ∃ rest, s.agenda = .turn :: rest
  phase : e.phase = .evaluate purpose (.expression x) []
  bound : e.bound = true
  stored : s.storage = some vs
  functions : s.functions = w.functions

/-- An engine that evaluates an expression comes to its value, and stores nothing meanwhile. -/
theorem IsEvaluating.getsTo {purpose : Engine.Purpose} {x : Expression}
    (evaluating : IsEvaluating w s e vs purpose x) :
    ∃ stack, (Engine.Focus.result (x.value w vs)).isOver stack = true ∧
      GetsTo w (·.storage = s.storage) s
        { s with engine := .script (e.evaluating purpose (.result (x.value w vs)) stack) } := by
  obtain ⟨engine, ⟨rest, turn⟩, phase, bound, stored, functions⟩ := evaluating
  obtain ⟨stack, ended, gets⟩ :=
    getsTo_result bound stored functions rest purpose (.expression x) []
  refine ⟨stack, ended, ?_⟩
  have same : e.evaluating purpose (.expression x) [] = e := by
    rw [Engine.evaluating, ← phase]
  rw [same, ← eq_turning engine turn] at gets
  have last : s.turning (e.evaluating purpose (.result (x.value w vs)) stack) rest =
      { s with engine := .script (e.evaluating purpose (.result (x.value w vs)) stack) } := by
    simp [turning, turn]
  exact last ▸ gets

/-! ### What is stored -/

/-- The variables after a set instruction. -/
def assigned (w : World) (s : Session) (e : Engine) (name : String) (x : Expression) :
    Option Variables :=
  if e.bound then s.storage.map fun vs => vs.assign name (x.value w vs) else s.storage

/-- A set instruction has a value to store, and a variable to store it in. -/
structure IsAssignable (w : World) (s : Session) (e : Engine) (name : String) (x : Expression)
    (vs : Variables) (v : Value) : Prop where
  bound : e.bound = true
  stored : s.storage = some vs
  value : x.value w vs = .ok v
  named : ∃ rest, name = "$" ++ rest

section

variable {name : String} {x : Expression} {v : Value}

theorem IsAssignable.stores (assignable : IsAssignable w s e name x vs v) :
    ∃ vs', s.assigned w e name x = some vs' ∧
      ∀ other, vs'.find? other = if other = name then some v else vs.find? other := by
  obtain ⟨bound, stored, value, named⟩ := assignable
  refine ⟨vs.assign name (x.value w vs), by simp [assigned, bound, stored], ?_⟩
  rw [value]
  exact vs.find?_assign (Variables.isName_iff.2 named) v

theorem assigned_eq_self (unassignable : ∀ vs v, ¬ IsAssignable w s e name x vs v) :
    s.assigned w e name x = s.storage := by
  unfold assigned
  split
  · next bound =>
    cases stored : s.storage with
    | none => rfl
    | some vs =>
      refine congrArg some (vs.assign_eq_self fun v value => ?_)
      by_contra named
      refine unassignable vs v ⟨bound, stored, value, Variables.isName_iff.1 ?_⟩
      simpa using named
  · rfl

end

/-! ### Set instructions -/

/-- The engine of a session is going to begin with an instruction in its next turn. -/
structure IsDue (s : Session) (e : Engine) (rest : List Item) (i : Instruction) : Prop where
  engine : s.engine = .script e
  turn : s.agenda = .turn :: rest
  phase : e.phase = .step
  heard : (s.surroundings e).listener.isSome = true
  free : e.choices = none
  started : e.nodeStarted = true
  instruction : ∃ node, e.node = some node ∧ e.script.instruction? node e.index = some i

theorem vicinity_unbound (unbound : ¬ (e.bound = true ∧ s.storage.isSome = true)) :
    (s.vicinity e rest).library = none := by
  unfold vicinity surroundings
  dsimp only
  split
  · next bound => simpa [bound] using unbound
  · rfl

theorem vicinity_listener (he : s.engine = .script e) (top : s.agenda = .turn :: rest) :
    (s.vicinity e rest).listener = (s.surroundings e).listener := by
  have same : (s.vicinity e rest).listener = ((s.turning e rest).surroundings e).listener := rfl
  rw [same, ← eq_turning he top]

/-- A step of the script that is an instruction. -/
theorem IsDue.taken {i : Instruction} (due : IsDue s e rest i) :
    ∃ l node, e.turn (s.vicinity e rest) = (e.begun l).perform (s.vicinity e rest) node i := by
  have listener := vicinity_listener due.engine due.turn
  obtain ⟨l, hl⟩ := Option.isSome_iff_exists.1 due.heard
  obtain ⟨node, inside, instruction⟩ := due.instruction
  refine ⟨l, node, ?_⟩
  simp [Engine.turn, Engine.begun, due.phase, Engine.takeStep, listener, hl, inside, due.free,
    due.started, instruction]

/-- An evaluated value is stored, if it can be. -/
theorem getsTo_stored {name : String} {r : Except EvaluationError Value}
    {stack : List Engine.Frame} (ended : (Engine.Focus.result r).isOver stack = true)
    (holds : P (s.turning (e.evaluating (.assign name) (.result r) stack) rest)) :
    GetsTo w P (s.turning (e.evaluating (.assign name) (.result r) stack) rest)
      ({ s with storage := s.storage.map fun vs : Variables => vs.assign name r }.turning
        { e with phase := .settle .next } rest) := by
  have delivers (around : Engine.Surroundings) :
      (e.evaluating (.assign name) (.result r) stack).turn around =
        (e.evaluating (.assign name) (.result r) stack).deliverValue around r (.assign name) :=
    Engine.evaluateStep_of_isOver _ ended
  cases r with
  | ok v => exact getsTo_store holds (delivers _)
  | error err =>
    have kept : (s.storage.map fun vs : Variables => vs.assign name (.error err)) = s.storage :=
      Option.map_id'
    rw [kept]
    exact getsTo_again holds (delivers _)

/-- From the end of a step the engine gets to the next one. -/
theorem getsTo_next (holds : P (s.turning { e with phase := .settle .next } rest)) :
    GetsTo w P (s.turning { e with phase := .settle .next } rest)
      (s.turning { e with hearer := none, resumeRequested := false, phase := .step } rest) := by
  obtain ⟨engine, request⟩ := { e with phase := .settle .next }.endStep_again .next (.inl rfl)
  exact getsTo_again holds (Prod.ext engine (Prod.ext request rfl))

section

variable {name : String} {x : Expression}

/-- A set instruction begins with its expression, if a library is bound. -/
theorem IsDue.begins (due : IsDue s e rest (.set name x)) :
    ∃ l rs, e.turn (s.vicinity e rest) = (e.begun l).goTo
      (if (s.vicinity e rest).library.isSome then .evaluate (.assign name) (.expression x) []
        else .settle .next) rs := by
  obtain ⟨l, node, taken⟩ := due.taken
  obtain ⟨rs, performs⟩ := (e.begun l).perform_set (s.vicinity e rest) node name x
  exact ⟨l, rs, taken.trans performs⟩

/-- From its beginning a set instruction comes to its end, and the variables are then as they are to
be. -/
theorem getsTo_assigned {l : Listener} {rs : List Remark} (same : s.functions = w.functions)
    (taken : e.turn (s.vicinity e rest) = (e.begun l).goTo
      (if (s.vicinity e rest).library.isSome then .evaluate (.assign name) (.expression x) []
        else .settle .next) rs) :
    GetsTo w (fun s' => s'.storage = s.storage ∨ s'.storage = s.assigned w e name x)
      (s.turning e rest)
      ({ s with storage := s.assigned w e name x }.turning
        { e.begun l with phase := .settle .next } rest) := by
  by_cases bound : e.bound = true ∧ s.storage.isSome = true
  · obtain ⟨bound, stored⟩ := bound
    obtain ⟨vs, stored⟩ := Option.isSome_iff_exists.1 stored
    have library : (s.vicinity e rest).library = some ⟨vs, w.functions⟩ :=
      vicinity_library bound stored same
    rw [library] at taken
    have begins : GetsTo w (·.storage = s.storage) (s.turning e rest)
        (s.turning ((e.begun l).evaluating (.assign name) (.expression x) []) rest) :=
      getsTo_again rfl taken
    obtain ⟨stack, ended, evaluates⟩ :=
      getsTo_result (e := e.begun l) bound stored same rest (.assign name) (.expression x) []
    have value : s.assigned w e name x =
        s.storage.map fun vs' : Variables => vs'.assign name (x.value w vs) := by
      rw [assigned, if_pos bound, stored]
      rfl
    rw [value]
    exact ((begins.trans evaluates).trans (getsTo_stored ended rfl)).mono fun _ kept => .inl kept
  · have library : (s.vicinity e rest).library = none := vicinity_unbound bound
    have kept : s.assigned w e name x = s.storage := assigned_eq_self fun _ _ assignable =>
      bound ⟨assignable.bound, by simp [assignable.stored]⟩
    rw [library] at taken
    rw [kept]
    exact getsTo_again (.inl rfl) taken

/-- A set instruction is carried out, and the engine gets to the next one. -/
theorem IsDue.sets (due : IsDue s e rest (.set name x)) (same : s.functions = w.functions) :
    GetsTo w (fun s' => s'.storage = s.storage ∨ s'.storage = s.assigned w e name x) s
      { s with engine := .script e.passed, storage := s.assigned w e name x } := by
  obtain ⟨l, rs, taken⟩ := due.begins
  have start : s = s.turning e rest := eq_turning due.engine due.turn
  have done : { s with storage := s.assigned w e name x }.turning e.passed rest =
      { s with engine := .script e.passed, storage := s.assigned w e name x } := by
    simp [turning, due.turn]
  have settles := getsTo_assigned same taken
  rw [← start] at settles
  rw [← done]
  exact settles.trans (getsTo_next (.inr rfl))

end

end Session

end Prompter

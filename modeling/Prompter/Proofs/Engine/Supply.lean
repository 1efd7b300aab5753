import Prompter.Proofs.Engine.Reading

/-!
# Prompter.Proofs.Engine.Supply

Which expressions have a value, and how an engine gets to it.

An expression has a value exactly if nothing is missing of what occurs in it, however deep
(`exists_value_iff`). An engine evaluates it on a stack of started calls. Each turn of that gets on
to a focus and a stack that have the same value and take less effort (`evaluateStep_getsOn`), until
the evaluation is over, with this value as its result (`Focus.eq_result_of_isOver`).
-/

namespace Prompter

theorem World.apply_eq_ok {w : World} {function : String} {args : List Value} {v : Value} :
    w.apply function args = .ok v ↔
      ∃ f, w.functions.functions.find? function = some f ∧ f.arity = args.length ∧
        v = w.answer f.key args := by
  simp only [← and_assoc, ← FunctionTable.find?_eq_some, apply]
  cases (w.functions.find? function args.length).1 with
  | none => simp
  | some f => simp [eq_comm]

namespace Expression

/-! ### What occurs in an expression -/

/-- An expression is a part of another one, or the whole of it. -/
inductive OccursIn (y : Expression) : Expression → Prop
  | here : OccursIn y y
  | argument {function : String} {args : List Expression} {x : Expression} (hx : x ∈ args)
      (inside : OccursIn y x) : OccursIn y (.call function args)

variable (w : World) (vs : Variables)

/-- Nothing is missing that an expression needs. -/
structure IsSupplied (x : Expression) : Prop where
  /-- Every variable is stored. -/
  reads : ∀ name, (read name).OccursIn x → ∃ v, vs.find? name = some v
  /-- Every call names a function and has as many arguments as that takes. -/
  calls : ∀ function args, (call function args).OccursIn x →
    ∃ f, w.functions.functions.find? function = some f ∧ f.arity = args.length

variable {w vs} {x y : Expression} {xs : List Expression} {function : String}

theorem values_length {us : List Value} (evaluated : values w vs xs = .ok us) :
    us.length = xs.length := by
  induction xs generalizing us with
  | nil =>
    cases evaluated
    rfl
  | cons x xs ih =>
    rw [values] at evaluated
    cases hx : x.value w vs with
    | error err => simp [hx, Except.bind] at evaluated
    | ok v =>
      cases hxs : values w vs xs with
      | error err => simp [hx, hxs, Except.bind, Except.map] at evaluated
      | ok us' =>
        obtain rfl : v :: us' = us := by simpa [hx, hxs, Except.bind, Except.map] using evaluated
        simp [ih hxs]

/-- A list of expressions has values if each of them has one. -/
theorem exists_values_iff :
    (∃ us, values w vs xs = .ok us) ↔ ∀ x ∈ xs, ∃ v, x.value w vs = .ok v := by
  induction xs with
  | nil => simp [values]
  | cons x xs ih =>
    rw [List.forall_mem_cons, ← ih, values]
    cases x.value w vs with
    | error err => simp [Except.bind]
    | ok v => cases values w vs xs <;> simp [Except.bind, Except.map]

/-- A call has a value if its function takes as many arguments, and each of them has one. -/
theorem exists_value_call_iff : (∃ v, (call function xs).value w vs = .ok v) ↔
    (∃ f, w.functions.functions.find? function = some f ∧ f.arity = xs.length) ∧
      ∀ x ∈ xs, ∃ v, x.value w vs = .ok v := by
  rw [← exists_values_iff, value]
  cases evaluated : values w vs xs with
  | error err => simp [Except.bind]
  | ok us =>
    simp only [Except.bind, World.apply_eq_ok, values_length evaluated]
    constructor
    · rintro ⟨v, f, found, fits, -⟩
      exact ⟨⟨f, found, fits⟩, us, rfl⟩
    · rintro ⟨⟨f, found, fits⟩, -⟩
      exact ⟨_, f, found, fits, rfl⟩

/-- Every part of an expression that has a value has one, too. -/
theorem OccursIn.exists_value (inside : y.OccursIn x) (evaluated : ∃ v, x.value w vs = .ok v) :
    ∃ v, y.value w vs = .ok v := by
  induction inside with
  | here => exact evaluated
  | argument hx _ ih => exact ih ((exists_value_call_iff.1 evaluated).2 _ hx)

theorem IsSupplied.argument (supplied : (call function xs).IsSupplied w vs) (hx : x ∈ xs) :
    x.IsSupplied w vs :=
  ⟨fun name inside => supplied.reads name (.argument hx inside),
    fun f args inside => supplied.calls f args (.argument hx inside)⟩

theorem IsSupplied.exists_value : ∀ {x : Expression}, x.IsSupplied w vs → ∃ v, x.value w vs = .ok v
  | literal v, _ => ⟨v, rfl⟩
  | read name, supplied => by
    obtain ⟨v, stored⟩ := supplied.reads name .here
    exact ⟨v, by rw [value, stored]; rfl⟩
  | call function args, supplied =>
    exists_value_call_iff.2 ⟨supplied.calls function args .here,
      fun _ hx => (supplied.argument hx).exists_value⟩

/-- An expression has a value exactly if nothing is missing that it needs. -/
theorem exists_value_iff : (∃ v, x.value w vs = .ok v) ↔ x.IsSupplied w vs := by
  refine ⟨fun evaluated => ⟨fun name inside => ?_, fun f args inside => ?_⟩, fun supplied =>
    supplied.exists_value⟩
  · obtain ⟨v, had⟩ := inside.exists_value evaluated
    rw [value] at had
    cases stored : vs.find? name with
    | none => simp [stored] at had
    | some v => exact ⟨v, rfl⟩
  · exact (exists_value_call_iff.1 (inside.exists_value evaluated)).1

end Expression

namespace Engine

/-! ### How an engine gets to a value -/

/-- Whether nothing is left of an evaluation but to put its result to its purpose. -/
def Focus.isOver : Focus → List Frame → Bool
  | .result (.error _), _ | .result (.ok _), [] => true
  | _, _ => false

/-- A turn gets on to a focus and a stack, if functions answer as in a world. -/
inductive GetsOn (w : World) (e : Engine) (purpose : Purpose) :
    Engine → Request → Focus → List Frame → Prop
  | again (focus : Focus) (stack : List Frame) :
      GetsOn w e purpose { e with phase := .evaluate purpose focus stack } .again focus stack
  | invoke (key : HostKey) (args : List Value) (stack : List Frame) :
      GetsOn w e purpose { e with phase := .calling purpose stack } (.invoke key args)
        (.result (.ok (w.answer key args))) stack

section

variable {w : World} {vs : Variables} {s : Surroundings} {purpose : Purpose} {focus : Focus}
  {stack : List Frame} (e : Engine)

/-- An evaluation that is over has come to the value of the whole. -/
theorem Focus.eq_result_of_isOver (ended : focus.isOver stack = true) :
    focus = .result (unwind w vs (focus.value w vs) stack) := by
  unfold isOver at ended
  split at ended
  · exact congrArg Focus.result (unwind_error _ stack).symm
  · rfl
  · cases ended

/-- The value of an evaluation that is over is put to its purpose. -/
theorem evaluateStep_of_isOver {r : Except EvaluationError Value}
    (ended : (Focus.result r).isOver stack = true) :
    e.evaluateStep s purpose (.result r) stack = e.deliverValue s r purpose := by
  cases r with
  | error err => rfl
  | ok v =>
    cases stack with
    | nil => rfl
    | cons => cases ended

variable (bound : s.library = some ⟨vs, w.functions⟩)

include bound

theorem call_getsOn (stack : List Frame) (function : String) (args : List Value) :
    ∃ focus' stack', GetsOn w e purpose (e.call s purpose stack function args).1
        (e.call s purpose stack function args).2.1 focus' stack' ∧
      unwind w vs (focus'.value w vs) stack' = unwind w vs (w.apply function args) stack ∧
      focus'.effort + stackEffort stack' ≤ stackEffort stack := by
  simp only [call, bound, World.apply]
  rcases w.functions.find? function args.length with ⟨_ | f, rs⟩
  · exact ⟨_, [], .again _ _, (unwind_error _ stack).symm, Nat.zero_le _⟩
  · exact ⟨_, stack, .invoke _ _ stack, rfl, Nat.le_of_eq (Nat.zero_add _)⟩

/-- A turn of an evaluation that is not over gets on with it. -/
theorem evaluateStep_getsOn (going : focus.isOver stack = false) :
    ∃ focus' stack', GetsOn w e purpose (e.evaluateStep s purpose focus stack).1
        (e.evaluateStep s purpose focus stack).2.1 focus' stack' ∧
      unwind w vs (focus'.value w vs) stack' = unwind w vs (focus.value w vs) stack ∧
      focus'.effort + stackEffort stack' < focus.effort + stackEffort stack := by
  unfold evaluateStep
  split
  · exact ⟨_, stack, .again _ _, rfl, by simp [Focus.effort, cost]⟩
  · simp only [bound]
    exact ⟨_, stack, .again _ _, rfl, by simp [Focus.effort, cost]⟩
  · next function =>
    obtain ⟨focus', stack', getsOn, same, less⟩ := e.call_getsOn bound stack function []
    have two : (Focus.expression (.call function [])).effort = 2 := rfl
    exact ⟨focus', stack', getsOn, same, by omega⟩
  · next function x rest =>
    refine ⟨_, _, .again _ _, ?_, by simp [Focus.effort, stackEffort, cost, costs]; omega⟩
    rw [Focus.value, Focus.value, value_call_cons]
    rfl
  · cases going
  · next v =>
    split
    · cases going
    · next function evaluated stack =>
      obtain ⟨focus', stack', getsOn, same, less⟩ :=
        e.call_getsOn bound stack function (evaluated ++ [v])
      exact ⟨focus', stack', getsOn, same, by simp only [stackEffort]; omega⟩
    · next function evaluated x rest stack =>
      refine ⟨_, _, .again _ _, ?_, by simp only [Focus.effort, stackEffort, costs]; omega⟩
      change _ = unwind w vs (Frame.value w vs ⟨function, evaluated, x :: rest⟩ v) stack
      rw [Frame.value_cons]
      rfl

end

end Engine

end Prompter

import Prompter.Engine

/-!
# Prompter.Proofs.Engine.Evaluation

What an engine finds out while it evaluates an expression, and the value that it comes to.

The host's functions may change the variables and what functions there are, and need not answer
twice in the same way. So the value of an expression depends on what is found out on the way, one
thing after the other: `Expression.Evaluates` reads the value off a list of such findings. An engine
evaluates in small turns, on a stack of started calls. `Phase.Completes` says which findings would
complete what it has begun, and a turn that finds something out leaves so much less of them
(`evaluateStep_evaluates`).
-/

namespace Prompter

/-- Something that is found out while an expression is evaluated. -/
inductive Finding
  /-- A variable has a value. -/
  | variable (name : String) (value : Value)
  /-- A function is called. -/
  | called (function : String) (args : List Value)
  /-- The function that has been called last returns. -/
  | returned (value : Value)
deriving DecidableEq

namespace Expression

mutual

/-- An expression has a value, by what is found out while it is evaluated. -/
inductive Evaluates : Expression → Value → List Finding → Prop
  | literal (v : Value) : Evaluates (.literal v) v []
  | read (name : String) (v : Value) : Evaluates (.read name) v [.variable name v]
  | call {function : String} {args : List Expression} {vs : List Value} {fs : List Finding}
      (evaluated : EvaluateTo args vs fs) (v : Value) :
      Evaluates (.call function args) v (fs ++ [.called function vs, .returned v])

/-- Expressions have their values, one after the other. -/
inductive EvaluateTo : List Expression → List Value → List Finding → Prop
  | nil : EvaluateTo [] [] []
  | cons {x : Expression} {xs : List Expression} {v : Value} {vs : List Value}
      {fs gs : List Finding} (first : Evaluates x v fs) (rest : EvaluateTo xs vs gs) :
      EvaluateTo (x :: xs) (v :: vs) (fs ++ gs)

end

end Expression

namespace Engine

open Expression (EvaluateTo)

/-! ### Findings -/

/-- The call of a function, if there is one that takes the arguments. -/
def Surroundings.reaches? (s : Surroundings) (function : String) (args : List Value) :
    Option Finding :=
  s.library.bind fun library =>
    (library.functions.find? function args.length).1.map fun _ => .called function args

/-- What a turn finds out that is taken in a phase. -/
def Phase.finds (s : Surroundings) : Phase → Option Finding
  | .evaluate _ (.expression (.read name)) _ =>
    s.library.bind fun library => (library.storage.find? name).map (.variable name)
  | .evaluate _ (.expression (.call function [])) _ => s.reaches? function []
  | .evaluate _ (.result (.ok v)) (⟨function, evaluated, []⟩ :: _) =>
    s.reaches? function (evaluated ++ [v])
  | _ => none

/-- What an evaluation that is under way is for. -/
def Phase.purpose? : Phase → Option Purpose
  | .evaluate purpose _ _ | .calling purpose _ => some purpose
  | _ => none

/-! ### Evaluations that are under way -/

/-- When the argument that is evaluated next has the value `v`, the calls on a stack come to the
value `w`, by what is found out from then on. -/
inductive Unwinds : List Frame → Value → Value → List Finding → Prop
  | nil (v : Value) : Unwinds [] v v []
  | cons {function : String} {evaluated : List Value} {v : Value} {rest : List Expression}
      {vs : List Value} {stack : List Frame} {u w : Value} {fs gs : List Finding}
      (args : EvaluateTo rest vs fs) (returns : Unwinds stack u w gs) :
      Unwinds (⟨function, evaluated, rest⟩ :: stack) v w
        (fs ++ .called function (evaluated ++ v :: vs) :: .returned u :: gs)

/-- What is evaluated in a phase comes to a value, by what is found out from then on. -/
inductive Phase.Completes : Phase → Value → List Finding → Prop
  | expression {purpose : Purpose} {x : Expression} {stack : List Frame} {v w : Value}
      {fs gs : List Finding} (evaluates : x.Evaluates v fs) (unwinds : Unwinds stack v w gs) :
      Completes (.evaluate purpose (.expression x) stack) w (fs ++ gs)
  | result {purpose : Purpose} {stack : List Frame} {v w : Value} {fs : List Finding}
      (unwinds : Unwinds stack v w fs) : Completes (.evaluate purpose (.result (.ok v)) stack) w fs
  | calling {purpose : Purpose} {stack : List Frame} {v w : Value} {fs : List Finding}
      (unwinds : Unwinds stack v w fs) : Completes (.calling purpose stack) w (.returned v :: fs)

section

variable {purpose : Purpose} {stack : List Frame} {v w : Value} {fs : List Finding}
  {e : Engine} {s : Surroundings}

/-- An expression that has just been taken up is completed by what evaluates it. -/
theorem Phase.Completes.evaluates {x : Expression}
    (completes : Completes (.evaluate purpose (focusOn s x) []) w fs) : x.Evaluates w fs := by
  unfold focusOn at completes
  split at completes
  · cases completes with
    | expression evaluates unwinds =>
      cases unwinds
      rwa [List.append_nil]
  · cases completes

/-- A call of which an argument is evaluated next is completed by that argument and the rest. -/
theorem Unwinds.of_argument {function : String} {evaluated : List Value} {x : Expression}
    {rest : List Expression} {u : Value} {gs : List Finding} (evaluates : x.Evaluates u fs)
    (unwinds : Unwinds (⟨function, evaluated ++ [v], rest⟩ :: stack) u w gs) :
    Unwinds (⟨function, evaluated, x :: rest⟩ :: stack) v w (fs ++ gs) := by
  cases unwinds with
  | cons args returns =>
    have all : Unwinds (⟨function, evaluated, x :: rest⟩ :: stack) v w _ :=
      .cons (.cons evaluates args) returns
    simpa only [List.append_assoc, List.singleton_append] using all

/-! ### Turns -/

/-- A turn goes on with an evaluation that was in phase `p`: it finds out a part of what would
complete it. -/
structure Continues (p : Phase) (purpose : Purpose) (found : Option Finding) (e : Engine)
    (t : Turn) : Prop where
  same : t.1 = { e with phase := t.1.phase }
  purpose : t.1.phase.purpose? = some purpose
  completes : ∀ w fs, t.1.phase.Completes w fs → p.Completes w (found.toList ++ fs)
  silent : ∀ l event, t.2.1 ≠ .report l event

theorem Continues.goTo {p phase : Phase} {found : Option Finding} {rs : List Remark}
    (same : phase.purpose? = some purpose)
    (completes : ∀ w fs, phase.Completes w fs → p.Completes w (found.toList ++ fs)) :
    Continues p purpose found e (e.goTo phase rs) :=
  ⟨rfl, same, completes, nofun⟩

/-- A failure completes nothing. -/
theorem Continues.error {p : Phase} {found : Option Finding} {rs : List Remark}
    {err : EvaluationError} :
    Continues p purpose found e (e.goTo (.evaluate purpose (.result (.error err)) stack) rs) :=
  .goTo rfl nofun

/-- A function is called, which is found out, or the evaluation fails. -/
theorem call_continues {p : Phase} {function : String} {args : List Value}
    (completes : ∀ u w fs, Unwinds stack u w fs →
      p.Completes w (.called function args :: .returned u :: fs)) :
    Continues p purpose (s.reaches? function args) e (e.call s purpose stack function args) := by
  unfold Engine.call
  split
  · exact .error
  · next library bound =>
    split
    · next f rs found =>
      refine ⟨rfl, rfl, fun w fs rest => ?_, nofun⟩
      have reached : s.reaches? function args = some (.called function args) := by
        simp [Surroundings.reaches?, bound, found]
      cases rest with
      | calling unwinds =>
        rw [reached]
        exact completes _ _ _ unwinds
    · exact .error

/-- A turn of an evaluation goes on with it, or puts its value to its purpose. -/
theorem evaluateStep_evaluates (focus : Focus) :
    Continues (.evaluate purpose focus stack) purpose ((Phase.evaluate purpose focus stack).finds s)
        e (e.evaluateStep s purpose focus stack) ∨
      (Phase.evaluate purpose focus stack).finds s = none ∧
        ∃ r, e.evaluateStep s purpose focus stack = e.deliverValue s r purpose ∧
          ∀ v, r = .ok v → (Phase.evaluate purpose focus stack).Completes v [] := by
  unfold evaluateStep
  split
  · refine .inl (.goTo rfl fun w fs rest => ?_)
    cases rest with
    | result unwinds => exact .expression (.literal _) unwinds
  · next name =>
    left
    dsimp only [Phase.finds]
    cases hl : s.library with
    | none => exact .error
    | some library =>
      cases hf : library.storage.find? name with
      | none =>
        simp only [hf, Option.elim_none]
        exact .error
      | some v =>
        simp only [hf, Option.elim_some, Option.bind_some, Option.map_some]
        refine .goTo rfl fun w fs rest => ?_
        cases rest with
        | result unwinds => exact .expression (.read name v) unwinds
  · refine .inl (call_continues fun u w fs unwinds => ?_)
    exact .expression (.call .nil u) unwinds
  · next function x rest =>
    refine .inl (.goTo rfl fun w fs completes => ?_)
    cases completes with
    | expression evaluates unwinds =>
      cases unwinds with
      | cons args returns =>
        have whole : Phase.Completes
            (.evaluate purpose (.expression (.call function (x :: rest))) stack) w _ :=
          .expression (.call (.cons evaluates args) _) returns
        simpa [Phase.finds] using whole
  · exact .inr ⟨rfl, _, rfl, nofun⟩
  · next v =>
    split
    · refine .inr ⟨rfl, _, rfl, fun v' same => ?_⟩
      cases same
      exact .result (.nil v)
    · next function evaluated stack =>
      refine .inl (call_continues fun u w fs unwinds => ?_)
      have whole : Unwinds (⟨function, evaluated, []⟩ :: stack) v w ([] ++ _) := .cons .nil unwinds
      exact .result whole
    · refine .inl (.goTo rfl fun w fs completes => ?_)
      cases completes with
      | expression evaluates unwinds =>
        have before := unwinds.of_argument evaluates
        exact .result before

/-- What a function returns is found out. -/
theorem completes_receive (calling : e.phase = .calling purpose stack) (v : Value)
    (completes : (e.receive v).phase.Completes w fs) :
    e.phase.Completes w (.returned v :: fs) := by
  rw [e.receive_of_calling calling] at completes
  rw [calling]
  cases completes with
  | result unwinds => exact .calling unwinds

end

end Engine

end Prompter

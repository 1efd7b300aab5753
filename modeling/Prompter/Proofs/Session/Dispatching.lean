import Prompter.Proofs.Session.Handles

/-!
# Prompter.Proofs.Session.Dispatching

The dispatch of a command, from the mark that begins it until it returns.

`Begins` says which marks dispatch a command, for the host or for an event. A command that may pause
is called with a new handle (`dispatch_of_handle`), any other has its outcome settled at once
(`dispatch_eq_of_none`). While the dispatch is `Executing`, what settles it stands on the agenda, on
top of what was there before.
-/

namespace Prompter

/-- The handle that a notice gives to the host. -/
def Notice.handle? : Notice → Option Nat
  | .handler _ _ _ handle | .method _ _ _ handle => handle
  | _ => none

/-- Whether a command that means this is given a handle. -/
def Resolution.mayPause : Resolution → Bool
  | .handler _ h _ => h.pausing
  | .method m _ _ => m.mayPause
  | _ => false

/-- Whether an item settles a dispatch. -/
def Item.settles (use : OutcomeUse) : Item → Bool
  | .afterCall _ _ use' | .outcome _ _ use' => use' = use
  | _ => false

namespace Session

variable {allowed : Session → History → Call → Prop} {s₀ s s' : Session} {h : History} {m : Mark}

/-! ### Dispatches in a history -/

/-- The marks at which a command is dispatched, with the continuation of its handle. -/
inductive Begins : Mark → Command → (Nat → Continuation) → OutcomeUse → Prop
  /-- The host dispatches the command. -/
  | request (c : Command) (key : HostKey) :
      Begins (.call (.dispatch c key)) c (fun _ => .host key) .reply
  /-- An event has brought the command. -/
  | event (r : Reporter) (c : Command) :
      Begins (.did (.hear r (.command c))) c .commandDone (.event r)

/-- A session that is about to dispatch a command. -/
def dispatching (s : Session) (m : Mark) : Session :=
  { s with
    agenda := match m with
      | .call _ => .lease :: s.agenda
      | .did _ | .answer _ => s.agenda.tail }

/-- The handle of a command, if it is given one. -/
def handleFor (s : Session) (c : Command) : Option Nat :=
  if (s.commands.resolve c).1.mayPause then some s.handles.length else none

/-- The handler or the method of a command has been run. -/
def Began (k : Nat) (h : History) : Prop := ∃ n : Notice, n.handle? = some k ∧ .did (.tell n) ∈ h

/-- The dispatch of a command has not returned yet; `base` is what is left to be done after it. -/
def Underway (use : OutcomeUse) (base : List Item) (s : Session) : Prop :=
  ∃ i : Item, i.settles use = true ∧ i :: base <:+ s.agenda

/-- A dispatch that has led to `s` has not returned in all that has happened since. -/
def Executing (s : Session) (use : OutcomeUse) (base : List Item) (h : History) : Prop :=
  ∀ older, older <:+ h → Underway use base (after s older)

/-! ### What a dispatch begins with -/

section

variable (b : Session) (c : Command) (kont : Nat → Continuation) (use : OutcomeUse)

/-- A command that may pause is called with a new handle, which is looked at when it returns. -/
theorem dispatch_of_handle {k : Nat} (hk : b.handleFor c = some k) :
    k = b.handles.length ∧ ∃ n name task, n.handle? = some k ∧
      (∀ i ∈ task, i = .resumeWhenDone k) ∧
      (b.dispatch c kont use).1 = { b with
        handles := b.handles ++ [.fresh name (kont k)]
        agenda := .tell n :: (task ++ .afterCall name k use :: b.agenda) } := by
  unfold handleFor at hk
  split at hk
  · next pauses =>
    cases hk
    refine ⟨rfl, ?_⟩
    unfold dispatch
    cases hr : b.commands.resolve c with
    | mk meaning rs =>
      rw [hr] at pauses
      cases meaning with
      | handler name x args =>
        have pausing : x.pausing = true := pauses
        exact ⟨.handler x.key name args (some b.handles.length), name, [], rfl, by simp,
          by simp [pausing, newHandle, push]⟩
      | method x target args =>
        have pausing : x.mayPause = true := pauses
        refine ⟨.method x target args (some b.handles.length), x.name,
          if x.kind = .task then [.resumeWhenDone b.handles.length] else [], rfl, ?_, ?_⟩
        · split <;> simp
        · simp [pausing, newHandle, push]
      | refused | unhandled => cases pauses
  · cases hk

/-- Any other command has an outcome that is no pause, and its continuation is dropped. -/
theorem dispatch_eq_of_none (simple : b.handleFor c = none) :
    ∃ told o rs, o ≠ .pause ∧
      (∀ i ∈ told, ∃ n, i = .tell n ∧ i.isAside = true ∧ n.handle? = none) ∧
      ∀ kont, b.dispatch c kont use =
        ({ b with agenda := told ++ .outcome none o use :: b.agenda }, remarks rs) := by
  unfold handleFor at simple
  split at simple
  · cases simple
  · next pauses =>
    unfold dispatch
    cases hr : b.commands.resolve c with
    | mk meaning rs =>
      rw [hr] at pauses
      cases meaning with
      | handler name x args =>
        have pausing : x.pausing = false := Bool.not_eq_true _ ▸ pauses
        exact ⟨[.tell (.handler x.key name args none)], .done, rs, by simp,
          by simp [Item.isAside, Notice.handle?], fun kont => by simp [pausing, push]⟩
      | method x target args =>
        have pausing : x.mayPause = false := Bool.not_eq_true _ ▸ pauses
        exact ⟨[.tell (.method x target args none)], .done, rs, by simp,
          by simp [Item.isAside, Notice.handle?], fun kont => by simp [pausing, push]⟩
      | refused e => exact ⟨[], .failed e, rs, by simp, by simp, fun kont => rfl⟩
      | unhandled =>
        dsimp only
        split
        · next key _ =>
          exact ⟨[.tell (.unhandled key c.text)], .unhandled, _, by simp,
            by simp [Item.isAside, Notice.handle?], fun kont => rfl⟩
        · exact ⟨[], .unhandled, _, by simp, by simp, fun kont => rfl⟩

theorem dispatch_of_none (simple : b.handleFor c = none) :
    ∃ told o, o ≠ .pause ∧
      (∀ i ∈ told, ∃ n, i = .tell n ∧ i.isAside = true ∧ n.handle? = none) ∧
      ∀ kont, (b.dispatch c kont use).1 =
        { b with agenda := told ++ .outcome none o use :: b.agenda } := by
  obtain ⟨told, o, rs, other, tells, shape⟩ := b.dispatch_eq_of_none c use simple
  exact ⟨told, o, other, tells, fun kont => by rw [shape]⟩

theorem dispatch_dropped (simple : b.handleFor c = none) (kont' : Nat → Continuation) :
    b.dispatch c kont' use = b.dispatch c kont use := by
  obtain ⟨told, o, rs, -, -, shape⟩ := b.dispatch_eq_of_none c use simple
  rw [shape, shape]

end

theorem Begins.dispatched {c : Command} {kont : Nat → Continuation} {use : OutcomeUse}
    (begins : Begins m c kont use) (happens : Happens s m s') :
    s' = ((s.dispatching m).dispatch c kont use).1 := by
  cases begins with
  | request c key =>
    cases happens with
    | call word c => rfl
  | event r c =>
    obtain ⟨rest, top, rfl⟩ := happens.top
    simp only [dispatching, top, List.tail_cons]
    rfl

theorem Executing.cons {use : OutcomeUse} {base : List Item} (executing : Executing s₀ use base h)
    (still : Underway use base (after s₀ (m :: h))) : Executing s₀ use base (m :: h) := by
  intro older part
  rcases List.suffix_cons_iff.1 part with rfl | part
  · exact still
  · exact executing older part

/-! ### Every run -/

section

variable {c : Command} {kont : Nat → Continuation} {use : OutcomeUse} {newer older : History}

theorem Run.runsTasks (r : Run allowed s₀ s h) : s.runsTasks = s₀.runsTasks := by
  induction h generalizing s with
  | nil =>
    cases r
    rfl
  | cons m h ih =>
    obtain ⟨s₁, r₁, happens⟩ := r.last
    exact happens.runsTasks.trans (ih r₁)

/-- What a later part of a history leads to, from the state before it. -/
theorem Run.after_since (r : Run allowed s₀ s (newer ++ older)) :
    after (after s₀ older) newer = s ∧ s.runsTasks = (after s₀ older).runsTasks := by
  obtain ⟨s₁, r₁⟩ := r.earlier
  refine ⟨?_, ?_⟩
  · rw [← after_append, r.after_eq]
  · rw [r₁.after_eq, r.runsTasks, r₁.runsTasks]

/-- The state in which a command is dispatched, and the next. -/
theorem Run.dispatched (r : Run allowed s₀ s (newer ++ m :: older)) (begins : Begins m c kont use) :
    ∃ s₁, Run allowed s₀ s₁ older ∧ after s₀ older = s₁ ∧
      after s₀ (m :: older) = ((s₁.dispatching m).dispatch c kont use).1 := by
  obtain ⟨s₂, r₂⟩ := r.earlier
  obtain ⟨s₁, r₁, happens⟩ := r₂.last
  exact ⟨s₁, r₁, r₁.after_eq, r₂.after_eq.trans (begins.dispatched happens)⟩

end

end Session

end Prompter

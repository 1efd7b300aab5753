import Prompter.Proofs.Session.Away

/-!
# Prompter.Proofs.Session.Returning

An engine that is asked to go on returns.

`During` lists what can happen from the moment when an idle engine is asked to go on until it has
returned, if the host keeps to the rules (`Obliges`). If no chain of leaps in the script comes back
to where it began, the engine takes a limited number of turns, however often it is asked to go on
meanwhile; so it returns as soon as everybody answers whom it waits for (`continue_returns`).
-/

namespace Prompter.Session

/-- Whether the last event of the engine is shown to the player, in the course of a history. -/
def showing (s₀ : Session) : History → Bool
  | [] => false
  | m :: h => (after s₀ h).shownAfter (showing s₀ h) m

/-- Whether the engine has been asked to go on and has not returned. -/
def isRunning (s : Session) : Bool :=
  match s.engine with
  | .script e => e.isRunning
  | _ => false

/-- Whether the engine waits for an answer or for a function. -/
def isWaiting (s : Session) : Bool :=
  match s.engine with
  | .script e => e.phase.isWaiting
  | _ => false

/-- The states that a session gets to between asking its engine to go on and the return of the
engine, with what has happened on the way. -/
inductive During (s₁ : Session) : Session → History → Prop
  | begin {c : Cause} {base : List Item} (top : s₁.agenda = .continueEngine c :: base) :
      During s₁ s₁.step.1 [.did (.continueEngine c)]
  | next {s s' : Session} {h : History} {m : Mark} (d : During s₁ s h)
      (running : s.isRunning = true) (happens : Happens s m s')
      (obliges : Obliges s (showing s₁ h) m) : During s₁ s' (m :: h)

/-- Everything that happens, without an end. -/
structure Timeline where
  state : Nat → Session
  mark : Nat → Mark
  happens : ∀ n, Happens (state n) (mark n) (state (n + 1))

namespace Timeline

/-- What has happened, the newest first. -/
def past (t : Timeline) : Nat → History
  | 0 => []
  | n + 1 => t.mark n :: t.past n

/-- The engine has been asked to go on at the beginning and has not been left since. -/
def IsDuring (t : Timeline) (n : Nat) : Prop := During (t.state 0) (t.state n) (t.past n)

/-- Until the engine returns the host keeps to the rules, and whoever the engine waits for answers
in the end. -/
structure IsObliging (t : Timeline) : Prop where
  obliges : ∀ n, t.IsDuring n → (t.state n).isRunning = true →
    Obliges (t.state n) (showing (t.state 0) (t.past n)) (t.mark n)
  answers : ∀ n, t.IsDuring n → (t.state n).isWaiting = true →
    ∃ k, n ≤ k ∧ (t.state k).isWaiting = false

end Timeline

/-- An engine that is asked to go on returns, to what was left to be done after that. -/
structure Returns (s₁ : Session) (base : List Item) : Prop where
  /-- It takes a limited number of turns. -/
  bounded : ∃ n, ∀ s h, During s₁ s h → h.countP Mark.isTurn ≤ n
  /-- When it has stopped, everything has been done that was begun on the way. -/
  through : ∀ s h, During s₁ s h → s.isRunning = false → s.agenda = base
  /-- It does stop. -/
  ends : ∀ t : Timeline, t.state 0 = s₁ → t.IsObliging → ∃ n, t.IsDuring n ∧
    (t.state n).isRunning = false ∧ (t.state n).agenda = base

section

variable {s₁ s s' : Session} {h : History} {m : Mark} {e e₁ : Engine} {base : List Item}
  {shown : Bool}

theorem countP_isTurn_cons (m : Mark) (h : History) :
    (m :: h).countP Mark.isTurn = h.countP Mark.isTurn + m.isTurn.toNat := by
  rw [List.countP_cons]
  cases m.isTurn <;> rfl

theorem Happens.after_eq (happens : Happens s m s') (same : after s₁ h = s) :
    after s₁ (m :: h) = s' := by
  cases happens <;> rw [after, same]

theorem During.after_eq (d : During s₁ s h) : after s₁ h = s := by
  induction d with
  | begin top => rfl
  | next d running happens obliges ih => exact happens.after_eq ih

theorem Away.isRunning (out : Away base shown s e) : s.isRunning = true := by
  have busy : e.phase ≠ .idle := by
    have bears := out.bears
    generalize s.agenda = a at bears
    intro idle
    cases bears with
    | due due =>
      rw [idle] at due
      cases due
    | waiting i awaited =>
      rw [idle] at awaited
      cases awaited
  rw [Session.isRunning, out.engine]
  dsimp only
  unfold Engine.isRunning
  split
  · next idle => exact absurd idle busy
  · rfl

/-- An engine that does not wait for anybody has its turn. -/
theorem Away.of_not_waiting (out : Away base shown s e) (idle : s.isWaiting = false) :
    s.agenda = .turn :: base := by
  have bears := out.bears
  rw [isWaiting, out.engine] at idle
  generalize s.agenda = a at bears
  cases bears with
  | due => rfl
  | waiting i awaited =>
    exact Bool.noConfusion ((isWaiting_of_isAwaited awaited).symm.trans idle)

/-- An idle engine that is asked to go on has not returned. -/
theorem away_of_asked {c : Cause} (seat : s₁.engine = .script e₁) (idle : e₁.phase = .idle)
    (top : s₁.agenda = .continueEngine c :: base) :
    Away base false s₁.step.1 { e₁ with phase := .step, resumeRequested := false } := by
  have busy : s₁.awaitsHost = false := by simp [awaitsHost, top]
  have step : s₁.step.1 = { s₁ with
      engine := .script { e₁ with phase := .step, resumeRequested := false }
      agenda := .turn :: base } := by
    rw [step_eq_work busy top]
    simp [work, continueEngine, seat, e₁.continue?_of_idle idle, push]
  rw [step]
  exact ⟨rfl, rfl, .due rfl⟩

section

variable {c : Cause} (seat : s₁.engine = .script e₁) (idle : e₁.phase = .idle)
  (forward : e₁.script.IsForward) (top : s₁.agenda = .continueEngine c :: base)

include seat idle forward top

/-- The turns that the engine has taken and those that it may still take do not become more. -/
theorem During.toil (d : During s₁ s h) : ∃ e, e.script = e₁.script ∧
    e.toil (showing s₁ h) + h.countP Mark.isTurn ≤
      { e₁ with phase := .step, resumeRequested := false }.left ∧
    (s.engine = .script e ∧ e.phase = .idle ∧ s.agenda = base ∨
      Away base (showing s₁ h) s e) := by
  induction d with
  | @begin c' base' top' =>
    exact ⟨{ e₁ with phase := .step, resumeRequested := false }, rfl, Nat.le_refl _,
      .inr (away_of_asked seat idle top)⟩
  | @next s s' h m d running happens obliges ih =>
    obtain ⟨e, own, spent, ⟨engine, idle, -⟩ | out⟩ := ih
    · simp [Session.isRunning, engine, Engine.isRunning, idle] at running
    · obtain ⟨e', nears⟩ := out.next (own ▸ forward) happens obliges
      rw [showing, d.after_eq]
      refine ⟨e', nears.script.trans own, ?_, nears.stage⟩
      have less := nears.toil
      rw [countP_isTurn_cons]
      omega

theorem During.through (d : During s₁ s h) (stopped : s.isRunning = false) :
    s.agenda = base := by
  obtain ⟨e, -, -, ⟨-, -, back⟩ | out⟩ := d.toil seat idle forward top
  · exact back
  · exact Bool.noConfusion (out.isRunning.symm.trans stopped)

namespace Timeline

variable {t : Timeline} (start : t.state 0 = s₁) (ok : t.IsObliging)

include start

omit forward seat idle in
/-- The first thing that happens is that the engine is asked to go on. -/
theorem isDuring_one : t.IsDuring 1 := by
  have happens := t.happens 0
  rw [start] at happens
  have asked : t.mark 0 = .did (.continueEngine c) := happens.of_busy rfl (by rw [top]; rfl)
  have busy : s₁.awaitsHost = false := by simp [awaitsHost, top]
  obtain ⟨rest, top', state⟩ := Happens.top (asked ▸ happens)
  have began : t.state 1 = s₁.step.1 := by
    rw [step_eq_work busy top']
    exact state
  rw [IsDuring, past, past, start, asked, began]
  exact .begin top

include ok

omit forward seat idle top start in
theorem isDuring_succ {n : Nat} (d : t.IsDuring n) (running : (t.state n).isRunning = true) :
    t.IsDuring (n + 1) :=
  .next d running (t.happens n) (ok.obliges n d running)

/-- An engine that goes on running takes any number of turns. -/
theorem exists_turns (runs : ∀ n, t.IsDuring n → (t.state n).isRunning = true) (m : Nat) :
    ∃ n, t.IsDuring n ∧ m ≤ (t.past n).countP Mark.isTurn := by
  subst start
  have goesOn {n : Nat} (d : t.IsDuring n) (k : Nat) : t.IsDuring (n + k) ∧
      (t.past n).countP Mark.isTurn ≤ (t.past (n + k)).countP Mark.isTurn := by
    induction k with
    | zero => exact ⟨d, Nat.le_refl _⟩
    | succ k ih =>
      refine ⟨isDuring_succ ok ih.1 (runs _ ih.1), Nat.le_trans ih.2 ?_⟩
      rw [← Nat.add_assoc, past, countP_isTurn_cons]
      exact Nat.le_add_right _ _
  induction m with
  | zero => exact ⟨1, isDuring_one top rfl, Nat.zero_le _⟩
  | succ m ih =>
    obtain ⟨n, d, enough⟩ := ih
    -- sooner or later the engine does not wait for anybody, and then it has its turn
    obtain ⟨k, d, more, free⟩ : ∃ k, t.IsDuring k ∧
        (t.past n).countP Mark.isTurn ≤ (t.past k).countP Mark.isTurn ∧
        (t.state k).isWaiting = false := by
      cases waits : (t.state n).isWaiting with
      | false => exact ⟨n, d, Nat.le_refl _, waits⟩
      | true =>
        obtain ⟨k, later, free⟩ := ok.answers n d waits
        obtain ⟨j, rfl⟩ := Nat.exists_eq_add_of_le later
        exact ⟨_, (goesOn d j).1, (goesOn d j).2, free⟩
    have running := runs k d
    obtain ⟨e, -, -, ⟨engine, idle, -⟩ | out⟩ := During.toil seat idle forward top d
    · simp [Session.isRunning, engine, Engine.isRunning, idle] at running
    · have turns : t.mark k = .did .turn :=
        (t.happens k).of_busy rfl (by rw [out.of_not_waiting free]; rfl)
      refine ⟨k + 1, isDuring_succ ok d running, ?_⟩
      rw [past, countP_isTurn_cons, turns]
      exact Nat.succ_le_succ (Nat.le_trans enough more)

end Timeline

end

end

/-! ### A script that is run to its end -/

/-- Lets the engine take its turns while a listener answers it, and does nothing else, for a number
of turns and answers at most. -/
def attend : Nat → Session → History → Session × History
  | 0, s, h => (s, h)
  | n + 1, s, h =>
    match s.isRunning, s.agenda with
    | true, .turn :: _ => attend n s.step.1 (.did .turn :: h)
    | true, .ask _ event :: _ =>
      let x := .action (if event.presents then .wait else .next)
      attend n (s.answer x).1 (.answer x :: h)
    | _, _ => (s, h)

theorem During.attend {s₁ s : Session} {h : History} (d : During s₁ s h) (n : Nat) :
    During s₁ (Session.attend n s h).1 (Session.attend n s h).2 := by
  induction n generalizing s h with
  | zero => exact d
  | succ n ih =>
    unfold Session.attend
    split
    · next running top => exact ih (d.next running (.work (by simp [awaitsHost, top]) top) trivial)
    · next key event rest running top =>
      refine ih (d.next running (.answer _ (by simp [accepts, top])) ?_)
      intro key' event' rest' top' presents
      rw [top] at top'
      cases top'
      simp [presents]
    · exact d

/-- The first node leads on to the second one, and that is all. -/
theorem jumpOn_leaps {e : Engine} (seat : jumpOn.engine = .script e) {a b : String}
    (leaps : e.script.Leaps a b) : a = "A" ∧ b = "B" := by
  cases seat
  unfold Script.Leaps Script.body Table.find? at leaps
  simp only [Table.lookup] at leaps
  split at leaps
  · next same =>
    cases leaps
    exact ⟨same, rfl⟩
  · split at leaps <;> cases leaps

theorem jumpOn_isForward {e : Engine} (seat : jumpOn.engine = .script e) :
    e.script.IsForward := by
  intro node back
  have chain {a b : String} (path : Relation.TransGen e.script.Leaps a b) : a = "A" ∧ b = "B" := by
    induction path with
    | single leaps => exact jumpOn_leaps seat leaps
    | tail _ leaps ih => exact ⟨ih.1, (jumpOn_leaps seat leaps).2⟩
  obtain ⟨first, second⟩ := chain back
  exact absurd (first.symm.trans second) (by decide)

end Prompter.Session

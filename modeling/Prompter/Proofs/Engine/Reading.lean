import Prompter.Proofs.Engine.Stake
import Prompter.Proofs.Engine.Story

/-!
# Prompter.Proofs.Engine.Reading

An engine that reads its script to somebody.

As long as the engine is told who listens and its library is bound (`Reads`), every turn goes on
with the story or leaves it where it is (`turn_outlook`), and so does whatever the listener does
with the engine. It does not go on silently for ever: a turn that asks nobody lowers `effort`.
-/

namespace Prompter.Engine

/-! ### Turns -/

/-- What holds in a phase while the engine reads. -/
def ReadsIn (l : Listener) (e : Engine) : Phase → Prop
  | .evaluate _ _ _ | .calling _ _ =>
    e.hearer = some l ∧ e.node.isSome = true ∧ e.nodeStarted = true ∧ e.choices = none
  | .reported (.leave _ _) | .heard (.leave _ _) _ => e.hearer = some l ∧ e.choices = none
  | .reported .halt | .heard .halt _ => e.hearer = some l ∧ e.node = none
  | .reported _ | .heard _ _ => e.hearer = some l
  | .idle | .step | .settle _ => True

/-- An engine reads a script to a listener. -/
structure Reads (script : Script) (l : Listener) (e : Engine) : Prop where
  script : e.script = script
  listener : e.listener = some l
  bound : e.bound = true
  fresh : e.nodeStarted = false → e.index = 0 ∧ e.choices = none
  within : e.ReadsIn l e.phase

section

variable {script : Script} {l : Listener} {e e' : Engine} {r : Request}

namespace Reads

variable (reads : e.Reads script l)

include reads

theorem of_phase {phase : Phase} (same : e.phase = phase) : e.ReadsIn l phase := same ▸ reads.within

theorem hearer (busy : (∃ purpose focus stack, e.phase = .evaluate purpose focus stack) ∨
    (∃ use answer, e.phase = .heard use answer)) : e.hearer = some l := by
  rcases busy with ⟨_, _, _, phase⟩ | ⟨use, _, phase⟩
  · exact (reads.of_phase phase).1
  · have within := reads.of_phase phase
    cases use with
    | plain | choice | close => exact within
    | leave | halt => exact within.1

/-- Nothing is performed but in a node that has been started. -/
theorem performing (p : e.Performing l) :
    e.node.isSome = true ∧ e.nodeStarted = true ∧ e.choices = none := by
  rcases p with ⟨-, inside, free, started⟩ | ⟨_, _, _, phase, -⟩
  · exact ⟨inside, started, free⟩
  · exact (reads.of_phase phase).2

/-- Options wait for a choice only in a node that has been started. -/
theorem started (waiting : e.choices.isSome = true) : e.nodeStarted = true := by
  cases unstarted : e.nodeStarted with
  | true => rfl
  | false =>
    rw [(reads.fresh unstarted).2] at waiting
    cases waiting

/-- Another phase that fits. -/
theorem moves (phase : Phase) (within : e.ReadsIn l phase) :
    { e with phase := phase }.Reads script l :=
  ⟨reads.script, reads.listener, reads.bound, reads.fresh, within⟩

theorem goOn (p : e.Performing l) (index : Nat) (phase : Phase)
    (within : (e.goOn l index phase).ReadsIn l phase) :
    (e.goOn l index phase).Reads script l where
  script := reads.script
  listener := reads.listener
  bound := reads.bound
  fresh unstarted := by cases (reads.performing p).2.1.symm.trans unstarted
  within := within

end Reads

/-- An engine goes on reading after a turn. -/
theorem Turned.reads (t : Turned l e e' r) (reads : e.Reads script l) : e'.Reads script l := by
  have ⟨same, listener, bound, fresh, _⟩ := reads
  cases t with
  | outside | undecided | again | pause | halt => exact ⟨same, listener, bound, fresh, trivial⟩
  | chosen _ _ waiting =>
    refine ⟨same, listener, bound, fun unstarted => ?_, trivial⟩
    cases (reads.started waiting).symm.trans unstarted
  | depart _ _ waiting =>
    refine ⟨same, listener, bound, fun unstarted => ?_, rfl, rfl⟩
    cases (reads.started waiting).symm.trans unstarted
  | begin => exact ⟨same, listener, bound, fun unstarted => (by cases unstarted), rfl⟩
  | evaluate p | call p => exact reads.goOn p _ _ ⟨rfl, reads.performing p⟩
  | done p => exact reads.goOn p _ _ trivial
  | report p index event use plain =>
    refine reads.goOn p _ _ ?_
    rcases plain with rfl | rfl | ⟨node, destination, rfl⟩
    · rfl
    · rfl
    · exact ⟨rfl, (reads.performing p).2.2⟩
  | offer p =>
    refine ⟨same, listener, bound, fun unstarted => ?_, rfl⟩
    cases (reads.performing p).2.1.symm.trans unstarted
  | next | wait => exact reads.moves _ trivial
  | enter node destination answer phase =>
    exact ⟨same, listener, bound, fun _ => ⟨rfl, (reads.of_phase phase).2⟩, trivial⟩
  | closed answer phase =>
    exact ⟨same, listener, bound, fun _ => ⟨rfl, rfl⟩, reads.of_phase phase, rfl⟩
  | halted answer phase => exact reads.moves _ trivial
  | still => exact reads

/-- Reports go to the listener. -/
theorem Turned.reporter {l' : Listener} {event : Event} (t : Turned l e e' (.report l' event)) :
    l' = l := by
  cases t with
  | done p index r quiet => rcases quiet with same | ⟨_, _, same⟩ <;> cases same
  | _ => rfl

/-- A choice that is noted for options after a turn has been noted before, and nothing has been
reported. -/
theorem Turned.of_selected (t : Turned l e e' r) (reads : e.Reads script l) {id : OptionId}
    (waiting : e'.choices.isSome = true) (noted : e'.selected = some id) :
    r.event? = none ∧ e.choices.isSome = true ∧ e.selected = some id := by
  cases t with
  | chosen | depart | closed => cases waiting
  | offer => cases noted
  | begin _ _ _ free =>
    cases free ▸ waiting
  | report p =>
    cases (reads.performing p).2.2 ▸ waiting
  | done _ _ _ quiet =>
    rcases quiet with rfl | ⟨_, _, rfl⟩ <;> exact ⟨rfl, waiting, noted⟩
  | _ => exact ⟨rfl, waiting, noted⟩

variable {σ : Story} {vs : Variables} {told : List Event} {s : Surroundings}

variable (told) in
/-- A turn leaves the story where it is, or is a step of it: then no choice is to be made. -/
theorem turn_outlook_cases (bound : s.library = some ⟨vs, σ.world.functions⟩)
    (hl : s.listener = some l) (reads : e.Reads σ.script l)
    (picks : e.phase = .step → ∀ id, e.choices.isSome = true → e.selected = some id →
      σ.player told = id) :
    Turn.outlook σ.world vs told (e.turn s) = e.outlook σ.world vs told ∨
      e.phase = .step ∧ (e.choices.isSome = true → e.selected.isSome = true) ∧
        Turn.outlook σ.world vs told (e.turn s) = σ.step (e.outlook σ.world vs told) := by
  have outlook {phase : Phase} (same : e.phase = phase) :
      e.outlook σ.world vs told = { e with phase := phase }.outlook σ.world vs told := by
    rw [← same]
  unfold turn
  split
  · next phase =>
    rw [outlook phase]
    exact (outlook_takeStep bound hl reads.script reads.fresh (picks phase)).imp_right
      fun ⟨decided, step⟩ => ⟨phase, decided, step⟩
  · next x phase =>
    refine .inl ?_
    rw [outlook phase]
    unfold endStep
    dsimp only
    split
    · exact outlook_goTo _ _ _
    · exact outlook_goTo _ _ _
    · exact outlook_goTo _ _ _
    · exact outlook_rest _ _
    · exact outlook_rest _ _
  · next use answer phase =>
    refine .inl ?_
    rw [outlook phase]
    have hearer := reads.hearer (.inr ⟨use, answer, phase⟩)
    cases use with
    | plain => cases answer <;> exact outlook_goTo e _ _
    | choice => cases answer <;> exact outlook_goTo e _ _
    | leave node destination =>
      unfold actOn
      dsimp only
      rw [outlook_goTo]
      have free : e.choices = none := (reads.of_phase phase).2
      exact congrArg (Tale.mk told vs) (spot_entrance (e := e.enter destination) rfl free rfl)
    | close =>
      have hearer : e.leaveScript.hearer = some l := hearer
      rw [actOn, outlook_report _ hearer]
      rfl
    | halt => exact outlook_goTo e _ _
  · next purpose focus stack phase =>
    refine .inl ?_
    rw [outlook phase, e.outlook_evaluateStep bound (reads.hearer (.inl ⟨_, _, _, phase⟩))]
    cases purpose <;> rfl
  · exact .inl (e.outlook_rest [])
  · exact .inl (e.outlook_rest [])
  · exact .inl (e.outlook_rest [])

/-- A turn goes on with the story, or leaves it where it is. -/
theorem turn_outlook (bound : s.library = some ⟨vs, σ.world.functions⟩)
    (hl : s.listener = some l) (reads : e.Reads σ.script l)
    (picks : e.phase = .step → ∀ id, e.choices.isSome = true → e.selected = some id →
      σ.player told = id) :
    σ.Reaches (e.outlook σ.world vs told) (Turn.outlook σ.world vs told (e.turn s)) := by
  rcases turn_outlook_cases told bound hl reads picks with same | ⟨-, -, step⟩
  · rw [same]
    exact .refl
  · rw [step]
    exact .step

/-! ### What the listener does -/

variable {w : World}

theorem outlook_hear (answer : NextAction) :
    (e.hear answer).outlook w vs told = e.outlook w vs told := by
  unfold hear
  split
  · next use phase =>
    unfold outlook
    rw [phase]
    cases use <;> rfl
  · rfl

/-- Only where an engine stands in the script matters to the story. -/
theorem outlook_congr (script : e'.script = e.script) (node : e'.node = e.node)
    (index : e'.index = e.index) (started : e'.nodeStarted = e.nodeStarted)
    (choices : e'.choices = e.choices) (phase : e'.phase = e.phase) :
    e'.outlook w vs told = e.outlook w vs told := by
  have spot : e'.spot = e.spot := by simp only [Engine.spot, script, node, index, started, choices]
  have open_ (destinations : Option (List (Option String))) :
      { e' with choices := destinations }.spot = { e with choices := destinations }.spot := by
    simp only [Engine.spot, script, node, index, started]
  unfold outlook
  rw [phase]
  cases e.phase with
  | evaluate purpose => cases purpose <;> simp only [Purpose.outlook, spot, open_]
  | reported use | heard use => cases use <;> simp only [spot]
  | _ => simp only [spot]

theorem outlook_continue? : e.continue?.1.outlook w vs told = e.outlook w vs told := by
  unfold continue?
  split
  · exact outlook_congr rfl rfl rfl rfl rfl rfl
  · next idle =>
    have phase : e.phase = .idle := by
      unfold isRunning at idle
      split at idle
      · assumption
      · exact absurd rfl idle
    unfold outlook
    rw [phase]
    rfl

theorem outlook_choose (id : OptionId) :
    (e.choose id).1.outlook w vs told = e.outlook w vs told := by
  obtain ⟨choice, same⟩ := e.choose_eq id
  rw [same]
  exact outlook_congr rfl rfl rfl rfl rfl rfl

namespace Reads

variable (reads : e.Reads script l)

include reads

theorem hear (answer : NextAction) : (e.hear answer).Reads script l := by
  unfold Engine.hear
  split
  · next use phase =>
    have within := reads.of_phase phase
    refine reads.moves _ ?_
    cases use <;> exact within
  · exact reads

theorem receive (v : Value) : (e.receive v).Reads script l := by
  unfold Engine.receive
  split
  · next phase =>
    have within := reads.of_phase phase
    exact reads.moves _ within
  · exact reads

theorem continue? : e.continue?.1.Reads script l := by
  have ⟨same, listener, bound, fresh, within⟩ := reads
  unfold Engine.continue?
  split
  · exact ⟨same, listener, bound, fresh, within⟩
  · exact ⟨same, listener, bound, fresh, trivial⟩

theorem choose (id : OptionId) : (e.choose id).1.Reads script l := by
  obtain ⟨choice, same⟩ := e.choose_eq id
  rw [same]
  have ⟨same, listener, bound, fresh, within⟩ := reads
  exact ⟨same, listener, bound, fresh, within⟩

end Reads

end

/-! ### Silent turns -/

def Instruction.effort : Instruction → Nat
  | .line _ _ substitutions => costs substitutions
  | .options os => optionCosts os
  | .set _ x => 3 + cost x
  | .command _ | .jump _ | .stop => 0

/-- How many turns it may take to perform instructions that tell nobody anything. -/
def efforts : List Instruction → Nat
  | [] => 0
  | i :: rest => Instruction.effort i + efforts rest

/-- How many turns it may take from a step of the script to something that others do. -/
def stepEffort (e : Engine) : Nat :=
  match e.node with
  | some node => 2 + (if e.nodeStarted then efforts ((e.script.body node).drop e.index) else 0) +
      2 * e.choices.isSome.toNat
  | none => 2

def Purpose.effort (e : Engine) : Purpose → Nat
  | .assign _ => 2 + e.stepEffort
  | .line _ _ _ rest => 2 + costs rest
  | .offer _ _ rest _ => 2 + optionCosts rest

/-- How many turns it may take from where the engine is. -/
def effort (e : Engine) : Nat :=
  match e.phase with
  | .step => e.stepEffort
  | .settle .halt => 1
  | .settle _ => 1 + e.stepEffort
  | .evaluate purpose focus stack => purpose.effort e + focus.effort + stackEffort stack
  | .heard (.leave _ _) _ => 6
  | .heard .close _ | .heard .halt _ => 2
  | .heard _ _ => 2 + e.stepEffort
  | .idle | .calling _ _ | .reported _ => 0

/-- Whether another turn is due at once. -/
def Request.isSilent : Request → Bool
  | .again | .store _ _ => true
  | .rest | .report _ _ | .invoke _ _ => false

/-- A turn asks somebody, or leaves less to be done. -/
def Lowers (n : Nat) (t : Turn) : Prop := t.2.1.isSilent = true → t.1.effort < n

/-- How many turns it may take once the expressions of a topic are evaluated. -/
def Topic.effort (e : Engine) : Topic → Nat
  | .assign _ => 2 + e.stepEffort
  | .line _ _ | .offer _ => 2

section

variable (e : Engine) (s : Surroundings)

theorem effort_topic (p : Purpose) : p.effort e = p.topic.effort e + p.load := by
  cases p <;> rfl

theorem two_le_stepEffort : 2 ≤ e.stepEffort := by
  unfold stepEffort
  split <;> omega

theorem stepEffort_enter (destination : String) : (e.enter destination).stepEffort ≤ 4 := by
  have one : e.choices.isSome.toNat ≤ 1 := Bool.toNat_le _
  simp only [stepEffort, enter, Bool.false_eq_true, if_false]
  omega

variable {e s} {n : Nat} {ph : Phase} {topic : Topic} {node : String} {i : Instruction} {t : Turn}

theorem stepEffort_within (inside : e.node = some node) (free : e.choices = none)
    (started : e.nodeStarted = true) :
    e.stepEffort = 2 + efforts ((e.script.body node).drop e.index) := by
  simp [stepEffort, inside, free, started]

theorem report_lowers (more : 1 < n) {event : Event} {use : Use} {rs : List Remark} :
    Lowers n (e.report event use rs) := by
  unfold report
  split
  · exact fun silent => by cases silent
  · exact fun _ => more

theorem Serves.lowers (serves : Serves s e ph n topic t) : Lowers (topic.effort e + n) t := by
  cases serves with
  | @evaluate _ p same focus stack rs less =>
    intro _
    have moved : (e.goTo (.evaluate p focus stack) rs).1.effort =
        p.effort e + focus.effort + stackEffort stack := by cases p <;> rfl
    rw [moved, effort_topic, same]
    omega
  | call => exact fun silent => by cases silent
  | settle | store =>
    intro _
    have less : 1 + e.stepEffort < 2 + e.stepEffort := Nat.add_lt_add_right (by decide) _
    exact Nat.lt_of_lt_of_le less (Nat.le_add_right _ n)
  | tell | offer => exact report_lowers (Nat.lt_of_lt_of_le (by decide) (Nat.le_add_right 2 n))

theorem Performs.lowers (performs : Performs s e node i t) :
    Lowers (e.stepEffort + Instruction.effort i) t := by
  have two := e.two_le_stepEffort
  have one : 1 < e.stepEffort + Instruction.effort i := by omega
  cases performs with
  | line serves | options serves =>
    exact fun silent => Nat.lt_of_lt_of_le (serves.lowers silent) (Nat.add_le_add_right two _)
  | @set name x _ serves =>
    intro silent
    have less := serves.lowers silent
    simp only [Topic.effort] at less
    simp only [Instruction.effort]
    omega
  | command | jump | stop => exact report_lowers one

theorem Ends.lowers (ends : Ends s e t) : Lowers e.effort t := by
  have two := e.two_le_stepEffort
  have at_ {phase : Phase} (same : e.phase = phase) :
      e.effort = { e with phase := phase }.effort := by
    rw [← same]
  have step (phase : e.phase = .step) : e.effort = e.stepEffort := at_ phase
  have halted (phase : e.phase = .step) : 1 < e.effort := by
    rw [step phase]
    exact two
  have settled : 1 + e.stepEffort < 2 + e.stepEffort := Nat.add_lt_add_right (by decide) _
  cases ends with
  | unheard phase | outside phase => exact fun _ => halted phase
  | undecided steps => exact fun _ => halted steps.phase
  | chosen steps waiting =>
    intro _
    -- the choice is done with, and that counts more than the turn that follows
    have open_ : e.choices.isSome.toNat = 1 := by rw [waiting]; rfl
    rw [step steps.phase]
    simp only [goTo, effort, stepEffort, steps.inside, open_, Option.isSome_none, Bool.toNat_false]
    omega
  | depart steps | begin steps | finish steps => exact report_lowers (halted steps.phase)
  | @perform l node steps free started i stands t performs =>
    intro silent
    have less := performs.lowers silent
    rw [instruction?_eq] at stands
    obtain ⟨hk, rfl⟩ := List.getElem?_eq_some_iff.1 stands
    have now := stepEffort_within steps.inside free started
    have later := stepEffort_within
      (e := { e with index := e.index + 1, hearer := some l }) steps.inside free started
    rw [List.drop_eq_getElem_cons hk, efforts] at now
    rw [step steps.phase]
    dsimp only at later
    omega
  | @evaluate purpose focus stack phase t serves =>
    have spent : e.effort = purpose.topic.effort e +
        (purpose.load + focus.effort + stackEffort stack) := by
      rw [at_ phase, ← Nat.add_assoc, ← Nat.add_assoc, ← effort_topic]
      cases purpose <;> rfl
    rw [spent]
    exact serves.lowers
  | again phase =>
    intro _
    have due : e.effort = 1 + e.stepEffort := by
      rcases phase with phase | ⟨phase, -⟩ <;> exact at_ phase
    rw [due]
    exact Nat.lt_add_of_pos_left Nat.one_pos
  | pause | halt | still => exact fun silent => by cases silent
  | next phase =>
    rw [at_ phase]
    exact fun _ => settled
  | wait phase =>
    have due : e.effort = 2 + e.stepEffort := by
      rcases phase with phase | ⟨_, phase⟩ <;> exact at_ phase
    rw [due]
    exact fun _ => settled
  | @enter node destination answer phase =>
    intro _
    rw [at_ phase]
    have entered := e.stepEffort_enter destination
    exact Nat.lt_of_le_of_lt (Nat.add_le_add_left entered 1) (show 1 + 4 < 6 by decide)
  | closed phase =>
    rw [at_ phase]
    exact report_lowers (show 1 < 2 by decide)
  | halted phase =>
    rw [at_ phase]
    exact fun _ => show 1 < 2 by decide

variable (e s)

/-- Whoever has a turn to take has something to do. -/
theorem effort_pos (turns : e.phase.turns = true ∨ e.phase = .settle .halt ∨
    ∃ x, e.phase = .heard .halt x) : 0 < e.effort := by
  have two := e.two_le_stepEffort
  have some_ (purpose : Purpose) : 0 < purpose.effort e := by
    cases purpose <;> exact Nat.add_pos_left Nat.two_pos _
  unfold effort
  cases phase : e.phase with
  | idle | calling | reported => simp [phase, Phase.turns] at turns
  | step => exact Nat.lt_of_lt_of_le Nat.two_pos two
  | settle x =>
    cases x with
    | next | wait => exact Nat.add_pos_left Nat.one_pos _
    | halt => exact Nat.one_pos
  | evaluate purpose focus stack =>
    have first := some_ purpose
    dsimp only
    omega
  | heard use x =>
    cases use with
    | plain | choice => exact Nat.add_pos_left Nat.two_pos _
    | leave | close | halt => exact Nat.succ_pos _

/-- A turn lowers the effort, unless it is somebody else's turn. -/
theorem effort_turn_lt {l : Listener} (t : Turned l e (e.turn s).1 (e.turn s).2.1)
    (busy : 0 < e.effort) : (e.turn s).1.effort < e.effort := by
  have lowers := (e.turn_ends s).lowers
  rcases taken : e.turn s with ⟨e', r, rs⟩
  rw [taken] at t lowers
  cases silent : r.isSilent with
  | true => exact lowers silent
  | false =>
    suffices rests : e'.effort = 0 by
      rw [rests]
      exact busy
    cases t with
    | depart | begin | call | report | offer | pause | halt | closed => rfl
    | still phase =>
      rcases phase with phase | ⟨use, phase⟩ | ⟨purpose, stack, phase⟩
      all_goals
        unfold effort
        rw [phase]
    | done p index r quiet => rcases quiet with rfl | ⟨_, _, rfl⟩ <;> cases silent
    | _ => cases silent

end

end Prompter.Engine

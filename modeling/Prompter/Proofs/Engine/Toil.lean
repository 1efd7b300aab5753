import Prompter.Proofs.Engine.Reading
import Prompter.Proofs.Script.Leaps

/-!
# Prompter.Proofs.Engine.Toil

How many turns an engine can still take before its run is over.

A run that tells a line or options is over with the answer, provided that this is `wait` and nobody
asks the engine to go on meanwhile (`Steady`). Until then it performs commands and assignments, and
goes from node to node; where no chain of leaps comes back to where it began, that cannot go on for
ever. `toil` adds it up: every turn lowers it (`turn_spends`), and whatever others do while the
engine waits for them leaves it as it is or lowers it (`Nudge.idles`).
-/

namespace Prompter

/-- Whether an event shows the player something that the engine waits at. -/
def Event.presents : Event → Bool
  | .line _ | .options _ => true
  | .command _ | .nodeStart _ | .nodeEnd _ | .dialogueEnd => false

/-- How many turns it may take to perform instructions until the engine waits or leaves them. -/
def stretch : List Instruction → Nat
  | [] => 4
  | i :: rest => 4 + Engine.Instruction.effort i + if i.decides then 0 else stretch rest

theorem four_le_stretch (is : List Instruction) : 4 ≤ stretch is := by
  cases is with
  | nil => exact Nat.le_refl 4
  | cons i rest =>
    rw [stretch, Nat.add_assoc]
    exact Nat.le_add_right 4 _

namespace Script

variable (script : Script)

/-- How many turns it may take to pass through a node. -/
def weight (node : String) : Nat := 3 + stretch (script.body node)

/-- How many turns it may take from the start of a node on. -/
def toll : String → Nat := script.tollOf script.weight

/-- How many turns it may take to perform instructions, and the nodes that they lead to. -/
def way (is : List Instruction) : Nat := stretch is + (leap? is).elim 0 script.toll

/-- How many turns it may take from the starts of some nodes on, one after the other. -/
def tolls : List (Option String) → Nat
  | [] => 0
  | d :: rest => d.elim 0 script.toll + tolls rest

theorem toll_le_tolls {node : String} {destinations : List (Option String)}
    (listed : some node ∈ destinations) : script.toll node ≤ script.tolls destinations := by
  induction destinations with
  | nil => cases listed
  | cons d rest ih =>
    rw [tolls]
    rcases List.mem_cons.1 listed with rfl | later
    · exact Nat.le_add_right _ _
    · exact Nat.le_trans (ih later) (Nat.le_add_left _ _)

/-- An instruction that the script goes on after. -/
theorem way_of_passing {i : Instruction} (passes : i.decides = false) (rest : List Instruction) :
    script.way (i :: rest) = 4 + Engine.Instruction.effort i + script.way rest := by
  simp only [way, stretch, passes, leap?_of_passing passes, Bool.false_eq_true, if_false]
  omega

theorem le_way (i : Instruction) (rest : List Instruction) :
    4 + Engine.Instruction.effort i ≤ script.way (i :: rest) := by
  simp only [way, stretch]
  omega

theorem way_jump (destination : String) (rest : List Instruction) :
    script.way (.jump destination :: rest) = 4 + script.toll destination := rfl

variable {script} in
theorem toll_eq (forward : script.IsForward) (node : String) :
    script.toll node = 3 + script.way (script.body node) := by
  rw [toll, tollOf_eq forward, weight, Nat.add_assoc]
  rfl

end Script

namespace Engine

/-- How many turns it may take from a step of the script on. -/
def left (e : Engine) : Nat :=
  match e.node with
  | none => 2
  | some node =>
    let here := (if e.nodeStarted then 0 else 3) +
      e.script.way ((e.script.body node).drop e.index)
    match e.choices with
    | none => here
    | some destinations => 3 + here + e.script.tolls destinations

def Purpose.toil (e : Engine) : Purpose → Nat
  | .assign _ => 2 + e.left
  | .line _ _ _ rest => 3 + costs rest
  | .offer _ _ rest _ => 3 + optionCosts rest

/-- How many turns it may take from a report on. -/
def Use.toil (e : Engine) (shown : Bool) : Use → Nat
  | .plain => 2 + if shown then 0 else e.left
  | .choice | .halt => 2
  | .leave _ destination => 2 + (e.enter destination).left
  | .close => 3

def Phase.toil (e : Engine) (shown : Bool) : Phase → Nat
  | .idle => 0
  | .step => e.left
  | .settle .next => 1 + e.left
  | .settle .wait => 1 + if shown then 0 else e.left
  | .settle .halt => 1
  | .evaluate purpose focus stack => purpose.toil e + focus.effort + stackEffort stack
  | .calling purpose stack => purpose.toil e + stackEffort stack
  | .reported use | .heard use _ => use.toil e shown

/-- How many turns it may take from where the engine is; the flag says whether the last event shows
the player something. -/
def toil (e : Engine) (shown : Bool) : Nat := e.phase.toil e shown

/-- Whether a turn is due. -/
def Phase.isDue : Phase → Bool
  | .step | .settle _ | .evaluate _ _ _ | .heard _ _ => true
  | .idle | .calling _ _ | .reported _ => false

/-- Whether an expression is evaluated for something that is shown to the player. -/
def Purpose.presents : Purpose → Bool
  | .line _ _ _ _ | .offer _ _ _ _ => true
  | .assign _ => false

/-- In a phase in which something is shown to the player nobody has asked the engine to go on, and
it is answered `wait`. -/
def SteadyIn (e : Engine) (shown : Bool) : Phase → Prop
  | .step => e.resumeRequested = false
  | .evaluate purpose _ _ | .calling purpose _ =>
    purpose.presents = true → e.resumeRequested = false
  | .reported .plain | .settle .wait => shown = true → e.resumeRequested = false
  | .heard .plain answer => shown = true → answer = .wait ∧ e.resumeRequested = false
  | .reported .choice | .heard .choice _ => shown = true ∧ e.resumeRequested = false
  | _ => True

def Steady (e : Engine) (shown : Bool) : Prop := e.SteadyIn shown e.phase

/-- Whether the last event shows the player something, after a request. -/
def Request.shown (before : Bool) (r : Request) : Bool :=
  (r.event?.map Event.presents).getD before

/-- The phase of an engine that has taken its turn fits what it has requested. -/
def Request.Fits (p : Phase) : Request → Prop
  | .again | .store _ _ => p.isDue = true
  | .rest => p = .idle
  | .report _ _ => ∃ use, p = .reported use
  | .invoke _ _ => ∃ purpose stack, p = .calling purpose stack

/-- A turn leaves less to be done. -/
structure Spends (n : Nat) (shown : Bool) (t : Turn) : Prop where
  fits : t.2.1.Fits t.1.phase
  steady : t.1.Steady (t.2.1.shown shown)
  less : t.1.toil (t.2.1.shown shown) < n

/-! ### What is left -/

section

variable {e : Engine}

theorem two_le_left (e : Engine) : 2 ≤ e.left := by
  unfold left Script.way
  split
  · exact Nat.le_refl 2
  · have long := four_le_stretch ((e.script.body ‹_›).drop e.index)
    dsimp only
    split <;> omega

theorem left_within {node : String} (inside : e.node = some node) (free : e.choices = none)
    (started : e.nodeStarted = true) :
    e.left = e.script.way ((e.script.body node).drop e.index) := by
  simp [left, inside, free, started]

theorem left_choosing {node : String} {destinations : List (Option String)}
    (inside : e.node = some node) (waiting : e.choices = some destinations) :
    e.left = 3 + { e with choices := none, selected := none }.left +
      e.script.tolls destinations := by
  simp [left, inside, waiting]

/-- Entering a node costs its toll. -/
theorem left_enter (forward : e.script.IsForward) (free : e.choices = none)
    (destination : String) : (e.enter destination).left = e.script.toll destination := by
  simp [e.script.toll_eq forward, left, enter, free]

end

/-! ### Turns -/

/-- How many turns it may take once the expressions of a topic are evaluated. -/
def Topic.toil (e : Engine) : Topic → Nat
  | .assign _ => 2 + e.left
  | .line _ _ | .offer _ => 3

/-- Whether expressions are evaluated for something that is shown to the player. -/
def Topic.presents : Topic → Bool
  | .line _ _ | .offer _ => true
  | .assign _ => false

theorem presents_topic (p : Purpose) : p.topic.presents = p.presents := by
  cases p <;> rfl

section

variable (e : Engine) (s : Surroundings) {n : Nat} {shown : Bool}

theorem toil_topic (p : Purpose) : p.toil e = p.topic.toil e + p.load := by
  cases p <;> rfl

theorem Spends.mono {m : Nat} {t : Turn} (spends : Spends m shown t) (le : m ≤ n) :
    Spends n shown t :=
  ⟨spends.fits, spends.steady, Nat.lt_of_lt_of_le spends.less le⟩

theorem goTo_spends {phase : Phase} (rs : List Remark) (due : phase.isDue = true)
    (steady : e.SteadyIn shown phase) (less : phase.toil e shown < n) :
    Spends n shown (e.goTo phase rs) where
  fits := due
  steady := steady
  less := less

theorem report_spends (event : Event) (use : Use) (rs : List Remark)
    (steady : e.SteadyIn event.presents (.reported use)) (less : use.toil e event.presents < n) :
    Spends n shown (e.report event use rs) := by
  unfold report
  split
  · exact ⟨⟨use, rfl⟩, steady, less⟩
  · refine goTo_spends e rs rfl trivial (Nat.lt_of_le_of_lt ?_ less)
    cases use <;> simp [Phase.toil, Use.toil] <;> omega

variable {e s} {ph : Phase} {topic : Topic} {t : Turn}

theorem Serves.spends (serves : Serves s e ph n topic t)
    (unasked : topic.presents = true → e.resumeRequested = false) :
    Spends (topic.toil e + n) shown t := by
  cases serves with
  | @evaluate _ p same focus stack rs less =>
    subst same
    rw [presents_topic] at unasked
    refine e.goTo_spends rs rfl unasked ?_
    simp only [Phase.toil, toil_topic]
    omega
  | @call _ p same stack _ _ _ _ _ _ _ rs less =>
    subst same
    rw [presents_topic] at unasked
    refine ⟨⟨p, stack, rfl⟩, unasked, ?_⟩
    have left : p.toil e + stackEffort stack < p.topic.toil e + n := by
      rw [toil_topic]
      omega
    exact left
  | settle =>
    refine e.goTo_spends _ rfl trivial ?_
    simp only [Phase.toil, Topic.toil]
    omega
  | store =>
    have settled : 1 + e.left < 2 + e.left := Nat.add_lt_add_right (by decide) _
    exact ⟨rfl, trivial, Nat.lt_of_lt_of_le settled (Nat.le_add_right _ _)⟩
  | tell =>
    exact e.report_spends _ .plain _ (fun _ => unasked rfl)
      (Nat.lt_of_lt_of_le (show 2 < 3 by decide) (Nat.le_add_right _ _))
  | offer =>
    exact report_spends _ _ .choice _ ⟨rfl, unasked rfl⟩
      (Nat.lt_of_lt_of_le (show 2 < 3 by decide) (Nat.le_add_right _ _))

theorem Performs.spends {node : String} {i : Instruction} (performs : Performs s e node i t)
    (forward : e.script.IsForward) (free : e.choices = none)
    (unasked : e.resumeRequested = false) {rest : List Instruction}
    (same : e.left = e.script.way rest) : Spends (e.script.way (i :: rest)) shown t := by
  have enough := e.script.le_way i rest
  cases performs with
  | line serves | options serves =>
    refine (serves.spends fun _ => unasked).mono (Nat.le_trans ?_ enough)
    exact Nat.add_le_add_right (show 3 ≤ 4 by decide) _
  | command text =>
    refine e.report_spends _ .plain _ (fun shows => by cases shows) ?_
    rw [Script.way_of_passing _ rfl]
    simp only [Use.toil, Event.presents, Bool.false_eq_true, if_false]
    omega
  | jump destination =>
    refine e.report_spends _ _ _ trivial ?_
    rw [Script.way_jump, Use.toil, left_enter forward free]
    exact Nat.add_lt_add_right (by decide) _
  | set serves =>
    refine (serves.spends fun _ => unasked).mono ?_
    rw [Script.way_of_passing _ rfl]
    simp only [Topic.toil, Instruction.effort]
    omega
  | stop =>
    exact e.report_spends _ .close _ trivial (Nat.lt_of_lt_of_le (show 3 < 4 by decide) enough)

theorem Ends.spends (ends : Ends s e t) (forward : e.script.IsForward)
    (due : e.phase.isDue = true) (steady : e.Steady shown) : Spends (e.toil shown) shown t := by
  have steadyIn {phase : Phase} (same : e.phase = phase) : e.SteadyIn shown phase := same ▸ steady
  have toil {phase : Phase} (same : e.phase = phase) : e.toil shown = phase.toil e shown :=
    same ▸ rfl
  have two := e.two_le_left
  have step (phase : e.phase = .step) : e.toil shown = e.left := toil phase
  have settled (m : Nat) : 1 + m < 2 + m := Nat.add_lt_add_right (by decide) _
  cases ends with
  | unheard phase | outside phase =>
    rw [step phase]
    exact goTo_spends _ _ rfl trivial two
  | undecided steps =>
    rw [step steps.phase]
    exact goTo_spends _ _ rfl trivial two
  | chosen steps waiting =>
    rw [step steps.phase, left_choosing steps.inside waiting]
    refine goTo_spends _ _ rfl trivial ?_
    simp only [Phase.toil]
    exact Nat.lt_of_lt_of_le (Nat.add_lt_add_right (by decide) _) (Nat.le_add_right _ _)
  | @depart l node steps destinations waiting id made destination leads =>
    rw [step steps.phase, left_choosing steps.inside waiting]
    refine report_spends _ _ _ _ trivial ?_
    have listed : some destination ∈ destinations :=
      List.mem_of_getElem? (Option.join_eq_some_iff.1 leads)
    have paid := e.script.toll_le_tolls listed
    have entered := left_enter
      (e := { e with choices := none, selected := none, hearer := some l }) forward rfl destination
    dsimp only at entered
    rw [Use.toil, entered]
    omega
  | begin steps free unstarted =>
    rw [step steps.phase]
    refine report_spends _ _ _ _ (fun shows => by cases shows) ?_
    simp only [Use.toil, Event.presents, left, steps.inside, free, unstarted, Bool.false_eq_true,
      if_false, if_true]
    omega
  | @perform l node steps free started i stands t performs =>
    rw [step steps.phase, left_within steps.inside free started]
    rw [instruction?_eq] at stands
    obtain ⟨hk, rfl⟩ := List.getElem?_eq_some_iff.1 stands
    rw [List.drop_eq_getElem_cons hk]
    exact performs.spends forward free (steadyIn steps.phase)
      (left_within steps.inside free started)
  | finish steps free started =>
    rw [step steps.phase, left_within steps.inside free started]
    refine report_spends _ _ .close _ trivial ?_
    exact Nat.lt_of_lt_of_le (show 3 < 4 by decide)
      (Nat.le_trans (four_le_stretch _) (Nat.le_add_right _ _))
  | @evaluate purpose focus stack phase t serves =>
    have spent : e.toil shown =
        purpose.topic.toil e + (purpose.load + focus.effort + stackEffort stack) := by
      rw [toil phase, ← Nat.add_assoc, ← Nat.add_assoc, ← toil_topic]
      rfl
    rw [spent]
    refine serves.spends ?_
    rw [presents_topic]
    exact steadyIn phase
  | again phase rs =>
    suffices enough : 1 + e.left = e.toil shown from
      goTo_spends _ rs rfl rfl (Nat.lt_of_lt_of_eq (Nat.lt_add_of_pos_left Nat.one_pos) enough)
    rcases phase with phase | ⟨phase, asked⟩
    · exact (toil phase).symm
    · -- whoever asks the engine to go on does not do so while something is shown to the player
      have other : shown = false :=
        Bool.eq_false_iff.2 fun yes => Bool.noConfusion ((steadyIn phase yes).symm.trans asked)
      subst other
      exact (toil phase).symm
  | pause phase =>
    refine ⟨rfl, trivial, ?_⟩
    rw [toil phase]
    exact Nat.lt_add_right _ Nat.one_pos
  | halt phase =>
    refine ⟨rfl, trivial, ?_⟩
    rw [toil phase]
    exact Nat.one_pos
  | next phase =>
    have other : shown = false := Bool.eq_false_iff.2 fun yes => by cases (steadyIn phase yes).1
    subst other
    rw [toil phase]
    exact e.goTo_spends _ rfl trivial (settled _)
  | wait phase rs =>
    rcases phase with phase | ⟨answer, phase⟩
    · rw [toil phase]
      exact e.goTo_spends _ rfl (fun yes => (steadyIn phase yes).2) (settled _)
    · obtain ⟨rfl, unasked⟩ := steadyIn phase
      rw [toil phase]
      exact e.goTo_spends _ rfl (fun _ => unasked) (show 1 < 2 by decide)
  | enter phase =>
    rw [toil phase]
    exact goTo_spends _ _ rfl trivial (Nat.add_lt_add_right (by decide) _)
  | closed phase =>
    rw [toil phase]
    exact report_spends _ _ .halt _ trivial (show 2 < 3 by decide)
  | halted phase =>
    rw [toil phase]
    exact e.goTo_spends _ rfl trivial (show 1 < 2 by decide)
  | still phase => rcases phase with phase | ⟨_, phase⟩ | ⟨_, _, phase⟩ <;> cases phase ▸ due

variable (s) in
/-- A turn that is due leaves less to be done. -/
theorem turn_spends (forward : e.script.IsForward) (due : e.phase.isDue = true)
    (steady : e.Steady shown) : Spends (e.toil shown) shown (e.turn s) :=
  (e.turn_ends s).spends forward due steady

end

/-! ### What others do while the engine waits for them -/

/-- Whether the engine waits for an answer or for a function. -/
def Phase.isWaiting : Phase → Bool
  | .calling _ _ | .reported _ => true
  | _ => false

/-- Whether the engine waits for somebody to whom something is told that is shown to the player, or
for a function that is called for that. -/
def Phase.isShowing (shown : Bool) : Phase → Bool
  | .calling purpose _ => purpose.presents
  | .reported _ => shown
  | _ => false

/-- What others can do to an engine that waits for them, before they answer. -/
inductive Nudge (e : Engine) (shown : Bool) : Engine → Prop
  | equip (bound : Bool) (listener : Option Listener) :
      Nudge e shown { e with bound := bound, listener := listener }
  | choose (id : OptionId) : Nudge e shown (e.choose id).1
  | stop : Nudge e shown e.stop.1
  /-- The engine is asked to go on, but not while something is shown. -/
  | continue_ (other : e.phase.isShowing shown = false) : Nudge e shown e.continue?.1

section

variable {e e' : Engine} {shown : Bool}

theorem Nudge.refl (e : Engine) (shown : Bool) : Nudge e shown e :=
  .equip e.bound e.listener

theorem isRunning_of_isWaiting (waits : e.phase.isWaiting = true) : e.isRunning = true := by
  unfold isRunning
  split
  · next phase =>
    rw [phase] at waits
    cases waits
  · rfl

theorem left_stop_le (e : Engine) : e.stop.1.left ≤ e.left := e.two_le_left

theorem left_enter_stop_le (e : Engine) (destination : String) :
    (e.stop.1.enter destination).left ≤ (e.enter destination).left := by
  cases waiting : e.choices <;> simp [stop, leaveScript, enter, left, waiting]
  omega

/-- The engine goes on waiting, and has no more to do than before. -/
structure Idles (e : Engine) (shown : Bool) (e' : Engine) : Prop where
  script : e'.script = e.script
  phase : e'.phase = e.phase
  steady : e'.Steady shown
  toil : e'.toil shown ≤ e.toil shown

theorem Nudge.idles (nudge : Nudge e shown e') (waits : e.phase.isWaiting = true)
    (steady : e.Steady shown) : Idles e shown e' := by
  cases nudge with
  | equip bound listener => exact ⟨rfl, rfl, steady, Nat.le_refl _⟩
  | choose id =>
    obtain ⟨choice, same⟩ := e.choose_eq id
    rw [same]
    exact ⟨rfl, rfl, steady, Nat.le_refl _⟩
  | stop =>
    refine ⟨rfl, rfl, steady, ?_⟩
    have less := e.left_stop_le
    have less_enter := e.left_enter_stop_le
    simp only [toil, show e.stop.1.phase = e.phase from rfl]
    cases phase : e.phase with
    | calling purpose stack =>
      cases purpose <;> simp only [Phase.toil, Purpose.toil] <;> omega
    | reported use =>
      cases use with
      | plain =>
        simp only [Phase.toil, Use.toil]
        split <;> omega
      | leave node destination => exact Nat.add_le_add_left (less_enter destination) 2
      | choice | close | halt => exact Nat.le_refl _
    | idle | step | settle | evaluate | heard =>
      rw [phase] at waits
      cases waits
  | continue_ other =>
    have running := isRunning_of_isWaiting waits
    rw [show e.continue? = ({ e with resumeRequested := true }, false) from if_pos running]
    refine ⟨rfl, rfl, ?_, Nat.le_refl _⟩
    unfold Steady SteadyIn
    cases phase : e.phase with
    | calling purpose stack =>
      rw [phase] at other
      exact fun yes => Bool.noConfusion (yes.symm.trans other)
    | reported use =>
      rw [phase] at other
      cases use with
      | plain => exact fun yes => Bool.noConfusion (yes.symm.trans other)
      | choice =>
        rw [Steady, phase] at steady
        exact Bool.noConfusion (steady.1.symm.trans other)
      | leave | close | halt => trivial
    | idle | step | settle | evaluate | heard =>
      rw [phase] at waits
      cases waits

/-- An answer, which is `wait` where something is shown, is taken note of. -/
theorem hear_steady {use : Use} (reported : e.phase = .reported use) {answer : NextAction}
    (waits : shown = true → answer = .wait) (steady : e.Steady shown) :
    (e.hear answer).Steady shown ∧ (e.hear answer).toil shown = e.toil shown := by
  rw [e.hear_of_reported reported]
  rw [Steady, reported] at steady
  unfold toil
  rw [reported]
  refine ⟨?_, rfl⟩
  cases use with
  | plain => exact fun yes => ⟨waits yes, steady yes⟩
  | choice | leave | close | halt => exact steady

theorem receive_steady {purpose : Purpose} {stack : List Frame}
    (calling : e.phase = .calling purpose stack) (v : Value) (steady : e.Steady shown) :
    (e.receive v).Steady shown ∧ (e.receive v).toil shown = e.toil shown := by
  rw [e.receive_of_calling calling]
  rw [Steady, calling] at steady
  unfold toil
  rw [calling]
  exact ⟨steady, rfl⟩

end

end Engine

end Prompter

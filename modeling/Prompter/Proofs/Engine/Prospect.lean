import Prompter.Proofs.Engine.Ending

/-!
# Prompter.Proofs.Engine.Prospect

What an engine can report next.

A stopped engine is in no node, and an engine that has been put at a node is at its start. What it
reports next does not follow from that alone. Half way through a step it may be on its way to a
report already: it is leaving its node for another one, it is about to say that the dialogue is
over, or it is filling in a line or a set of options. The phase tells (`Phase.prospect`), and it is
not changed by `stop` and `place`.

`Outcome` lists what anything that is done with an engine comes to, turns included, as far as the
next report is concerned; `Outcome.faces` and `Outcome.outside` are the laws that follow.
-/

namespace Prompter.Engine

/-- What the next report of an engine can be. -/
inductive Prospect
  | nothing
  | line (id text : String)
  | options
  | nodeStart (node : String)
  | dialogueEnd
deriving DecidableEq

namespace Prospect

/-- Whether an event is what was in prospect. -/
def Fits : Prospect → Event → Prop
  | nothing, _ => False
  | line id text, event => ∃ filled, event = .line ⟨id, text, filled⟩
  | options, event => ∃ set, event = .options set
  | nodeStart node, event => event = .nodeStart node
  | dialogueEnd, event => event = .dialogueEnd

/-- What is in prospect for an engine that is put at the start of a node. -/
def orStart : Prospect → String → Prospect
  | nothing, node => nodeStart node
  | p, _ => p

theorem orStart_ne_nothing (p : Prospect) (node : String) : p.orStart node ≠ nothing := by
  cases p <;> simp [orStart]

end Prospect

def Purpose.prospect : Purpose → Prospect
  | .assign _ => .nothing
  | .line id text _ _ => .line id text
  | .offer _ _ _ _ => .options

def Topic.prospect : Topic → Prospect
  | .assign _ => .nothing
  | .line id text => .line id text
  | .offer _ => .options

theorem prospect_topic (p : Purpose) : p.topic.prospect = p.prospect := by cases p <;> rfl

def Use.prospect : Use → Prospect
  | .leave _ destination => .nodeStart destination
  | .close => .dialogueEnd
  | .plain | .choice | .halt => .nothing

/-- What an engine in a phase is on its way to report, wherever it is put meanwhile. -/
def Phase.prospect : Phase → Prospect
  | .idle | .step | .settle _ => .nothing
  | .evaluate purpose _ _ | .calling purpose _ => purpose.prospect
  | .reported use | .heard use _ => use.prospect

/-- The event that a turn reports. -/
def Request.event? : Request → Option Event
  | .report _ event => some event
  | _ => none

/-- Whether all that an engine can report next is what is in prospect. -/
def Faces (e : Engine) : Prospect → Prop
  | .nothing => e.phase.prospect = .nothing ∧ e.node = none
  | .nodeStart node =>
    e.choices = none ∧ (e.phase.prospect = .nodeStart node ∨
      e.phase.prospect = .nothing ∧ e.node = some node ∧ e.nodeStarted = false)
  | p => e.phase.prospect = p

/-- While a step of the script is under way, it is known who is told about it. -/
def Attentive (e : Engine) : Prop :=
  match e.phase with
  | .evaluate _ _ _ | .calling _ _ | .reported _ | .heard _ _ => e.hearer.isSome = true
  | .idle | .step | .settle _ => True

theorem attentive_of_idle {e : Engine} (idle : e.phase = .idle) : e.Attentive := by
  rw [Attentive, idle]
  trivial

/-- All that an engine that has left the script may still report is that the dialogue is over. -/
structure IsDone (e : Engine) : Prop where
  outside : e.node = none
  prospect : e.phase.prospect = .nothing ∨ e.phase.prospect = .dialogueEnd

/-- What a turn, or something that others do, comes to for the next report. -/
inductive Outcome (e : Engine) (e' : Engine) : Option Event → Prop
  /-- Nothing is reported, and the prospect is what it was. -/
  | quiet (prospect : e'.phase.prospect = e.phase.prospect) (node : e'.node = e.node)
      (started : e'.nodeStarted = e.nodeStarted) (choices : e'.choices = e.choices) :
      Outcome e e' none
  /-- The event in prospect is reported. -/
  | told (event : Event) (fits : e.phase.prospect.Fits event)
      (spent : e'.phase.prospect = .nothing) (node : e.node = none → e'.node = none) :
      Outcome e e' (some event)
  /-- The engine enters the node that it was going to. -/
  | entered (destination : String) (prospect : e.phase.prospect = .nodeStart destination)
      (there : e' = { e.enter destination with phase := .settle .next }) : Outcome e e' none
  /-- The start of the node is reported. -/
  | begun (node : String) (plain : e.phase.prospect = .nothing) (inside : e.node = some node) :
      Outcome e e' (some (.nodeStart node))
  /-- The engine goes on in a node whose start has been reported. -/
  | within (event? : Option Event) (plain : e.phase.prospect = .nothing)
      (inside : e.node.isSome = true) (busy : e.nodeStarted = true ∨ e.choices.isSome = true) :
      Outcome e e' event?

section

variable {e e' : Engine} {p : Prospect} {x : Option Event}

/-! ### What follows from an outcome -/

/-- What is in prospect is the next thing that is reported. -/
theorem Outcome.faces (o : Outcome e e' x) (f : e.Faces p) :
    x = none ∧ e'.Faces p ∨ ∃ event, x = some event ∧ p.Fits event := by
  cases o with
  | quiet prospect node started choices =>
    left
    refine ⟨rfl, ?_⟩
    cases p <;> simpa only [Faces, prospect, node, started, choices] using f
  | told event fits =>
    right
    refine ⟨event, rfl, ?_⟩
    cases p with
    | nothing =>
      rw [f.1] at fits
      exact fits
    | nodeStart node =>
      rcases f.2 with same | ⟨none, -⟩
      · rwa [same] at fits
      · rw [none] at fits
        exact fits.elim
    | line | options | dialogueEnd =>
      rw [show e.phase.prospect = _ from f] at fits
      exact fits
  | entered destination prospect there =>
    left
    subst there
    cases p with
    | nothing =>
      rw [f.1] at prospect
      cases prospect
    | nodeStart node =>
      obtain ⟨choices, same | ⟨none, -⟩⟩ := f
      · rw [prospect] at same
        cases same
        exact ⟨rfl, choices, .inr ⟨rfl, rfl, rfl⟩⟩
      · rw [prospect] at none
        cases none
    | line | options | dialogueEnd =>
      rw [show e.phase.prospect = _ from f] at prospect
      cases prospect
  | begun node plain inside =>
    right
    refine ⟨_, rfl, ?_⟩
    cases p with
    | nothing =>
      rw [f.2] at inside
      cases inside
    | nodeStart node' =>
      rcases f.2 with same | ⟨-, inside', -⟩
      · rw [plain] at same
        cases same
      · rw [inside] at inside'
        cases inside'
        rfl
    | line | options | dialogueEnd =>
      rw [show e.phase.prospect = _ from f] at plain
      cases plain
  | within event? plain inside busy =>
    exfalso
    cases p with
    | nothing => simp [f.2] at inside
    | nodeStart node =>
      obtain ⟨choices, same | ⟨-, -, unstarted⟩⟩ := f
      · rw [plain] at same
        cases same
      · simp [choices, unstarted] at busy
    | line | options | dialogueEnd =>
      rw [show e.phase.prospect = _ from f] at plain
      cases plain

/-- An engine that is in no node, and not on its way to one, stays so, and reports at most what it
was about to report. -/
theorem Outcome.outside (o : Outcome e e' x) (out : e.node = none)
    (stays : ∀ node, e.phase.prospect ≠ .nodeStart node) :
    e'.node = none ∧ (x = none ∧ e'.phase.prospect = e.phase.prospect ∨
      ∃ event, x = some event ∧ e.phase.prospect.Fits event ∧ e'.phase.prospect = .nothing) := by
  cases o with
  | quiet prospect node => exact ⟨node.trans out, .inl ⟨rfl, prospect⟩⟩
  | told event fits spent node => exact ⟨node out, .inr ⟨event, rfl, fits, spent⟩⟩
  | entered destination prospect => exact absurd prospect (stays destination)
  | begun node plain inside =>
    rw [out] at inside
    cases inside
  | within event? plain inside => simp [out] at inside

/-- An engine that is done stays so, and reports at most that the dialogue is over. -/
theorem Outcome.isDone (o : Outcome e e' x) (done : e.IsDone) :
    e'.IsDone ∧ ∀ event ∈ x, event = .dialogueEnd := by
  have stays (node : String) : e.phase.prospect ≠ .nodeStart node := by
    rcases done.prospect with none | ending
    · simp [none]
    · simp [ending]
  obtain ⟨out, ⟨rfl, same⟩ | ⟨event, rfl, fits, none⟩⟩ := o.outside done.outside stays
  · exact ⟨⟨out, same.symm ▸ done.prospect⟩, nofun⟩
  · refine ⟨⟨out, .inl none⟩, fun event' hx => ?_⟩
    obtain rfl : event = event' := Option.some.inj hx
    rcases done.prospect with none | ending
    · rw [none] at fits
      exact fits.elim
    · rw [ending] at fits
      exact fits

/-! ### Stopping and placing -/

/-- A stopped engine is in no node, and has what its phase says in prospect. -/
theorem stop_faces (e : Engine) : e.stop.1.node = none ∧ e.stop.1.Faces e.phase.prospect := by
  refine ⟨rfl, ?_⟩
  cases hp : e.phase.prospect <;> simp [stop, leaveScript, Faces, hp]

/-- An engine that has been put at a node has the start of that node in prospect, unless its phase
says otherwise. -/
theorem place_faces {node : String} (placed : e.place node = .ok e') :
    e'.Faces (e.phase.prospect.orStart node) := by
  rw [(place_eq_ok.1 placed).2]
  cases hp : e.phase.prospect <;> simp [enter, Faces, Prospect.orStart, hp]

/-! ### Turns -/

section

variable {s : Surroundings} {ph : Phase} {n : Nat} {topic : Topic} {t : Turn}

theorem report_attentive (e : Engine) (event : Event) (use : Use) (rs : List Remark) :
    (e.report event use rs).1.Attentive := by
  unfold report
  split
  · next hears => simp [Attentive, hears]
  · trivial

theorem Serves.attentive (serves : Serves s e ph n topic t) (hears : e.hearer.isSome = true) :
    t.1.Attentive := by
  cases serves with
  | evaluate | call => exact hears
  | settle | store => trivial
  | tell | offer => exact report_attentive _ _ _ _

theorem Performs.attentive {node : String} {i : Instruction} (performs : Performs s e node i t)
    (hears : e.hearer.isSome = true) : t.1.Attentive := by
  cases performs with
  | line serves | options serves | set serves => exact serves.attentive hears
  | command | jump | stop => exact report_attentive _ _ _ _

theorem Ends.attentive (ends : Ends s e t) (a : e.Attentive) : t.1.Attentive := by
  cases ends with
  | unheard | outside | undecided | chosen | again | pause | halt | next | wait | enter | halted =>
    trivial
  | depart | begin | finish | closed => exact report_attentive _ _ _ _
  | perform _ _ _ _ performs => exact performs.attentive rfl
  | evaluate phase serves =>
    rw [Attentive, phase] at a
    exact serves.attentive a
  | still => exact a

/-- What is in prospect is filled in, or told. -/
theorem Serves.outcome (serves : Serves s e ph n topic t) (hears : e.hearer.isSome = true)
    (prospect : e.phase.prospect = topic.prospect) : Outcome e t.1 t.2.1.event? := by
  obtain ⟨l, hl⟩ := Option.isSome_iff_exists.1 hears
  cases serves with
  | evaluate same | call same =>
    rw [← same, prospect_topic] at prospect
    exact .quiet prospect.symm rfl rfl rfl
  | settle | store => exact .quiet prospect.symm rfl rfl rfl
  | tell id text filled =>
    rw [report_of_hears hl]
    exact .told _ (by rw [prospect]; exact ⟨filled, rfl⟩) rfl fun out => out
  | offer destinations offered =>
    have hears : { e with choices := some destinations, selected := none }.hearer = some l := hl
    rw [report_of_hears hears]
    exact .told _ (by rw [prospect]; exact ⟨_, rfl⟩) rfl fun out => out

/-- A turn comes to one of the outcomes. -/
theorem Ends.outcome (ends : Ends s e t) (a : e.Attentive) : Outcome e t.1 t.2.1.event? := by
  have plain {l : Listener} {node : String} (steps : StepsIn s e l node) :
      e.phase.prospect = .nothing := by
    rw [steps.phase]
    rfl
  -- whatever comes of an instruction, it is performed in a node that has been started
  have within {l : Listener} {node : String} (steps : StepsIn s e l node)
      (busy : e.nodeStarted = true ∨ e.choices.isSome = true) (x : Option Event) :
      Outcome e t.1 x := .within x (plain steps) (by simp [steps.inside]) busy
  cases ends with
  | unheard phase | outside phase | pause phase | halt phase | next phase | halted phase =>
    exact .quiet (by rw [phase]; rfl) rfl rfl rfl
  | undecided steps => exact .quiet (plain steps).symm rfl rfl rfl
  | chosen steps waiting | depart steps waiting => exact within steps (.inr (by simp [waiting])) _
  | begin steps => exact .begun _ (plain steps) steps.inside
  | perform steps _ started | finish steps _ started => exact within steps (.inl started) _
  | evaluate phase serves =>
    rw [Attentive, phase] at a
    refine serves.outcome a ?_
    rw [phase, prospect_topic]
    rfl
  | again phase =>
    rcases phase with phase | ⟨phase, -⟩ <;> exact .quiet (by rw [phase]; rfl) rfl rfl rfl
  | wait phase =>
    rcases phase with phase | ⟨_, phase⟩ <;> exact .quiet (by rw [phase]; rfl) rfl rfl rfl
  | enter phase => exact .entered _ (by rw [phase]; rfl) rfl
  | closed phase =>
    rw [Attentive, phase] at a
    obtain ⟨l, hl⟩ := Option.isSome_iff_exists.1 a
    have hears : e.leaveScript.hearer = some l := hl
    rw [report_of_hears hears]
    exact .told _ (by rw [phase]; rfl) rfl fun _ => rfl
  | still => exact .quiet rfl rfl rfl rfl

/-! ### The end of the dialogue -/

/-- A turn does not report that the dialogue is over. -/
def GoesOn (t : Turn) : Prop := t.2.1.event? ≠ some .dialogueEnd

theorem report_goesOn {event : Event} (other : event ≠ .dialogueEnd) (use : Use)
    (rs : List Remark) : GoesOn (e.report event use rs) := by
  unfold report
  cases e.hearer with
  | none => exact nofun
  | some l => exact fun same => other (Option.some.inj same)

theorem Serves.goesOn (serves : Serves s e ph n topic t) : GoesOn t := by
  cases serves with
  | evaluate | call | settle | store => exact nofun
  | tell | offer => exact report_goesOn (by simp) _ _

theorem Performs.goesOn {node : String} {i : Instruction} (performs : Performs s e node i t) :
    GoesOn t := by
  cases performs with
  | line serves | options serves | set serves => exact serves.goesOn
  | command | jump | stop => exact report_goesOn (by simp) _ _

/-- An engine that reports that the dialogue is over has left the script for good. -/
theorem isDone_of_turn (s : Surroundings) (ended : (e.turn s).2.1.event? = some .dialogueEnd) :
    (e.turn s).1.IsDone := by
  have ends := e.turn_ends s
  generalize e.turn s = t at ends ended ⊢
  cases ends with
  | closed =>
    unfold report
    split <;> exact ⟨rfl, .inl rfl⟩
  | depart | begin | finish => exact absurd ended (report_goesOn (by simp) _ _)
  | perform _ _ _ _ performs => exact absurd ended performs.goesOn
  | evaluate _ serves => exact absurd ended serves.goesOn
  | _ => cases ended

end

/-! ### Whatever is done with an engine -/

/-- What can be done with an engine, apart from stopping it or putting it at a node, and the event
that it reports then. -/
inductive Act (e : Engine) : Engine → Option Event → Prop
  /-- The engine takes its turn. -/
  | turn (s : Surroundings) : Act e (e.turn s).1 (e.turn s).2.1.event?
  | continue_ : Act e e.continue?.1 none
  | choose (id : OptionId) : Act e (e.choose id).1 none
  | hear (x : NextAction) : Act e (e.hear x) none
  | receive (v : Value) : Act e (e.receive v) none
  /-- The engine is given the variables and functions, or a listener, or neither. -/
  | equip (bound : Bool) (listener : Option Listener) :
      Act e { e with bound := bound, listener := listener } none

/-- Nothing is done with an engine. -/
theorem Act.refl (e : Engine) : Act e e none := .equip e.bound e.listener

theorem Act.attentive (act : Act e e' x) (a : e.Attentive) : e'.Attentive := by
  cases act with
  | turn s => exact (e.turn_ends s).attentive a
  | continue_ =>
    unfold continue?
    split
    · exact a
    · trivial
  | choose id =>
    obtain ⟨choice, same⟩ := e.choose_eq id
    rw [same]
    exact a
  | hear x =>
    unfold Engine.hear
    split
    · next use phase =>
      rw [Attentive, phase] at a
      exact a
    · exact a
  | receive v =>
    unfold Engine.receive
    split
    · next purpose stack phase =>
      rw [Attentive, phase] at a
      exact a
    · exact a
  | equip => exact a

/-- Whatever is done with an engine comes to one of the outcomes. -/
theorem Act.outcome (act : Act e e' x) (a : e.Attentive) : Outcome e e' x := by
  cases act with
  | turn s => exact (e.turn_ends s).outcome a
  | continue_ =>
    unfold continue?
    split
    · exact .quiet rfl rfl rfl rfl
    · next idle =>
      have phase : e.phase = .idle := by
        unfold isRunning at idle
        split at idle
        · assumption
        · simp at idle
      exact .quiet (by rw [phase]; rfl) rfl rfl rfl
  | choose id =>
    obtain ⟨choice, same⟩ := e.choose_eq id
    rw [same]
    exact .quiet rfl rfl rfl rfl
  | hear x =>
    unfold Engine.hear
    split
    · next use phase => exact .quiet (by rw [phase]; rfl) rfl rfl rfl
    · exact .quiet rfl rfl rfl rfl
  | receive v =>
    unfold Engine.receive
    split
    · next purpose stack phase => exact .quiet (by rw [phase]; rfl) rfl rfl rfl
    · exact .quiet rfl rfl rfl rfl
  | equip => exact .quiet rfl rfl rfl rfl

end

end Prompter.Engine

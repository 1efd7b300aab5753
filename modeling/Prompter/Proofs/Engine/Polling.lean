import Prompter.Proofs.Engine.Coherence
import Prompter.Proofs.Engine.Evaluation

/-!
# Prompter.Proofs.Engine.Polling

How an engine decides which options of a set are available, and where it goes when one is chosen.

An engine that has no choice to make is `Calm`, and a turn leaves it so unless it begins an
instruction that offers options (`turn_of_calm`). Then it is `Polling` them: it evaluates their
conditions one after the other, and reports the set when every option has its verdict
(`turn_of_polling`). From then on it is `Poised` until an option has been selected, and leaves the
set for the place that the option leads to (`turn_of_poised`). It `Heads` for that place until it
takes its next step of the script there (`turn_of_heads`).
-/

namespace Prompter

/-! ### Verdicts -/

/-- An option may be chosen, by what is found out about its condition. -/
structure ScriptOption.Granted (o : ScriptOption) (fs : List Finding) : Prop where
  available : o.available = true
  condition : ∀ x ∈ o.condition, x.Evaluates (.bool true) fs

/-- Options are offered by what is found out about them, one after the other: only those that may be
chosen are available. -/
inductive Polled : List ScriptOption → List DialogueOption → List Finding → Prop
  | nil : Polled [] [] []
  | snoc {os : List ScriptOption} {offered : List DialogueOption} {fs : List Finding}
      (polled : Polled os offered fs) (o : ScriptOption) (available : Bool) (judging : List Finding)
      (granted : available = true → o.Granted judging) :
      Polled (os ++ [o]) (offered ++ [Engine.offerOption o offered.length available])
        (fs ++ judging)

namespace Polled

variable {os : List ScriptOption} {offered : List DialogueOption} {fs : List Finding}

theorem length_eq (polled : Polled os offered fs) : offered.length = os.length := by
  induction polled with
  | nil => rfl
  | snoc _ _ _ _ _ ih => simp [ih]

/-- An option that is offered as available may be chosen. Its id is its place in the set. -/
theorem granted (polled : Polled os offered fs) {d : DialogueOption} (hd : d ∈ offered)
    (available : d.available = true) :
    ∃ o before judging after, os[d.id]? = some o ∧ fs = before ++ judging ++ after ∧
      o.Granted judging := by
  induction polled with
  | nil => cases hd
  | @snoc os offered fs polled o verdict judging granted ih =>
    rcases List.mem_append.1 hd with hd | hd
    · obtain ⟨o', before, judging', after, ho, rfl, granted⟩ := ih hd
      have old : d.id < os.length := (List.getElem?_eq_some_iff.1 ho).1
      refine ⟨o', before, judging', after ++ judging, ?_, by simp, granted⟩
      rw [List.getElem?_append_left old, ho]
    · obtain rfl := List.mem_singleton.1 hd
      refine ⟨o, fs, judging, [], ?_, (List.append_nil _).symm, granted available⟩
      simp [Engine.offerOption, polled.length_eq]

end Polled

/-- A place in a script: an instruction of a node, or the entrance of the node. -/
structure Place where
  node : String
  /-- The instruction; `none` for the entrance. -/
  index : Option Nat
deriving DecidableEq

/-- Where the option of a set leads, when the script goes on after the set at `next`. -/
def Place.orGoTo (next : Place) (destination : Option String) : Place :=
  destination.elim next (⟨·, none⟩)

/-- Whether an event neither opens a choice nor ends the dialogue. -/
def Event.isOrdinary : Event → Bool
  | .options _ | .dialogueEnd => false
  | _ => true

namespace Engine

/-! ### Where an engine stands -/

/-- The place in the script that an engine has got to. -/
def stands? (e : Engine) : Option Place :=
  e.node.map fun node => ⟨node, if e.nodeStarted then some e.index else none⟩

/-- The place of the step of the script that an engine takes with its next turn. -/
def step? (e : Engine) : Option Place :=
  match e.phase, e.choices with
  | .step, none => e.stands?
  | _, _ => none

/-- Whether a phase has nothing to do with options. -/
def Phase.isCalm : Phase → Bool
  | .reported .choice | .heard .choice _ => false
  | .evaluate (.offer _ _ _ _) _ _ | .calling (.offer _ _ _ _) _ => false
  | _ => true

/-- Whether a topic has nothing to do with options. -/
def Topic.isCalm : Topic → Bool
  | .offer _ => false
  | .assign _ | .line _ _ => true

theorem isCalm_topic {p : Purpose} {focus : Focus} {stack : List Frame} :
    (Phase.evaluate p focus stack).isCalm = p.topic.isCalm := by
  cases p <;> rfl

/-- Whether options may wait for a choice in a phase. -/
def Phase.isPoised : Phase → Bool
  | .idle | .step | .settle .wait | .settle .halt | .reported .choice | .heard .choice _ => true
  | _ => false

/-- Whether options wait in a phase from which an engine that goes on looks at the choice. -/
def Phase.isWatchful : Phase → Bool
  | .idle | .step | .settle .wait | .reported .choice | .heard .choice _ => true
  | _ => false

/-- Whether an engine that has left the script may be in a phase. -/
def Phase.isOut : Phase → Bool
  | .idle | .step | .settle .halt | .reported .halt | .heard .halt _ => true
  | _ => false

/-- An engine has left the script, and goes through with the end of the dialogue at most. -/
structure Out (e : Engine) : Prop where
  outside : e.node = none
  out : e.phase.isOut = true

/-- An engine has no choice to make, and offers none. -/
structure Calm (e : Engine) : Prop where
  free : e.choices = none
  calm : e.phase.isCalm = true

/-- An engine is deciding which of the options `os` are available, and has found out `fs`. -/
inductive Polling (os : List ScriptOption) (e : Engine) : List Finding → Prop
  | intro {done rest : List ScriptOption} {offered : List DialogueOption}
      {before judging : List Finding} {o : ScriptOption} {x : Expression}
      (polled : Polled done offered before) (all : os = done ++ o :: rest)
      (condition : o.condition = some x)
      (purpose : e.phase.purpose? = some (.offer offered o rest (os.map (·.destination))))
      (judges : ∀ v fs, e.phase.Completes v fs → x.Evaluates v (judging ++ fs)) :
      Polling os e (before ++ judging)

/-- Options wait for a choice, `selected` has been chosen of them, and the script goes on at `next`
after them. -/
structure Poised (destinations : List (Option String)) (selected : Option OptionId) (next : Place)
    (e : Engine) : Prop where
  waiting : e.choices = some destinations
  selected : e.selected = selected
  stands : e.stands? = some next
  poised : e.phase.isPoised = true

/-- An engine in a watchful phase goes on without being asked to. -/
def Roused (e : Engine) : Prop := e.phase = .step ∨ e.phase ≠ .idle ∧ e.resumeRequested = true

/-- An engine is on its way to a place in the script. -/
def Heads (goal : Place) (e : Engine) : Prop :=
  e.choices = none ∧
    match e.phase with
    | .reported (.leave _ destination) | .heard (.leave _ destination) _ =>
      goal = ⟨destination, none⟩
    | .settle .next | .step => e.stands? = some goal
    | _ => False

/-- How a turn goes on with the options `os`: they are reported, or another of them is polled. -/
inductive Polls (os : List ScriptOption) (e : Engine) (fs : List Finding) :
    Engine → Request → Prop
  | report {offered : List DialogueOption} {l : Listener} (hears : e.hearer = some l)
      (polled : Polled os offered fs) :
      Polls os e fs
        { e with
          choices := some (os.map (·.destination)), selected := none
          phase := .reported .choice }
        (.report l (.options ⟨offered⟩))
  | poll {r : Request} (phase : Phase) (polling : Polling os { e with phase := phase } fs)
      (silent : ∀ l event, r ≠ .report l event) : Polls os e fs { e with phase := phase } r

/-- What a turn tells of neither opens a choice nor ends the dialogue. -/
def IsOrdinary (t : Turn) : Prop := ∀ l event, t.2.1 = .report l event → event.isOrdinary = true

/-- What a turn tells of opens no choice, and ends the dialogue only if the engine has left the
script. -/
def Passes (t : Turn) : Prop :=
  ∀ l event, t.2.1 = .report l event → event.isOrdinary = true ∨ event = .dialogueEnd ∧ t.1.Out

/-- What others do with an engine that has left the word to them, and what is found out by it. -/
inductive Nudged (e : Engine) : Engine → Option Finding → Prop
  | same : Nudged e e none
  | continued : Nudged e e.continue?.1 none
  | heard (answer : NextAction) : Nudged e (e.hear answer) none
  | received {purpose : Purpose} {stack : List Frame} (calling : e.phase = .calling purpose stack)
      (v : Value) : Nudged e (e.receive v) (some (.returned v))

/-! ### Polling -/

section

variable {e : Engine} {s : Surroundings} {os : List ScriptOption} {fs : List Finding}
  {l : Listener}

/-- Options are polled up to the next one that has a condition. -/
theorem fillOffer_polls (hears : e.hearer = some l) {done rest : List ScriptOption}
    {offered : List DialogueOption} (polled : Polled done offered fs) (all : os = done ++ rest)
    (rs : List Remark) :
    Polls os e fs (e.fillOffer s (os.map (·.destination)) offered rs rest).1
      (e.fillOffer s (os.map (·.destination)) offered rs rest).2.1 := by
  induction rest generalizing done offered fs with
  | nil =>
    rw [List.append_nil] at all
    subst all
    rw [fillOffer, report_of_hears (l := l)]
    · exact .report hears polled
    · exact hears
  | cons o rest ih =>
    unfold fillOffer
    cases condition : o.condition with
    | some x =>
      refine .poll _ ?_ nofun
      have polling : Polling os { e with
          phase := .evaluate (.offer offered o rest (os.map (·.destination))) (focusOn s x) [] }
          (fs ++ []) :=
        .intro polled all condition rfl fun _ _ completes => completes.evaluates
      rwa [List.append_nil] at polling
    | none =>
      have polled := polled.snoc o o.available []
        fun available => ⟨available, fun x hx => by simp [condition] at hx⟩
      rw [List.append_nil] at polled
      exact ih polled (by simp [all])

/-- The value of a condition is the verdict on its option. -/
theorem deliverValue_polls (hears : e.hearer = some l) {done rest : List ScriptOption}
    {offered : List DialogueOption} {o : ScriptOption} {x : Expression} {judging : List Finding}
    (polled : Polled done offered fs) (all : os = done ++ o :: rest)
    (condition : o.condition = some x) {r : Except EvaluationError Value}
    (judged : ∀ v, r = .ok v → x.Evaluates v judging) :
    let t := e.deliverValue s r (.offer offered o rest (os.map (·.destination)))
    Polls os e (fs ++ judging) t.1 t.2.1 := by
  have verdict (available : Bool) (rs : List Remark)
      (granted : available = true → o.Granted judging) :
      Polls os e (fs ++ judging)
        (e.fillOffer s (os.map (·.destination))
          (offered ++ [offerOption o offered.length available]) rs rest).1
        (e.fillOffer s (os.map (·.destination))
          (offered ++ [offerOption o offered.length available]) rs rest).2.1 :=
    fillOffer_polls hears (polled.snoc o available judging granted) (by simp [all]) rs
  dsimp only [deliverValue]
  split
  · next passed =>
    refine verdict _ _ fun available => ?_
    obtain ⟨free, rfl⟩ : o.available = true ∧ passed = true := by simpa using available
    refine ⟨free, fun x' hx => ?_⟩
    obtain rfl : x = x' := by simpa [condition] using hx
    exact judged _ rfl
  · exact verdict false _ nofun
  · exact verdict false _ nofun

/-- A turn goes on polling the options, with what it finds out. -/
theorem turn_of_polling (hears : e.hearer = some l) (polling : Polling os e fs)
    (turns : ∀ purpose stack, e.phase ≠ .calling purpose stack) :
    Polls os e (fs ++ (e.phase.finds s).toList) (e.turn s).1 (e.turn s).2.1 := by
  obtain ⟨polled, all, condition, purpose, judges⟩ := polling
  rename_i done rest offered before judging o x
  cases phase : e.phase with
  | calling p stack => exact absurd phase (turns p stack)
  | evaluate p focus stack =>
    rw [phase] at purpose judges
    obtain rfl := Option.some.inj purpose
    simp only [turn, phase]
    rcases evaluateStep_evaluates (e := e) (s := s) focus with
      ⟨same, purpose, completes, silent⟩ | ⟨none, r, same, completes⟩
    · rw [same]
      refine .poll _ ?_ silent
      rw [List.append_assoc]
      refine .intro polled all condition purpose fun v fs rest => ?_
      rw [List.append_assoc]
      exact judges v _ (completes v fs rest)
    · rw [none, same, Option.toList, List.append_nil]
      refine deliverValue_polls hears polled all condition fun v same => ?_
      simpa using judges v [] (completes v same)
  | idle | step | settle | reported | heard =>
    rw [phase] at purpose
    cases purpose

end

/-! ### Turns that have nothing to do with options -/

section

variable {e : Engine} {s : Surroundings}

/-- A turn leaves an engine calm, and reports no options. -/
structure StaysCalm (t : Turn) : Prop where
  calm : t.1.Calm
  passes : Passes t

theorem StaysCalm.goTo {phase : Phase} {rs : List Remark} (free : e.choices = none)
    (calm : phase.isCalm = true) : StaysCalm (e.goTo phase rs) :=
  ⟨⟨free, calm⟩, nofun⟩

theorem StaysCalm.report {event : Event} {use : Use} {rs : List Remark} (free : e.choices = none)
    (ordinary : event.isOrdinary = true ∨ event = .dialogueEnd ∧ e.node = none ∧ use = .halt)
    (calm : use ≠ .choice) : StaysCalm (e.report event use rs) := by
  unfold Engine.report
  split
  · refine ⟨⟨free, ?_⟩, fun l event' same => ?_⟩
    · cases use <;> first | rfl | exact absurd rfl calm
    · cases same
      refine ordinary.imp_right ?_
      rintro ⟨last, outside, rfl⟩
      exact ⟨last, outside, rfl⟩
  · exact .goTo free rfl

variable {ph : Phase} {n : Nat} {topic : Topic} {t : Turn}

theorem Serves.calm (serves : Serves s e ph n topic t) (free : e.choices = none)
    (other : topic.isCalm = true) : StaysCalm t := by
  cases serves with
  | @evaluate _ p same =>
    subst same
    exact .goTo free (by cases p <;> first | rfl | cases other)
  | @call _ p same =>
    subst same
    exact ⟨⟨free, by cases p <;> first | rfl | cases other⟩, nofun⟩
  | settle => exact .goTo free rfl
  | store => exact ⟨⟨free, rfl⟩, nofun⟩
  | tell => exact .report free (.inl rfl) nofun
  | offer => cases other

theorem Performs.calm {node : String} {i : Instruction} (performs : Performs s e node i t)
    (free : e.choices = none) (other : ∀ os, i ≠ .options os) : StaysCalm t := by
  cases performs with
  | line serves | set serves => exact serves.calm free rfl
  | options => exact absurd rfl (other _)
  | command | jump | stop => exact .report free (.inl rfl) nofun

/-- A turn leaves a calm engine calm, unless it begins an instruction that offers options. -/
theorem Ends.calm (ends : Ends s e t) (calm : e.Calm) :
    StaysCalm t ∨ ∃ l node os, StepsIn s e l node ∧ e.nodeStarted = true ∧
      e.script.instruction? node e.index = some (.options os) := by
  obtain ⟨free, quiet⟩ := calm
  cases ends with
  | unheard | outside | undecided | again | next | wait | enter | halted =>
    exact .inl (.goTo free rfl)
  | chosen => exact .inl (.goTo rfl rfl)
  | depart => exact .inl (.report rfl (.inl rfl) nofun)
  | begin | finish => exact .inl (.report free (.inl rfl) nofun)
  | @perform l node steps _ started i stands _ performs =>
    cases i with
    | options os => exact .inr ⟨l, node, os, steps, started, stands⟩
    | _ => exact .inl (performs.calm free nofun)
  | evaluate phase serves =>
    rw [phase] at quiet
    exact .inl (serves.calm free (isCalm_topic ▸ quiet))
  | pause | halt => exact .inl ⟨⟨free, rfl⟩, nofun⟩
  | closed => exact .inl (.report rfl (.inr ⟨rfl, rfl, rfl⟩) nofun)
  | still => exact .inl ⟨⟨free, quiet⟩, nofun⟩

/-- A turn leaves a calm engine calm, unless it begins to poll the options of a set. -/
theorem turn_of_calm {l : Listener} (hl : s.listener = some l) (calm : e.Calm) :
    StaysCalm (e.turn s) ∨
      ∃ node os, e.step? = some ⟨node, some e.index⟩ ∧ e.stands? = some ⟨node, some e.index⟩ ∧
        e.script.instruction? node e.index = some (.options os) ∧
        Polls os { e with index := e.index + 1, hearer := some l } [] (e.turn s).1
          (e.turn s).2.1 := by
  rcases (e.turn_ends s).calm calm with stays | ⟨l', node, os, steps, started, offers⟩
  · exact .inl stays
  · obtain rfl : l' = l := Option.some.inj (steps.hears.symm.trans hl)
    have stands : e.stands? = some ⟨node, some e.index⟩ := by simp [stands?, steps.inside, started]
    refine .inr ⟨node, os, ?_, stands, offers, ?_⟩
    · simp [step?, steps.phase, calm.free, stands]
    · have begun : e.turn s = { e with index := e.index + 1, hearer := some l' }.perform s node
          (.options os) := by
        simp [turn, steps.phase, takeStep, steps.hears, steps.inside, calm.free, started, offers]
      rw [begun]
      exact fillOffer_polls rfl .nil rfl []

end

/-! ### From a set to where the chosen option leads -/

section

variable {e : Engine} {s : Surroundings} {destinations : List (Option String)}
  {selected : Option OptionId} {next goal : Place}

/-- Another phase in which options wait. -/
theorem Poised.moves (p : e.Poised destinations selected next) {phase : Phase}
    (poised : phase.isPoised = true) (asked : Bool) (hearer : Option Listener) :
    { e with phase := phase, resumeRequested := asked, hearer := hearer }.Poised destinations
      selected next :=
  ⟨p.waiting, p.selected, p.stands, poised⟩

/-- The choice is noted. -/
theorem Poised.choose (p : e.Poised destinations selected next) (id : OptionId) :
    (e.choose id).1.Poised destinations (some id) next := by
  unfold Engine.choose
  rw [if_pos (by simp [p.waiting])]
  exact ⟨p.waiting, rfl, p.stands, p.poised⟩

/-- The engine does not go on in the script while options wait. -/
theorem Poised.step?_eq_none (p : e.Poised destinations selected next) : e.step? = none := by
  unfold step?
  split
  · next free => cases free.symm.trans p.waiting
  · rfl

/-- A turn leaves options waiting, unless one has been selected: then the engine heads for where it
leads. -/
theorem turn_of_poised {l : Listener} (hl : s.listener = some l)
    (p : e.Poised destinations selected next) :
    IsOrdinary (e.turn s) ∧
      ((e.turn s).1.Poised destinations selected next ∨
        ∃ id, selected = some id ∧ (e.turn s).1.Heads (next.orGoTo destinations[id]?.join)) := by
  have ⟨waiting, chosen, stands, poised⟩ := p
  have taken {free : Prop} (none : e.choices = none) : free :=
    nomatch waiting.symm.trans none
  have ends := e.turn_ends s
  generalize e.turn s = t at ends
  cases ends with
  | unheard _ nobody => cases nobody.symm.trans hl
  | outside _ _ out => simp [stands?, out] at stands
  | @undecided l => exact ⟨nofun, .inl (p.moves rfl e.resumeRequested (some l))⟩
  | chosen steps there made stays =>
    cases waiting.symm.trans there
    refine ⟨nofun, .inr ⟨_, chosen.symm.trans made, rfl, ?_⟩⟩
    rw [stays]
    exact stands
  | depart steps there made leads =>
    cases waiting.symm.trans there
    rw [report_of_hears rfl]
    refine ⟨fun l event same => ?_, .inr ⟨_, chosen.symm.trans made, rfl, ?_⟩⟩
    · cases same
      rfl
    · rw [leads]
      rfl
  | begin _ free | perform _ free | finish _ free => exact taken free
  | again phase =>
    rcases phase with phase | ⟨phase, -⟩
    · rw [phase] at poised
      cases poised
    · exact ⟨nofun, .inl (p.moves rfl false none)⟩
  | pause | halt => exact ⟨nofun, .inl (p.moves rfl e.resumeRequested none)⟩
  | wait phase => exact ⟨nofun, .inl (p.moves rfl e.resumeRequested e.hearer)⟩
  | evaluate phase | next phase | enter phase | closed phase | halted phase =>
    rw [phase] at poised
    cases poised
  | still => exact ⟨nofun, .inl p⟩

/-- A watchful engine stays so until it looks at the choice that has been made. -/
theorem turn_of_chosen {l : Listener} (hl : s.listener = some l) {id : OptionId}
    (p : e.Poised destinations (some id) next) (watchful : e.phase.isWatchful = true) :
    (e.turn s).1.Heads (next.orGoTo destinations[id]?.join) ∨
      (e.turn s).1.Poised destinations (some id) next ∧ (e.turn s).1.phase.isWatchful = true ∧
        (e.Roused → (e.turn s).1.Roused) := by
  obtain ⟨-, stays | ⟨_, same, heads⟩⟩ := turn_of_poised hl p
  · refine .inr ⟨stays, ?_⟩
    have ends := e.turn_ends s
    generalize e.turn s = t at ends stays
    cases ends with
    | unheard _ nobody => cases nobody.symm.trans hl
    | outside _ _ out =>
      have stands := p.stands
      simp [stands?, out] at stands
    | undecided _ _ open_ => cases open_.symm.trans p.selected
    | chosen | depart => cases stays.waiting
    | begin _ free | perform _ free | finish _ free => cases free.symm.trans p.waiting
    | again => exact ⟨rfl, fun _ => .inl rfl⟩
    | pause phase unasked =>
      refine ⟨rfl, fun roused => ?_⟩
      rcases roused with step | ⟨-, asked⟩
      · cases phase.symm.trans step
      · cases unasked.symm.trans asked
    | wait phase =>
      refine ⟨rfl, fun roused => ?_⟩
      rcases roused with step | ⟨-, asked⟩
      · rcases phase with phase | ⟨_, phase⟩ <;> cases phase.symm.trans step
      · exact .inr ⟨nofun, asked⟩
    | evaluate phase | halt phase | next phase | enter phase | closed phase | halted phase =>
      rw [phase] at watchful
      cases watchful
    | still => exact ⟨watchful, fun roused => roused⟩
  · cases same
    exact .inl heads

/-- A turn takes the step that an engine heads for, or leaves it on its way. -/
theorem turn_of_heads (heads : e.Heads goal) :
    e.step? = some goal ∨ e.step? = none ∧ IsOrdinary (e.turn s) ∧ (e.turn s).1.Heads goal := by
  obtain ⟨free, heads⟩ := heads
  split at heads
  · next phase =>
    refine .inr ⟨by simp [step?, phase], ?_⟩
    simp only [turn, phase]
    exact ⟨nofun, free, by rw [phase]; exact heads⟩
  · next answer phase =>
    subst heads
    refine .inr ⟨by simp [step?, phase], ?_⟩
    simp only [turn, phase]
    exact ⟨nofun, free, rfl⟩
  · next phase =>
    refine .inr ⟨by simp [step?, phase], ?_⟩
    simp only [turn, phase]
    obtain ⟨same, again⟩ := e.endStep_again .next (.inl rfl)
    refine ⟨fun l event told => ?_, ?_⟩
    · rw [again] at told
      cases told
    · rw [same]
      exact ⟨free, heads⟩
  · next phase => exact .inl (by simpa [step?, phase, free] using heads)
  · cases heads

theorem Heads.not_idle (heads : e.Heads goal) : e.phase ≠ .idle := by
  obtain ⟨-, way⟩ := heads
  intro idle
  rw [idle] at way
  exact way

/-- No options wait outside of the script. -/
theorem Out.not_poised (out : e.Out) : ¬ e.Poised destinations selected next := by
  intro p
  have stands := p.stands
  simp [stands?, out.outside] at stands

/-- An engine that is on its way has no choice to make. -/
theorem Heads.calm (heads : e.Heads goal) : e.Calm := by
  obtain ⟨free, way⟩ := heads
  refine ⟨free, ?_⟩
  split at way
  · next phase => rw [phase]; rfl
  · next phase => rw [phase]; rfl
  · next phase => rw [phase]; rfl
  · next phase => rw [phase]; rfl
  · cases way

theorem Turned.script {e' : Engine} {l : Listener} {r : Request} (t : Turned l e e' r) :
    e'.script = e.script := by
  cases t <;> rfl

/-- A turn leaves an engine out of the script, and reports nothing there. -/
theorem Turned.out {e' : Engine} {l : Listener} {r : Request} (t : Turned l e e' r) (o : e.Out) :
    e'.Out ∧ ∀ l event, r ≠ .report l event := by
  obtain ⟨outside, out⟩ := o
  cases t with
  | outside | halt | halted => exact ⟨⟨outside, rfl⟩, nofun⟩
  | still => exact ⟨⟨outside, out⟩, nofun⟩
  | undecided _ inside | chosen _ inside | depart _ inside =>
    rw [outside] at inside
    cases inside
  | begin _ _ inside => cases outside.symm.trans inside
  | evaluate p | call p | done p | report p | offer p =>
    rcases p with ⟨-, inside, -⟩ | ⟨_, _, _, phase, -⟩
    · rw [outside] at inside
      cases inside
    · rw [phase] at out
      cases out
  | again phase =>
    rcases phase with phase | ⟨phase, -⟩
    all_goals
      rw [phase] at out
      cases out
  | wait phase =>
    rcases phase with phase | ⟨_, phase⟩
    all_goals
      rw [phase] at out
      cases out
  | pause phase | next phase | enter _ _ _ phase | closed _ phase =>
    rw [phase] at out
    cases out

end

/-! ### What others do with the engine -/

section

variable {e e' : Engine} {found : Option Finding}

/-- An engine that is asked to go on does so. -/
theorem roused_of_continue? (e : Engine) : e.continue?.1.Roused := by
  unfold Engine.continue?
  split
  · next running =>
    refine .inr ⟨fun idle => ?_, rfl⟩
    have phase : e.phase = .idle := idle
    simp [isRunning, phase] at running
  · exact .inl rfl

/-- The phase and the noted request are all that changes of an engine that others nudge. -/
theorem Nudged.keeps (n : e.Nudged e' found) :
    e' = { e with phase := e'.phase, resumeRequested := e'.resumeRequested } := by
  cases n with
  | same => rfl
  | continued =>
    unfold Engine.continue?
    split <;> rfl
  | heard =>
    unfold Engine.hear
    split <;> rfl
  | received =>
    unfold Engine.receive
    split <;> rfl

/-- The phase changes only where somebody has the word, or is asked to go on. -/
theorem Nudged.phase (n : e.Nudged e' found) :
    e'.phase = e.phase ∧ found = none ∨
      e.phase = .idle ∧ e'.phase = .step ∧ found = none ∨
      (∃ use answer, e.phase = .reported use ∧ e'.phase = .heard use answer ∧ found = none) ∨
      ∃ purpose stack v, e.phase = .calling purpose stack ∧ e' = e.receive v ∧
        found = some (.returned v) := by
  cases n with
  | same => exact .inl ⟨rfl, rfl⟩
  | continued =>
    cases running : e.isRunning with
    | true => exact .inl ⟨by simp [Engine.continue?, running], rfl⟩
    | false =>
      have phase : e.phase = .idle := by
        unfold Engine.isRunning at running
        split at running
        · next phase => exact phase
        · cases running
      exact .inr (.inl ⟨phase, by simp [Engine.continue?, running], rfl⟩)
  | heard answer =>
    unfold Engine.hear
    split
    · next use phase => exact .inr (.inr (.inl ⟨use, answer, phase, rfl, rfl⟩))
    · exact .inl ⟨rfl, rfl⟩
  | received calling v => exact .inr (.inr (.inr ⟨_, _, v, calling, rfl, rfl⟩))

theorem Nudged.choices (n : e.Nudged e' found) : e'.choices = e.choices := by
  rw [n.keeps]

theorem Nudged.stands? (n : e.Nudged e' found) : e'.stands? = e.stands? := by
  rw [n.keeps]
  rfl

theorem Calm.nudged (c : e.Calm) (n : e.Nudged e' found) : e'.Calm := by
  have ⟨free, calm⟩ := c
  refine ⟨n.choices.trans free, ?_⟩
  rcases n.phase with ⟨same, -⟩ | ⟨-, same, -⟩ | ⟨use, answer, phase, same, -⟩ |
    ⟨purpose, stack, v, phase, rfl, -⟩
  · rwa [same]
  · rw [same]
    rfl
  · rw [phase] at calm
    rw [same]
    cases use <;> exact calm
  · rw [phase] at calm
    rw [e.receive_of_calling phase]
    cases purpose <;> exact calm

theorem Out.nudged (o : e.Out) (n : e.Nudged e' found) : e'.Out := by
  have ⟨outside, out⟩ := o
  refine ⟨by rw [n.keeps]; exact outside, ?_⟩
  rcases n.phase with ⟨same, -⟩ | ⟨-, same, -⟩ | ⟨use, answer, phase, same, -⟩ |
    ⟨purpose, stack, v, phase, -⟩
  · rwa [same]
  · rw [same]
    rfl
  · rw [phase] at out
    rw [same]
    cases use <;> exact out
  · rw [phase] at out
    cases out

theorem Poised.nudged {destinations : List (Option String)} {selected : Option OptionId}
    {next : Place} (p : e.Poised destinations selected next) (n : e.Nudged e' found) :
    e'.Poised destinations selected next := by
  have ⟨waiting, chosen, stands, poised⟩ := p
  refine ⟨n.choices.trans waiting, by rw [n.keeps]; exact chosen, n.stands?.trans stands, ?_⟩
  rcases n.phase with ⟨same, -⟩ | ⟨-, same, -⟩ | ⟨use, answer, phase, same, -⟩ |
    ⟨purpose, stack, v, phase, -⟩
  · rwa [same]
  · rw [same]
    rfl
  · rw [phase] at poised
    rw [same]
    cases use <;> exact poised
  · rw [phase] at poised
    cases poised

theorem watchful_of_nudged (watchful : e.phase.isWatchful = true) (n : e.Nudged e' found) :
    e'.phase.isWatchful = true := by
  rcases n.phase with ⟨same, -⟩ | ⟨-, same, -⟩ | ⟨use, answer, phase, same, -⟩ |
    ⟨purpose, stack, v, phase, -⟩
  · rwa [same]
  · rw [same]
    rfl
  · rw [phase] at watchful
    rw [same]
    cases use <;> exact watchful
  · rw [phase] at watchful
    cases watchful

/-- Nobody keeps an engine from going on. -/
theorem Roused.nudged (roused : e.Roused) (watchful : e.phase.isWatchful = true)
    (n : e.Nudged e' found) : e'.Roused := by
  cases n with
  | same => exact roused
  | continued => exact e.roused_of_continue?
  | heard answer =>
    unfold Engine.hear
    split
    · next use phase =>
      rcases roused with step | ⟨-, asked⟩
      · cases phase.symm.trans step
      · exact .inr ⟨nofun, asked⟩
    · exact roused
  | received calling =>
    rw [calling] at watchful
    cases watchful

/-- What a function returns that is called in a condition is found out about its option. -/
theorem Polling.nudged {os : List ScriptOption} {fs : List Finding} (p : Polling os e fs)
    (n : e.Nudged e' found) : Polling os e' (fs ++ found.toList) := by
  obtain ⟨polled, all, condition, purpose, judges⟩ := p
  rcases n.phase with ⟨same, rfl⟩ | ⟨phase, -⟩ | ⟨use, answer, phase, -⟩ |
    ⟨p, stack, v, phase, rfl, rfl⟩
  · rw [Option.toList, List.append_nil]
    exact .intro polled all condition (by rwa [same]) (by rwa [same])
  · rw [phase] at purpose
    cases purpose
  · rw [phase] at purpose
    cases purpose
  · rw [List.append_assoc]
    refine .intro polled all condition ?_ fun w fs completes => ?_
    · rw [e.receive_of_calling phase]
      rwa [phase] at purpose
    · rw [List.append_assoc]
      exact judges w _ (completes_receive phase v completes)

theorem Heads.nudged {goal : Place} (heads : e.Heads goal) (n : e.Nudged e' found) :
    e'.Heads goal := by
  obtain ⟨free, way⟩ := heads
  refine ⟨n.choices.trans free, ?_⟩
  rcases n.phase with ⟨same, -⟩ | ⟨phase, -⟩ | ⟨use, answer, phase, same, -⟩ |
    ⟨purpose, stack, v, phase, -⟩
  · rw [same, n.stands?]
    exact way
  · rw [phase] at way
    cases way
  · rw [phase] at way
    rw [same]
    cases use <;> exact way
  · rw [phase] at way
    cases way

end

end Engine

end Prompter

import Mathlib.Logic.Function.Iterate
import Prompter.Proofs.Engine.Story
import Prompter.Proofs.Session.Awaited
import Prompter.Proofs.Session.Ballot

/-!
# Prompter.Proofs.Session.Play

A play: a script, and all that decides how it is told to the views of a dialogue.

The views may take their time. Whenever they get to it, they complete their tokens, one of them
answers the options, and the commands that pause resume (`Dutiful`), until nothing is outstanding
(`Discharged`). `Play.step` reads the script as the engine does, up to options of which none can be
chosen; `Play.asks` says what an event has the views asked to do.
-/

namespace Prompter

/-- What a view is asked to do with a line. -/
abbrev Ask := LineBroadcast × LocalizedLine

namespace LineBroadcast

/-- The status of a line in a broadcast. -/
def status : LineBroadcast → LineStatus
  | showing => .running
  | removing => .ended

/-- What a view is asked to do in a broadcast of a line. -/
def ask (l : LocalizedLine) (b : LineBroadcast) : Ask := (b, { l with status := b.status })

/-- The broadcasts of a line that follow one. -/
def following : LineBroadcast → List LineBroadcast
  | showing => [removing]
  | removing => []

end LineBroadcast

/-- What every view is asked to do with a line: show it, and take it away. -/
def LocalizedLine.scene (l : LocalizedLine) : List Ask :=
  [LineBroadcast.showing, .removing].map (·.ask l)

/-- A script, where it starts and in which world, and how its events are presented and answered. -/
structure Play where
  script : Script
  node : String
  world : World
  /-- The variables at the start. -/
  storage : Variables
  /-- The views, as slots that are present or empty. -/
  slots : List Bool
  strings : StringTable
  /-- Whether a chosen option is presented as a line. -/
  echo : Bool
  /-- The choice of a view, by the options that it is offered. -/
  pick : List LocalizedOption → OptionId

namespace Play

variable (p : Play)

def views : List Nat := presentFrom 0 p.slots

/-- Options as they are offered to the views. -/
def localized (options : List DialogueOption) : List LocalizedOption :=
  options.map fun o => ⟨o.id, p.strings.localize o.line, o.available⟩

/-- The option that is chosen among those that are offered, if the choice can be made. -/
def choice? (options : List LocalizedOption) : Option LocalizedOption :=
  (options.find? (·.id = p.pick options)).filter (·.available)

/-- The option that is chosen after what has been told. -/
def chosen? (told : List Event) : Option LocalizedOption :=
  match told.getLast? with
  | some (.options set) => p.choice? (p.localized set.options)
  | _ => none

/-- The story that is told. -/
def story : Story := ⟨p.script, p.world, fun told => ((p.chosen? told).map (·.id)).getD 0⟩

/-- Whether the story waits for a choice that cannot be made. -/
def isStuck (t : Tale) : Bool :=
  match t.spot with
  | .choosing _ _ _ => (p.chosen? t.told).isNone
  | _ => false

/-- Goes on with the story if it goes on. -/
def step (t : Tale) : Tale := if p.isStuck t then t else p.story.step t

/-- Whether the dialogue can start. -/
def opens : Bool := !p.views.isEmpty && p.script.nodes.contains p.node

/-- The story before anything has been told. -/
def opening : Tale := ⟨[], p.storage, if p.opens then .entrance p.node else .ended⟩

/-- The engine at the start of the story. -/
def engine : Engine :=
  { script := p.script, node := some p.node, bound := true, listener := some .dialogue }

/-- How far the story can have come. -/
def Reaches (t : Tale) : Prop := ∃ n, t = p.step^[n] p.opening

/-- What every view is asked to do because of an event. -/
def asks : Event → List Ask
  | .line l => (p.strings.localize l).scene
  | .options set =>
    if p.echo then ((p.choice? (p.localized set.options)).map (·.line.scene)).getD [] else []
  | _ => []

variable {p} {t t' : Tale}

theorem Reaches.step (reached : p.Reaches t) : p.Reaches (p.step t) := by
  obtain ⟨n, rfl⟩ := reached
  exact ⟨n + 1, (Function.iterate_succ_apply' p.step n p.opening).symm⟩

/-- There is one end of a story. -/
theorem Reaches.eq_of_end (reached : p.Reaches t) (reached' : p.Reaches t') (ends : p.step t = t)
    (ends' : p.step t' = t') : t = t' := by
  have later {m n : Nat} (le : m ≤ n)
      (ends : p.step (p.step^[m] p.opening) = p.step^[m] p.opening) :
      p.step^[n] p.opening = p.step^[m] p.opening := by
    obtain ⟨k, rfl⟩ := Nat.exists_eq_add_of_le le
    rw [Nat.add_comm, Function.iterate_add_apply, Function.iterate_fixed ends]
  obtain ⟨m, rfl⟩ := reached
  obtain ⟨n, rfl⟩ := reached'
  rcases Nat.le_total m n with le | le
  · exact (later le ends).symm
  · exact later le ends'

theorem step_of_ended (ended : t.spot = .ended) : p.step t = t := by
  have unstuck : p.isStuck t = false := by simp [isStuck, ended]
  rw [step, unstuck, if_neg (by decide), Story.step, ended]

/-- Where options wait of which none can be chosen, the story goes on no more. -/
theorem step_of_unchosen {e : Engine} {vs : Variables} {told : List Event}
    (waiting : e.choices.isSome = true) (unchosen : p.chosen? told = none) :
    p.step ⟨told, vs, e.spot⟩ = ⟨told, vs, e.spot⟩ := by
  obtain ⟨destinations, waiting⟩ := Option.isSome_iff_exists.1 waiting
  cases inside : e.node with
  | none => exact step_of_ended (by rw [Engine.spot, inside])
  | some node =>
    have stuck : p.isStuck ⟨told, vs, e.spot⟩ = true := by
      rw [Engine.spot_choosing inside waiting, isStuck, unchosen]
      rfl
    rw [step, stuck, if_pos rfl]

end Play

namespace Session

/-! ### The host -/

/-- The host starts the dialogue, once. After that its views complete their tokens and choose among
the options that they have been offered, and its commands resume. -/
def Dutiful (p : Play) (s : Session) (h : History) : Call → Prop
  | .start n => h = [] ∧ s.agenda = [] ∧ n.or s.dialogue.settings.startNode = some p.node
  | .complete t => ∃ b serial, Told b serial t h
  | .select serial id => ∃ v options,
    .did (.tell (.view v (.offerOptions options serial))) ∈ h ∧ id = p.pick options
  | .resume k | .resumeWhenDone k => Began k h
  | _ => False

/-- The functions answer as they do in a world. -/
def Computes (w : World) (s₀ : Session) (h : History) : Prop :=
  ∀ newer older v key args, h = newer ++ .answer (.value v) :: older →
    (after s₀ older).agenda.head? = some (.invoke key args .engine) → v = w.answer key args

/-- A session is ready to give a play. -/
structure IsSet (p : Play) (s : Session) : Prop extends IsFresh s where
  engine : s.engine = .script { script := p.script, listener := some .dialogue }
  held : s.held = true
  storage : s.storage = some p.storage
  functions : s.functions = p.world.functions
  slots : s.dialogue.slots = p.slots
  strings : s.dialogue.strings = p.strings
  advances : s.dialogue.settings.autoAdvance = true
  echoes : s.dialogue.settings.echoChoice = p.echo

/-- Nothing is outstanding: the dialogue was started, every token has been completed, every offer
answered and every command resumed, and nothing is left to do. -/
structure Discharged (s : Session) (h : History) : Prop where
  done : s.agenda = []
  started : ∃ n, .call (.start n) ∈ h
  completed : ∀ b serial t, Told b serial t h → .call (.complete t) ∈ h
  selected : ∀ v options serial, .did (.tell (.view v (.offerOptions options serial))) ∈ h →
    ∃ id, .call (.select serial id) ∈ h
  resumed : ∀ k, Began k h → ∃ m ∈ h, isResume s.runsTasks k m = true

/-- The token that a mark gives to its view. -/
def Mark.token? : Mark → Option Token
  | .did (.tell (.view v (.showLine _ _ t))) | .did (.tell (.view v (.removeLine _ _ t))) =>
    if v = t.slot then some t else none
  | _ => none

/-- The offer that a mark puts to a view. -/
def Mark.offer? : Mark → Option Nat
  | .did (.tell (.view _ (.offerOptions _ serial))) => some serial
  | _ => none

/-- The handle that a mark gives to the host. -/
def Mark.handle? : Mark → Option Nat
  | .did (.tell n) => n.handle?
  | _ => none

/-- Whether a mark is that of the dialogue being started. -/
def Mark.starts : Mark → Bool
  | .call (.start _) => true
  | _ => false

/-- Whether a mark is that of a token being completed. -/
def Mark.completes (t : Token) : Mark → Bool
  | .call (.complete t') => t' = t
  | _ => false

/-- Whether a mark is that of an offer being answered. -/
def Mark.selects (serial : Nat) : Mark → Bool
  | .call (.select serial' _) => serial' = serial
  | _ => false

/-- What a mark has a view asked to do. -/
def Mark.ask? (v : Nat) : Mark → Option Ask
  | .did (.tell (.view w (.showLine _ l _))) => if w = v then some (.showing, l) else none
  | .did (.tell (.view w (.removeLine _ l _))) => if w = v then some (.removing, l) else none
  | _ => none

/-- What a view has been asked to do, in its order. -/
def asked (v : Nat) : History → List Ask
  | [] => []
  | m :: h => asked v h ++ (m.ask? v).toList

variable {p : Play} {s₀ s s' : Session} {h : History} {m : Mark} {c : Call}

theorem mem_filterMap_token? {t : Token} :
    t ∈ h.filterMap Mark.token? ↔ ∃ b serial, Told b serial t h := by
  rw [List.mem_filterMap]
  constructor
  · rintro ⟨m, hm, given⟩
    unfold Mark.token? at given
    split at given
    · next v serial line t' =>
      split at given <;> cases given
      subst v
      exact ⟨.showing, serial, line, hm⟩
    · next v serial line t' =>
      split at given <;> cases given
      subst v
      exact ⟨.removing, serial, line, hm⟩
    · cases given
  · rintro ⟨b, serial, line, hm⟩
    refine ⟨_, hm, ?_⟩
    cases b <;> simp [Mark.token?, LineBroadcast.notice]

theorem mem_filterMap_offer? {serial : Nat} : serial ∈ h.filterMap Mark.offer? ↔
    ∃ v options, .did (.tell (.view v (.offerOptions options serial))) ∈ h := by
  rw [List.mem_filterMap]
  constructor
  · rintro ⟨m, hm, put⟩
    unfold Mark.offer? at put
    split at put <;> cases put
    exact ⟨_, _, hm⟩
  · rintro ⟨v, options, hm⟩
    exact ⟨_, hm, rfl⟩

theorem mem_filterMap_handle? {k : Nat} : k ∈ h.filterMap Mark.handle? ↔ Began k h := by
  rw [List.mem_filterMap]
  constructor
  · rintro ⟨m, hm, given⟩
    unfold Mark.handle? at given
    split at given
    · exact ⟨_, given, hm⟩
    · cases given
  · rintro ⟨n, given, hm⟩
    exact ⟨_, hm, given⟩

theorem any_starts : h.any Mark.starts = true ↔ ∃ n, .call (.start n) ∈ h := by
  rw [List.any_eq_true]
  constructor
  · rintro ⟨m, hm, starts⟩
    unfold Mark.starts at starts
    split at starts
    · exact ⟨_, hm⟩
    · cases starts
  · rintro ⟨n, hm⟩
    exact ⟨_, hm, rfl⟩

theorem any_completes {t : Token} : h.any (Mark.completes t) = true ↔ .call (.complete t) ∈ h := by
  rw [List.any_eq_true]
  constructor
  · rintro ⟨m, hm, done⟩
    unfold Mark.completes at done
    split at done
    · exact of_decide_eq_true done ▸ hm
    · cases done
  · intro hm
    exact ⟨_, hm, decide_eq_true rfl⟩

theorem any_selects {serial : Nat} :
    h.any (Mark.selects serial) = true ↔ ∃ id, .call (.select serial id) ∈ h := by
  rw [List.any_eq_true]
  constructor
  · rintro ⟨m, hm, answers⟩
    unfold Mark.selects at answers
    split at answers
    · exact ⟨_, of_decide_eq_true answers ▸ hm⟩
    · cases answers
  · rintro ⟨id, hm⟩
    exact ⟨_, hm, decide_eq_true rfl⟩

/-- Whether nothing is outstanding can be computed from what has happened. -/
def isDischarged (s : Session) (h : History) : Bool :=
  s.agenda.isEmpty && h.any Mark.starts &&
    (h.filterMap Mark.token?).all (fun t => h.any (Mark.completes t)) &&
    (h.filterMap Mark.offer?).all (fun serial => h.any (Mark.selects serial)) &&
    (h.filterMap Mark.handle?).all fun k => h.any (isResume s.runsTasks k)

theorem isDischarged_iff : s.isDischarged h = true ↔ Discharged s h := by
  simp only [isDischarged, Bool.and_eq_true, List.isEmpty_iff, any_starts, List.all_eq_true,
    any_completes, any_selects, mem_filterMap_token?, mem_filterMap_offer?, mem_filterMap_handle?,
    List.any_eq_true (p := isResume _ _)]
  constructor
  · rintro ⟨⟨⟨⟨done, started⟩, completed⟩, selected⟩, resumed⟩
    exact ⟨done, started, fun b serial t told => completed t ⟨b, serial, told⟩,
      fun v options serial told => selected serial ⟨v, options, told⟩, resumed⟩
  · rintro ⟨done, started, completed, selected, resumed⟩
    exact ⟨⟨⟨⟨done, started⟩, fun t ⟨b, serial, told⟩ => completed b serial t told⟩,
      fun serial ⟨v, options, told⟩ => selected v options serial told⟩, resumed⟩

instance (s : Session) (h : History) : Decidable (Discharged s h) :=
  decidable_of_iff _ isDischarged_iff

theorem Dutiful.single (ok : Dutiful p s h c) : Single s h c := by
  cases c with
  | start n =>
    obtain ⟨rfl, idle, -⟩ := ok
    exact ⟨rfl, nofun, idle, nofun⟩
  | complete t =>
    refine ⟨rfl, ?_, trivial⟩
    rintro _ ⟨⟩
    exact ok
  | select | resume | resumeWhenDone => exact ⟨rfl, nofun, trivial⟩
  | _ => exact ok.elim

theorem Dutiful.considerate (ok : Dutiful p s h c) : Considerate s h c := by
  obtain ⟨left, -, fits⟩ := ok.single
  refine ⟨left, ?_⟩
  cases c with
  | start => exact fits.1
  | _ => exact fits

theorem IsSet.isAttached (set : IsSet p s) : s.IsAttached :=
  { toIsFresh := set.toIsFresh, engine := ⟨p.script, set.engine⟩, held := set.held }

/-- The dialogue starts, or cannot. -/
theorem IsSet.start {n : Option String} (set : IsSet p s) (ok : Dutiful p s h (.start n)) :
    (s.call (.start n)).1 = if p.opens then { s with
      engine := .script p.engine
      dialogue.running := true
      agenda := s.tellViews .opened ++ [.continueEngine .start, .lease, .reply .done] } else s := by
  obtain ⟨-, idle, named⟩ := ok
  have running : s.dialogue.running = false := by rw [set.dialogue]
  have views : s.dialogue.views = p.views := congrArg (presentFrom 0) set.slots
  have known : s.hasNode p.node = p.script.nodes.contains p.node := by
    rw [hasNode, set.engine]
    rfl
  cases opens : p.opens with
  | true =>
    obtain ⟨watched, contained⟩ := Bool.and_eq_true_iff.1 opens
    have can : s.dialogue.startError? s.storage.isSome (s.hasNode p.node) p.node = none := by
      rw [Bool.not_eq_true'] at watched
      simp [Dialogue.startError?, views, watched, set.storage, running, known, contained]
    rw [s.call_start_eq set.engine named can, idle, List.append_nil, if_pos rfl]
    rfl
  | false =>
    obtain ⟨err, refused⟩ : ∃ err, s.dialogue.startError? s.storage.isSome (s.hasNode p.node)
        p.node = some err := by
      rw [Dialogue.startError?, views, set.storage, running, known]
      cases empty : p.views.isEmpty with
      | true => exact ⟨_, rfl⟩
      | false =>
        have unknown : p.script.nodes.contains p.node = false := by
          simpa [Play.opens, empty] using opens
        rw [unknown]
        exact ⟨_, rfl⟩
    simp only [call, Session.start, named, startAt, refused]
    rw [if_neg (by decide)]
    rfl

theorem Computes.tail {w : World} (computes : Computes w s₀ (m :: h)) : Computes w s₀ h :=
  fun newer older v key args same => computes (m :: newer) older v key args
    (congrArg (m :: ·) same)

/-- Whether a value is the one that a world has for a call. -/
def grants (w : World) (v : Value) : Item → Bool
  | .invoke key args .engine => v = w.answer key args
  | _ => true

/-- Whether a mark is no other answer to a function of the engine's than that of a world. -/
def Mark.fits (w : World) (s : Session) : Mark → Bool
  | .answer (.value v) => s.agenda.head?.all (grants w v)
  | _ => true

theorem Mark.fits_value {w : World} {v : Value} : (Mark.answer (.value v)).fits w s = true ↔
    ∀ key args, s.agenda.head? = some (.invoke key args .engine) → v = w.answer key args := by
  rw [fits, Option.all_eq_true]
  constructor
  · intro grants key args top
    exact of_decide_eq_true (grants _ top)
  · intro same i top
    unfold grants
    split
    · exact decide_eq_true (same _ _ top)
    · rfl

theorem computes_cons {w : World} :
    Computes w s₀ (m :: h) ↔ m.fits w (after s₀ h) = true ∧ Computes w s₀ h := by
  constructor
  · intro computes
    refine ⟨?_, computes.tail⟩
    unfold Mark.fits
    split
    · next v =>
      exact Mark.fits_value.2 fun key args => computes [] h v key args rfl
    · rfl
  · rintro ⟨fits, computes⟩ newer older v key args parts
    cases newer with
    | nil =>
      cases parts
      exact Mark.fits_value.1 fits key args
    | cons => exact computes _ older v key args (List.cons.inj parts).2

/-- Whether the functions answer as they do in a world can be computed. -/
instance decidableComputes (w : World) (s₀ : Session) : (h : History) → Decidable (Computes w s₀ h)
  | [] => .isTrue fun newer older v key args none => by simp at none
  | _ :: h =>
    have := decidableComputes w s₀ h
    decidable_of_iff' _ computes_cons

end Session

end Prompter

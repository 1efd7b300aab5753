import Prompter.Proofs.Engine.Prospect
import Prompter.Proofs.Session.Drive

/-!
# Prompter.Proofs.Session.Finality

What the engine of a session reports after it has been stopped, or put at a node.

The host may make any request, whenever it has the word, and any listener may be attached. All that
can happen to the engine is then a sequence of acts, stops and placements, and what is in prospect
for it (`Engine.Prospect`) decides what the next report is (`run_final`). So a stop is final, and a
placement decides the next report, exactly where nothing is in prospect already: neither while the
end of a node is reported, nor inside a function that is called for a line or for options.
-/

namespace Prompter.Session

open Engine (Act Outcome Prospect)

/-! ### What has been reported -/

/-- The event that the engine reports when something happens. It takes its turn when the turn is off
the agenda. -/
def reported? (s : Session) : Mark → Option Event
  | .did .turn =>
    match s.engine with
    | .script e => (e.turn ({ s with agenda := s.agenda.tail }.surroundings e)).2.1.event?
    | _ => none
  | _ => none

/-- What the engine has reported, the newest first. -/
def events (s₀ : Session) : History → List Event
  | [] => []
  | m :: h => ((after s₀ h).reported? m).toList ++ events s₀ h

/-! ### Stops and placements -/

/-- Whether a request stops the engine. -/
def stops (s : Session) : Call → Bool
  | .stopEngine => true
  | .stop => s.dialogue.running
  | _ => false

/-- The node whose start a request puts the engine at, if it does. -/
def places? (s : Session) : Call → Option String
  | .place node => if s.hasNode node then some node else none
  | .start node? =>
    (node?.or s.dialogue.settings.startNode).filter fun node =>
      (s.dialogue.startError? s.storage.isSome (s.hasNode node) node).isNone
  | _ => none

/-- The host does not put the engine at a node. -/
def Unplaced (s : Session) (_ : History) (c : Call) : Prop := s.places? c = none

/-- The host neither stops the engine nor puts it at a node. -/
def Unmoved (s : Session) (_ : History) (c : Call) : Prop :=
  s.places? c = none ∧ s.stops c = false

variable {allowed : Session → History → Call → Prop} {s₀ s s' : Session} {h : History}

/-! ### What happens to the engine -/

/-- Something that happens to a session is an act of its engine. -/
def Acts (s s' : Session) (x : Option Event) : Prop :=
  ∀ e, s.engine = .script e → ∃ e', s'.engine = .script e' ∧ Act e e' x

theorem Acts.of_engine (same : s'.engine = s.engine) : Acts s s' none :=
  fun e he => ⟨e, same.trans he, .refl e⟩

theorem Acts.of_script {e e' : Engine} {x : Option Event} (seat : s.engine = .script e)
    (same : s'.engine = .script e') (act : Act e e' x) : Acts s s' x := by
  intro e₁ he
  cases seat.symm.trans he
  exact ⟨e', same, act⟩

section

variable {p : Progress}

theorem Chooses.acts {id : OptionId} (chooses : Chooses s id p) : Acts s p.1 none := by
  cases chooses with
  | nobody | host => exact .of_engine rfl
  | script seat => exact .of_script seat rfl (.choose id)

theorem Concludes.acts {r : Reporter} {x : NextAction} (concludes : Concludes s r x p) :
    Acts s p.1 none := by
  cases concludes with
  | host | nobody => exact .of_engine rfl
  | engine seat => exact .of_script seat rfl (.hear x)

/-- Whatever comes of an item other than a turn is an act of the engine. -/
theorem Works.acts {i : Item} (works : Works s i p) (unturned : i ≠ .turn) : Acts s p.1 none := by
  cases works with
  | turn => exact absurd rfl unturned
  | continueScript c seat => exact .of_script seat rfl .continue_
  | chooseOption n chooses => exact chooses.acts
  | conclude concludes | outcomeOf k concludes => exact concludes.acts
  | command dispatches => exact .of_engine dispatches.leads.engine
  | resumeWhenDone spawns => exact .of_engine spawns.apart.engine
  | _ => exact .of_engine rfl

theorem turn_acts (s : Session) (i : Item) (rest : List Item) (top : s.agenda = i :: rest) :
    Acts s { s with agenda := rest }.turn.1 (s.reported? (.did .turn)) := by
  intro e he
  obtain ⟨storage, shape⟩ := turn_shape (s := { s with agenda := rest }) he
  refine ⟨_, congrArg Session.engine shape, ?_⟩
  simp only [reported?, he, top]
  exact .turn _

theorem reported?_eq_none {i : Item} (other : i ≠ .turn) : s.reported? (.did i) = none := by
  cases i with
  | turn => exact absurd rfl other
  | _ => rfl

/-- Whatever item a session does is an act of its engine. -/
theorem step_acts (s : Session) (busy : s.awaitsHost = false) {i : Item} {rest : List Item}
    (top : s.agenda = i :: rest) : Acts s s.step.1 (s.reported? (.did i)) := by
  rw [step_eq_work busy top]
  by_cases turned : i = .turn
  · subst turned
    exact s.turn_acts _ rest top
  · rw [reported?_eq_none turned]
    exact (work_works { s with agenda := rest } i).acts turned

/-- Whatever the host answers is an act of the engine. -/
theorem answer_acts (s : Session) (x : Answer) : Acts s (s.answer x).1 none := by
  unfold answer
  split
  · exact .of_engine rfl
  · next rest x _ => exact (conclude_concludes { s with agenda := rest } .engine x).acts
  · next rest v _ =>
    intro e he
    refine ⟨e.receive v, ?_, .receive v⟩
    simp only [mapEngine, he]
  · exact .of_engine rfl
  · exact .of_engine rfl

/-- A request that neither stops the engine nor puts it at a node is an act of it. -/
theorem Requests.acts {c : Call} (requests : Requests s c p) (unplaced : s.places? c = none)
    (unstopped : s.stops c = false) : Acts s p.1 none := by
  cases requests with
  | start named can => simp [places?, named, can] at unplaced
  | stopEmpty running | stopScript running | stopHost running =>
    cases unstopped.symm.trans running
  | @place node e _ seat placed =>
    have unknown : e.hasNode node = false := by simpa [places?, hasNode, seat] using unplaced
    cases unknown.symm.trans (Engine.place_eq_ok.1 placed).1
  | stopEngine => cases unstopped
  | bind seat => exact .of_script seat rfl (.equip true _)
  | attach l seat => exact .of_script seat rfl (.equip _ (some l))
  | detach seat => exact .of_script seat rfl (.equip _ none)
  | chooseOption chooses =>
    exact Chooses.acts (s := s.push [.reply .done]) chooses
  | resume unpauses => exact .of_engine unpauses.apart.engine
  | resumeWhenDone spawns => exact .of_engine spawns.apart.engine
  | dispatch dispatches => exact .of_engine dispatches.leads.engine
  | _ => exact .of_engine rfl

theorem call_acts {c : Call} (unplaced : s.places? c = none) (unstopped : s.stops c = false) :
    Acts s (s.call c).1 none :=
  (call_requests s c).acts unplaced unstopped

theorem call_stops {c : Call} {e : Engine} (he : s.engine = .script e) (stops : s.stops c = true) :
    (s.call c).1.engine = .script e.stop.1 := by
  cases c with
  | stop => simp [call, stop, show s.dialogue.running = true from stops, he]
  | stopEngine => simp [call, stopEngine, he]
  | _ => cases stops

theorem call_places {c : Call} {e : Engine} {node : String} (he : s.engine = .script e)
    (places : s.places? c = some node) :
    ∃ e' bound, (s.call c).1.engine = .script e' ∧
      { e with bound := bound }.place node = .ok e' := by
  have placed (known : e.hasNode node = true) (bound : Bool) :
      { e with bound := bound }.place node =
        .ok ({ e with bound := bound, choices := none, selected := none }.enter node) :=
    Engine.place_eq_ok.2 ⟨known, rfl⟩
  cases c with
  | place node' =>
    obtain ⟨known, rfl⟩ : s.hasNode node' = true ∧ node' = node := by simpa [places?] using places
    rw [hasNode, he] at known
    refine ⟨_, e.bound, ?_, placed known e.bound⟩
    simp only [call, place, he, placed known e.bound]
  | start node? =>
    obtain ⟨named, free⟩ := Option.filter_eq_some_iff.1 places
    rw [Option.isNone_iff_eq_none] at free
    have known : s.hasNode node = true := (Dialogue.startError?_eq_none.1 free).2.2.2
    rw [hasNode, he] at known
    refine ⟨_, true, ?_, placed known true⟩
    rw [s.call_start_eq he named free]
  | _ => cases places

end

/-! ### Every run -/

/-- All that happens to an engine in a run are acts, stops and placements. -/
theorem Run.engine_events {motive : Engine → List Event → Prop} {e₀ : Engine}
    (act : ∀ {e e' x events}, Act e e' x → motive e events → motive e' (x.toList ++ events))
    (stop : ∀ {s h c e events}, allowed s h c → s.stops c = true → motive e events →
      motive e.stop.1 events)
    (place : ∀ {s h c e e' bound node events}, allowed s h c → s.places? c = some node →
      { e with bound := bound }.place node = .ok e' → motive e events → motive e' events)
    (he₀ : s₀.engine = .script e₀) (start : motive e₀ []) (r : Run allowed s₀ s h) :
    ∃ e, s.engine = .script e ∧ motive e (events s₀ h) := by
  induction r with
  | refl => exact ⟨e₀, he₀, start⟩
  | @work s h r busy i rest top ih =>
    obtain ⟨e, he, known⟩ := ih
    obtain ⟨e', he', does⟩ := step_acts s busy top e he
    refine ⟨e', he', ?_⟩
    rw [events, r.after_eq]
    exact act does known
  | @answer s h r x fits ih =>
    obtain ⟨e, he, known⟩ := ih
    obtain ⟨e', he', does⟩ := answer_acts s x e he
    exact ⟨e', he', act does known⟩
  | @call s h r word c ok ih =>
    obtain ⟨e, he, known⟩ := ih
    cases stopped : s.stops c with
    | true => exact ⟨e.stop.1, call_stops he stopped, stop ok stopped known⟩
    | false =>
      cases placed : s.places? c with
      | none =>
        obtain ⟨e', he', does⟩ := call_acts placed stopped e he
        exact ⟨e', he', act does known⟩
      | some node =>
        obtain ⟨e', bound, he', there⟩ := call_places he placed
        exact ⟨e', he', place ok placed there known⟩

/-- Over a script engine that nobody has run yet, it is always known who hears about a step. -/
theorem Run.attentive {e₀ : Engine} (he : s₀.engine = .script e₀) (a : e₀.Attentive)
    (r : Run allowed s₀ s h) : ∃ e, s.engine = .script e ∧ e.Attentive := by
  refine r.engine_events (motive := fun e _ => e.Attentive) (fun does a => does.attentive a)
    (fun _ _ a => a) (fun _ _ placed a => ?_) he a
  rw [(Engine.place_eq_ok.1 placed).2]
  exact a

/-- In a run in which the engine is put at no node, everything that happens to it comes to one of
the outcomes, or is a stop. -/
theorem Run.outcomes {motive : Engine → List Event → Prop} {e₀ : Engine}
    (unplaced : ∀ {s h c}, allowed s h c → s.places? c = none)
    (act : ∀ {e e' x events}, Outcome e e' x → motive e events → motive e' (x.toList ++ events))
    (stop : ∀ {s h c e events}, allowed s h c → s.stops c = true → motive e events →
      motive e.stop.1 events)
    (he₀ : s₀.engine = .script e₀) (a₀ : e₀.Attentive) (start : motive e₀ [])
    (r : Run allowed s₀ s h) : ∃ e, s.engine = .script e ∧ motive e (events s₀ h) := by
  obtain ⟨e, he, -, known⟩ := r.engine_events
    (motive := fun e events => e.Attentive ∧ motive e events)
    (fun does ⟨a, known⟩ => ⟨does.attentive a, act (does.outcome a) known⟩)
    (fun ok stopped ⟨a, known⟩ => ⟨a, stop ok stopped known⟩)
    (fun ok placed => nomatch (unplaced ok).symm.trans placed) he₀ ⟨a₀, start⟩
  exact ⟨e, he, known⟩

/-- What was in prospect is the first thing that is reported, and in prospect until then. -/
def Awaits (p : Prospect) (e : Engine) (events : List Event) : Prop :=
  events = [] ∧ e.Faces p ∨ ∃ event, events.getLast? = some event ∧ p.Fits event

theorem Awaits.act {p : Prospect} {e e' : Engine} {x : Option Event} {events : List Event}
    (o : Outcome e e' x) (w : Awaits p e events) : Awaits p e' (x.toList ++ events) := by
  rcases w with ⟨rfl, faces⟩ | ⟨event, last, fits⟩
  · rcases o.faces faces with ⟨rfl, faces⟩ | ⟨event, rfl, fits⟩
    · exact .inl ⟨rfl, faces⟩
    · exact .inr ⟨event, rfl, fits⟩
  · right
    refine ⟨event, ?_, fits⟩
    rw [List.getLast?_append, last]
    rfl

theorem Awaits.first {p : Prospect} {e : Engine} {events : List Event} (w : Awaits p e events) :
    ∀ event ∈ events.getLast?, p.Fits event := by
  intro event last
  rcases w with ⟨rfl, -⟩ | ⟨event', last', fits⟩
  · cases last
  · obtain rfl : event' = event := by simpa [last'] using last
    exact fits

/-- A stop takes back the start of a node that the engine has been put at, and nothing else. -/
theorem Awaits.stop {p : Prospect} {e : Engine} {events : List Event} (w : Awaits p e events) :
    Awaits p e.stop.1 events ∨ Awaits .nothing e.stop.1 events := by
  rcases w with ⟨rfl, faces⟩ | told
  · cases p with
    | nothing => exact .inl (.inl ⟨rfl, faces.1, rfl⟩)
    | nodeStart node =>
      rcases faces.2 with going | ⟨none, -⟩
      · exact .inl (.inl ⟨rfl, rfl, .inl going⟩)
      · exact .inr (.inl ⟨rfl, none, rfl⟩)
    | line | options | dialogueEnd => exact .inl (.inl ⟨rfl, faces⟩)
  · exact .inl (.inr told)

/-- The engine is in no node, and has reported nothing but what was in prospect. -/
def Leaves (p : Prospect) (e : Engine) (events : List Event) : Prop :=
  e.node = none ∧ (events = [] ∧ e.phase.prospect = p ∨
    ∃ event, events = [event] ∧ p.Fits event ∧ e.phase.prospect = .nothing)

theorem Leaves.act {p : Prospect} (stays : ∀ node, p ≠ .nodeStart node) {e e' : Engine}
    {x : Option Event} {events : List Event} (o : Outcome e e' x) (l : Leaves p e events) :
    Leaves p e' (x.toList ++ events) := by
  obtain ⟨out, ⟨rfl, same⟩ | ⟨event, rfl, fits, none⟩⟩ := l
  · subst same
    obtain ⟨out, ⟨rfl, same⟩ | ⟨event, rfl, fits, none⟩⟩ := o.outside out stays
    · exact ⟨out, .inl ⟨rfl, same⟩⟩
    · exact ⟨out, .inr ⟨event, rfl, fits, none⟩⟩
  · obtain ⟨out, ⟨rfl, same⟩ | ⟨event', -, impossible, -⟩⟩ :=
      o.outside out (by simp [none])
    · exact ⟨out, .inr ⟨event, rfl, fits, same.trans none⟩⟩
    · rw [none] at impossible
      exact impossible.elim

/-- What is reported after a stop, up to a placement, when `p` was in prospect at the stop. -/
structure FollowsStop (p : Prospect) (e : Engine) (events : List Event) : Prop where
  /-- What is reported first was in prospect; so nothing is, if nothing was. -/
  first : ∀ event ∈ events.getLast?, p.Fits event
  /-- It is all that is reported, unless the engine was going to another node. -/
  only : (∀ node, p ≠ .nodeStart node) → events.length ≤ 1
  /-- It has been reported when the run is over. -/
  reported : (∀ node, p ≠ .nodeStart node) → e.isRunning = false → events = [] → p = .nothing

/-- What is reported after a placement, up to a stop or another placement, when `p` was in prospect
after it. -/
structure FollowsPlacement (p : Prospect) (e : Engine) (events : List Event) : Prop where
  /-- What is reported first was in prospect. -/
  first : ∀ event ∈ events.getLast?, p.Fits event
  /-- It has been reported when the run is over, unless the engine is at the start of its node. -/
  reported : e.isRunning = false → events = [] →
    ∃ node, p = .nodeStart node ∧ e.node = some node ∧ e.nodeStarted = false

theorem prospect_of_idle {e : Engine} (idle : e.isRunning = false) :
    e.phase.prospect = .nothing := by
  unfold Engine.isRunning at idle
  split at idle
  · next phase => rw [phase]; rfl
  · cases idle

/-- How final stops and placements of the engine of a session are. -/
structure Final (s : Session) (e : Engine) : Prop where
  /-- A stop leaves what is in prospect, and nothing else. -/
  stopped : ∀ c, s.stops c = true → ∀ s' h, Run Unplaced (s.call c).1 s' h →
    ∃ e', s'.engine = .script e' ∧ FollowsStop e.phase.prospect e' (events (s.call c).1 h)
  /-- A placement puts the start of the node in prospect, where nothing else is. -/
  placed : ∀ c node, s.places? c = some node → ∀ s' h, Run Unmoved (s.call c).1 s' h →
    ∃ e', s'.engine = .script e' ∧
      FollowsPlacement (e.phase.prospect.orStart node) e' (events (s.call c).1 h)

theorem follows_stop {p : Prospect} {e₁ : Engine} (he : s₀.engine = .script e₁)
    (a : e₁.Attentive) (out : e₁.node = none) (same : e₁.phase.prospect = p) (faces : e₁.Faces p)
    (r : Run Unplaced s₀ s h) :
    ∃ e, s.engine = .script e ∧ FollowsStop p e (events s₀ h) := by
  by_cases stays : ∀ node, p ≠ .nodeStart node
  · -- the engine has left the script for good
    obtain ⟨e, he, -, way⟩ := r.outcomes (motive := Leaves p) (fun ok => ok) (.act stays)
      (fun _ _ known => ⟨rfl, known.2⟩) he a ⟨out, .inl ⟨rfl, same⟩⟩
    refine ⟨e, he, ?_⟩
    rcases way with ⟨none, same⟩ | ⟨event, only, fits, -⟩
    · rw [none]
      refine ⟨by simp, fun _ => Nat.zero_le 1, fun _ idle _ => ?_⟩
      rw [← same, prospect_of_idle idle]
    · rw [only]
      exact ⟨by simpa using fits, fun _ => Nat.le_refl 1, fun _ _ none => by cases none⟩
  · -- it goes to another node, unless it is stopped again there before the start is reported
    have stop {e : Engine} {events : List Event} :
        Awaits p e events ∨ Awaits .nothing e events →
          Awaits p e.stop.1 events ∨ Awaits .nothing e.stop.1 events := by
      rintro (known | known)
      · exact known.stop
      · exact .inr (known.stop.elim id id)
    obtain ⟨e, he, known⟩ := r.outcomes
      (motive := fun e events => Awaits p e events ∨ Awaits .nothing e events) (fun ok => ok)
      (fun o known => known.imp (.act o) (.act o)) (fun _ _ known => stop known) he a
      (.inl (.inl ⟨rfl, faces⟩))
    refine ⟨e, he, ?_, fun leaves => absurd leaves stays, fun leaves => absurd leaves stays⟩
    rcases known with known | known
    · exact known.first
    · exact fun event last => (known.first event last).elim

theorem follows_placement {p : Prospect} {e₁ : Engine} (he : s₀.engine = .script e₁)
    (a : e₁.Attentive) (given : p ≠ .nothing) (faces : e₁.Faces p) (r : Run Unmoved s₀ s h) :
    ∃ e, s.engine = .script e ∧ FollowsPlacement p e (events s₀ h) := by
  obtain ⟨e, he, known⟩ := r.outcomes (motive := Awaits p) (fun ok => ok.1) .act
    (fun ok stops _ => by rw [ok.2] at stops; cases stops) he a (.inl ⟨rfl, faces⟩)
  refine ⟨e, he, known.first, fun idle none => ?_⟩
  rcases known with ⟨-, faces⟩ | ⟨event, last, -⟩
  · cases p with
    | nothing => exact absurd rfl given
    | nodeStart node =>
      obtain ⟨-, going | ⟨-, there⟩⟩ := faces
      · rw [prospect_of_idle idle] at going
        cases going
      · exact ⟨node, rfl, there⟩
    | line | options | dialogueEnd =>
      exact absurd ((prospect_of_idle idle).symm.trans faces) (by simp)
  · rw [none] at last
    cases last

/-- Whatever the host requests, and whoever listens, stops and placements of the engine are final as
far as nothing is in prospect. -/
theorem run_final {e₀ : Engine} (he : s₀.engine = .script e₀) (idle : e₀.phase = .idle)
    (r : Run allowed s₀ s h) : ∃ e, s.engine = .script e ∧ Final s e := by
  obtain ⟨e, he, a⟩ := r.attentive he (Engine.attentive_of_idle idle)
  refine ⟨e, he, fun c stopped s' h' r' => ?_, fun c node placed s' h' r' => ?_⟩
  · exact follows_stop (call_stops he stopped) a rfl rfl e.stop_faces.2 r'
  · obtain ⟨e', bound, he', placed⟩ := call_places he placed
    have faces := Engine.place_faces placed
    refine follows_placement he' ?_ (Prospect.orStart_ne_nothing _ node) faces r'
    rw [(Engine.place_eq_ok.1 placed).2]
    exact a

/-- A script whose first node goes on to a second one, which is empty, with a listener of the
host. -/
def jumpOn : Session :=
  { engine := .script
      { script := ⟨⟨[("A", [.jump "B"]), ("B", [])], by decide⟩⟩, listener := some (.host 0) } }

/-- The listener stops the engine when it is told that the first node is over. -/
theorem run_jumpOn :
    ∃ s e h, Run (fun _ _ _ => True) jumpOn s h ∧ s.awaitsHost = true ∧ s.engine = .script e ∧
      e.phase.prospect = .nodeStart "B" ∧ ∃ s' h', Run Unplaced (s.call .stopEngine).1 s' h' ∧
        events (s.call .stopEngine).1 h' = [.nodeStart "B"] := by
  have r : Run (fun _ _ _ => True) jumpOn jumpOn [] := .refl
  have r := (r.call rfl (.place "A") trivial).call rfl .continueEngine trivial
  have r := (r.works 9).answer (.action .next) rfl
  have r := r.works 9
  refine ⟨_, _, _, r, rfl, rfl, rfl, ?_⟩
  exact ⟨_, _, Run.works (.answer .refl (.action .next) rfl) 9, rfl⟩

/-- A stop is not final everywhere. -/
theorem exists_report_after_stop :
    ¬ ∀ s₀ e₀ s h c, s₀.engine = .script e₀ → e₀.phase = .idle →
      Run (fun _ _ _ => True) s₀ s h → s.awaitsHost = true →
      (s.stops c = true → ∀ s' h', Run Unplaced (s.call c).1 s' h' →
        events (s.call c).1 h' = []) ∧
      (∀ node, s.places? c = some node → ∀ s' h', Run Unmoved (s.call c).1 s' h' →
        ∀ event ∈ (events (s.call c).1 h').getLast?, event = .nodeStart node) := by
  intro final
  obtain ⟨s, e, h, r, word, -, -, s', h', r', told⟩ := run_jumpOn
  have silent := (final jumpOn _ s h .stopEngine rfl rfl r word).1 rfl s' h' r'
  rw [told] at silent
  cases silent

/-- What the listener is told after it has stopped the engine is what was in prospect. -/
theorem final_of_jumpOn :
    ∃ s e h, Run (fun _ _ _ => True) jumpOn s h ∧ s.engine = .script e ∧
      e.phase.prospect = .nodeStart "B" ∧ Final s e := by
  obtain ⟨s, e, h, r, -, he, prospect, -⟩ := run_jumpOn
  obtain ⟨e', he', final⟩ := run_final rfl rfl r
  obtain rfl : e = e' := EngineSeat.script.inj (he.symm.trans he')
  exact ⟨s, e, h, r, he, prospect, final⟩

end Prompter.Session

import Prompter.Proofs.Session.Attendance
import Prompter.Proofs.Session.Refusal

/-!
# Prompter.Proofs.Session.Departure

How an engine gets from options that wait for a choice to where the chosen one leads.

A choice is refused, or the engine is told of it at once (`select_cases`). From then on the engine
is `Departing`: whatever happens, nothing opens another choice or takes this one back
(`Departing.next`), until the engine takes its next step of the script, at the place that the option
leads to, or the dialogue is stopped.
-/

namespace Prompter.Session

open Engine (Poised)

/-- A choice is accepted: the host is told of no error. -/
def Accepts (s : Session) (serial : Nat) (id : OptionId) : Prop :=
  ∀ o ∈ s.yields (.call (.select serial id)), o.isError = false

/-- The place of the step of the script that the engine takes when something happens. -/
def step? (s : Session) : Mark → Option Place
  | .did .turn =>
    match s.engine with
    | .script e => e.step?
    | _ => none
  | _ => none

/-- How far an engine has come on its way from options to where the one with an id leads. `asked`
says that it has been asked to go on since that one was chosen. -/
inductive Departing (destinations : List (Option String)) (next : Place) (id : OptionId)
    (asked : Prop) (s : Session) (e : Engine) : Prop
  /-- It is going to be told what has been chosen. -/
  | picked (n : Nat) (rest : List Item) (unasked : ¬ asked)
      (poised : Poised destinations none next e) (watchful : e.phase.isWatchful = true)
      (closed : s.dialogue.offer = none) (top : s.agenda = .chooseOption n id :: rest)
      (unvoted : ∀ i ∈ rest, i.isVote = false)
  /-- It has been told, and looks at the choice when it goes on. -/
  | told (poised : Poised destinations (some id) next e) (watchful : e.phase.isWatchful = true)
      (roused : asked → e.Roused) (closed : s.dialogue.offer = none)
      (unvoted : ∀ i ∈ s.agenda, i.isVote = false)
  /-- It has looked, and is on its way. -/
  | heads (heads : e.Heads (next.orGoTo destinations[id]?.join)) (closed : s.dialogue.offer = none)
      (unvoted : ∀ i ∈ s.agenda, i.isVote = false)

section

variable {s s' : Session} {e e' : Engine} {m : Mark} {h : History}

/-! ### What the host may decide -/

/-- An option of the offer that is open is chosen: the offer is closed, and the engine is told of
the choice before anything else. -/
structure Selects (s : Session) (n : Nat) (id : OptionId) (offer : Offer) (o : LocalizedOption)
    (next : Item) : Prop where
  opened : s.dialogue.offer = some offer
  serial : offer.serial = n
  listed : o ∈ offer.options
  named : o.id = id
  available : o.available = true
  /-- The engine goes on at once, or after the option has been presented as a line. -/
  leads : next = if s.dialogue.settings.echoChoice then .present o.line (some n)
    else .continueEngine (.offer n)
  chosen : (s.call (.select n id)).1 = { s with
    dialogue.offer := none
    agenda := .chooseOption n id :: next :: .lease :: .reply .done :: s.agenda }
  accepts : Accepts s n id

theorem Selects.novote {n : Nat} {id : OptionId} {offer : Offer} {o : LocalizedOption} {next : Item}
    (selects : Selects s n id offer o next) : next.isVote = false := by
  rw [selects.leads]
  split <;> rfl

/-- A choice cannot be made, or is accepted. -/
theorem select_cases (n : Nat) (id : OptionId) :
    s.CannotChoose n id ∨ ∃ offer o next, Selects s n id offer o next := by
  have requests := s.call_requests (.select n id)
  generalize called : s.call (.select n id) = p at requests
  cases requests with
  | declined declines =>
    cases declines with
    | vanished gone => exact .inl (.inl gone)
    | select refuses => exact .inl (s.cannotChoose_of_error refuses)
    | unseated concerns => simp at concerns
  | @select _ _ _ d o chooses rs =>
    obtain ⟨offer, opened, serial, found, available, rfl⟩ := Dialogue.choose_eq_ok.1 chooses
    refine .inr ⟨offer, o, _, opened, serial, List.mem_of_find?_eq_some found,
      by simpa using List.find?_some found, available, rfl, ?_, ?_⟩
    · rw [called]
      rfl
    · simpa only [Accepts, yields, called] using isError_remarks rs

/-- A choice that is not accepted is refused. -/
theorem refused_of_not_accepts {n : Nat} {id : OptionId} (not : ¬ Accepts s n id) :
    s.Refused (s.call (.select n id)) := by
  rcases s.select_cases n id with cannot | ⟨_, _, _, selects⟩
  · exact s.call_refused cannot
  · exact absurd selects.accepts not

theorem not_accepts_of_cannotChoose {n : Nat} {id : OptionId} (cannot : s.CannotChoose n id) :
    ¬ Accepts s n id := by
  intro accepts
  have refuses : s.Refuses (.select n id) := cannot
  obtain ⟨-, rs, r, error, out⟩ := s.call_refused refuses
  have fine := accepts (.reply r) (by simp [yields, out])
  cases error.symm.trans fine

theorem cannotChoose_of_closed {n : Nat} {id : OptionId} (closed : s.dialogue.offer = none) :
    s.CannotChoose n id := by
  refine .inr fun offer opened => ?_
  cases closed.symm.trans opened

/-- A dialogue cannot start, or does so at the start of a node. -/
theorem start_cases (he : s.engine = .script e) (n : Option String) :
    (s.call (.start n)).1 = s ∨ ∃ node, s.dialogue.running = false ∧
      (s.call (.start n)).1 = { s with
        engine := .script ({ e with bound := true, choices := none, selected := none }.enter node)
        dialogue.running := true
        agenda := s.tellViews .opened ++ [.continueEngine .start, .lease, .reply .done] ++
          s.agenda } := by
  have requests := s.call_requests (.start n)
  generalize s.call (.start n) = p at requests ⊢
  cases requests with
  | declined => exact .inl rfl
  | @start _ node _ can _ _ places =>
    cases places with
    | script seat placed =>
      cases he.symm.trans seat
      obtain ⟨-, rfl⟩ := Engine.place_eq_ok.1 placed
      exact .inr ⟨node, (Dialogue.startError?_eq_none.1 can).2.2.1, rfl⟩
    | host seat => cases he.symm.trans seat

/-- Stopping a dialogue takes its engine out of the script, if it is running. -/
theorem stop_cases (he : s.engine = .script e) :
    (s.call .stop).1 = s ∨ s.dialogue.running = true ∧ (s.call .stop).1 = { s with
      engine := .script e.leaveScript
      agenda := .finish :: .lease :: .reply .done :: s.agenda } := by
  have requests := s.call_requests .stop
  generalize s.call .stop = p at requests ⊢
  cases requests with
  | declined => exact .inl rfl
  | stopEmpty _ seat | stopHost _ seat => cases he.symm.trans seat
  | stopScript running seat =>
    cases he.symm.trans seat
    exact .inr ⟨running, rfl⟩

/-- While no vote waits, only a turn of the engine or the host decides anything. -/
theorem Happens.deciding (happens : Happens s m s')
    (considerate : ∀ c, m = .call c → Considerate s h c)
    (unvoted : ∀ i ∈ s.agenda, i.isVote = false) :
    m.isDecisive = false ∨ m = .did .turn ∨ s.agenda = [] ∧ (m = .call .stop ∨
      ∃ n, m = .call (.start n)) ∨ s.awaitsHost = true ∧ ∃ n id, m = .call (.select n id) := by
  have waited {i : Item} (same : m = .did i) (vote : i.isVote = true) : False := by
    subst same
    obtain ⟨rest, top, -⟩ := happens.top
    have none := unvoted i (by rw [top]; exact List.mem_cons_self)
    cases vote.symm.trans none
  unfold Mark.isDecisive
  split
  · exact .inr (.inl rfl)
  · exact (waited rfl rfl).elim
  · exact (waited rfl rfl).elim
  · next r _ => cases r <;> exact (waited rfl rfl).elim
  · next r => cases r <;> exact (waited rfl rfl).elim
  · exact .inr (.inr (.inl ⟨(considerate _ rfl).2, .inr ⟨_, rfl⟩⟩))
  · exact .inr (.inr (.inl ⟨(considerate _ rfl).2, .inl rfl⟩))
  · cases happens with
    | call word => exact .inr (.inr (.inr ⟨word, _, _, rfl⟩))
  · exact (considerate _ rfl).2.elim
  · exact .inl rfl

/-! ### Departing -/

/-- An engine that lets the host have the word with options waiting will look at the choice. -/
theorem Attended.watchful (at_ : Attended s e) (word : s.awaitsHost = true)
    {destinations : List (Option String)} {selected : Option OptionId} {next : Place}
    (p : e.Poised destinations selected next) : e.phase.isWatchful = true := by
  have poised := p.poised
  rcases at_.word_cases word with ⟨engages, free⟩ | ⟨⟨purpose, stack, calling⟩, -⟩
  · rcases engages.yields free with phase | ⟨use, phase⟩
    · rw [phase]
      rfl
    · rw [phase] at poised
      rw [phase]
      cases use <;> first | rfl | cases poised
  · rw [calling] at poised
    cases poised

/-- What a turn asks for is no vote, unless it tells of a choice or of the end. -/
theorem unvoted_requested {request : Engine.Request}
    (ordinary : ∀ event, request = .report .dialogue event → event.isOrdinary = true) :
    ∀ i ∈ requested request, i.isVote = false := by
  cases request with
  | report l event =>
    cases l with
    | host => exact List.forall_mem_singleton.2 rfl
    | dialogue =>
      have told := ordinary event rfl
      cases event <;> first | exact List.forall_mem_singleton.2 rfl | cases told
  | rest => exact nofun
  | _ => exact List.forall_mem_singleton.2 rfl

theorem step?_of_other (other : m ≠ .did .turn) : s.step? m = none := by
  unfold step?
  split
  · exact absurd rfl other
  · rfl

theorem step?_of_turn (he : s.engine = .script e) : s.step? (.did .turn) = e.step? := by
  simp only [step?, he]

/-- An engine that has been asked to go on does so. -/
theorem Attended.roused {c : Cause} (at_ : Attended s e) (at_' : Attended s' e')
    (happens : Happens s (.did (.continueEngine c)) s') : e'.Roused := by
  obtain ⟨rest, -, rfl⟩ := happens.top
  have engine := at_'.engine
  simp only [work, continueEngine, at_.engine, push_engine] at engine
  cases engine
  exact e.roused_of_continue?

namespace Departing

variable {destinations : List (Option String)} {onward : Place} {id : OptionId}
  {asked asked' : Prop} (p : Departing destinations onward id asked s e)

include p

/-- What decides nothing keeps an engine departing. -/
theorem nudged (unvoted : ∀ i ∈ s.agenda, i.isVote = false) {found : Option Finding}
    (n : e.Nudged e' found) (roused : asked' → asked ∨ e'.Roused)
    (offer : s'.dialogue.offer = s.dialogue.offer)
    (votes : ∀ i ∈ s'.agenda, i.isVote = true → i ∈ s.agenda) :
    Departing destinations onward id asked' s' e' := by
  have unvoted' : ∀ i ∈ s'.agenda, i.isVote = false := by
    intro i hi
    cases vote : i.isVote with
    | false => rfl
    | true => exact vote.symm.trans (unvoted i (votes i hi vote))
  cases p with
  | picked n rest _ _ _ _ top =>
    have none := unvoted _ (by rw [top]; exact List.mem_cons_self)
    cases none
  | told poised watchful roused' closed =>
    refine .told (poised.nudged n) (Engine.watchful_of_nudged watchful n) (fun more => ?_)
      (offer.trans closed) unvoted'
    exact (roused more).elim (fun old => (roused' old).nudged watchful n) fun new => new
  | heads heads closed => exact .heads (heads.nudged n) (offer.trans closed) unvoted'

theorem mono (old : asked' → asked) : Departing destinations onward id asked' s e := by
  cases p with
  | picked n rest unasked poised watchful closed top unvoted =>
    exact .picked n rest (unasked ∘ old) poised watchful closed top unvoted
  | told poised watchful roused closed unvoted =>
    exact .told poised watchful (roused ∘ old) closed unvoted
  | heads heads closed unvoted => exact .heads heads closed unvoted

/-- An engine that has been asked to go on does not stay where it is. -/
theorem not_done (at_ : Attended s e) (done : s.agenda = []) : ¬ asked := by
  intro now
  have idle := at_.idle_of_done done
  cases p with
  | picked _ _ unasked => exact unasked now
  | told _ _ roused =>
    rcases roused now with step | ⟨busy, -⟩
    · cases idle.symm.trans step
    · exact busy idle
  | heads heads => exact heads.not_idle idle

/-- A turn keeps an engine departing, unless it arrives. -/
theorem turn (at_ : Attended s e) (happens : Happens s (.did .turn) s') (old : asked' → asked) :
    (e.step? = none ∧ ∃ e', s'.engine = .script e' ∧
        Departing destinations onward id asked' s' e') ∨
      e.step? = some (onward.orGoTo destinations[id]?.join) ∧ e.Calm ∧ s.dialogue.offer = none ∧
        ∀ i ∈ s.agenda, i.isVote = false := by
  obtain ⟨rest, around, top, -, hl, engine, dialogue, agenda⟩ := at_.turned happens
  have closed' (closed : s.dialogue.offer = none) : s'.dialogue.offer = none := by rwa [dialogue]
  have put (unvoted : ∀ i ∈ s.agenda, i.isVote = false)
      (ordinary : Engine.IsOrdinary (e.turn around)) : ∀ i ∈ s'.agenda, i.isVote = false := by
    rw [agenda]
    refine List.forall_mem_append.2 ⟨unvoted_requested (ordinary _), fun i hi => ?_⟩
    exact unvoted i (by rw [top]; exact List.mem_cons_of_mem _ hi)
  cases p with
  | picked _ _ _ _ _ _ top' => cases (List.cons.inj (top.symm.trans top')).1
  | told poised watchful roused closed unvoted =>
    have ordinary := (Engine.turn_of_poised hl poised).1
    refine .inl ⟨poised.step?_eq_none, _, engine, ?_⟩
    rcases Engine.turn_of_chosen hl poised watchful with heads | ⟨poised, watchful, kept⟩
    · exact .heads heads (closed' closed) (put unvoted ordinary)
    · exact .told poised watchful (fun new => kept (roused (old new))) (closed' closed)
        (put unvoted ordinary)
  | heads heads closed unvoted =>
    rcases Engine.turn_of_heads (s := around) heads with arrives | ⟨still, ordinary, heads'⟩
    · exact .inr ⟨arrives, heads.calm, closed, unvoted⟩
    · exact .inl ⟨still, _, engine, .heads heads' (closed' closed) (put unvoted ordinary)⟩

/-- The engine is told of the choice. -/
theorem choose {n : Nat} {id' : OptionId} (at_ : Attended s e)
    (happens : Happens s (.did (.chooseOption n id')) s') (old : asked' → asked) :
    ∃ e', s'.engine = .script e' ∧ Departing destinations onward id asked' s' e' := by
  obtain ⟨rest', top', rfl⟩ := happens.top
  cases p with
  | picked n rest unasked poised watchful closed top unvoted =>
    obtain ⟨⟨-, rfl⟩, rfl⟩ : (_ ∧ id' = id) ∧ rest' = rest := by
      simpa using top'.symm.trans top
    simp only [work, chooseOption, at_.engine]
    refine ⟨_, rfl, .told (poised.choose id') ?_ (fun more => absurd (old more) unasked) closed
      unvoted⟩
    obtain ⟨choice, same⟩ := e.choose_eq id'
    rw [same]
    exact watchful
  | told _ _ _ _ unvoted | heads _ _ unvoted =>
    have none := unvoted _ (by rw [top']; exact List.mem_cons_self)
    cases none

/-- Whatever happens, the engine is departing until it arrives or is stopped. -/
theorem next (at_ : Attended s e) (outside : s.dialogue.running = false → e.Out)
    (happens : Happens s m s') (considerate : ∀ c, m = .call c → Considerate s h c)
    (known : ∀ name k use, .afterCall name k use ∈ s.agenda → k < s.handles.length)
    (more : asked' → asked ∨ ∃ c, m = .did (.continueEngine c)) :
    m = .call .stop ∨ s.step? m = some (onward.orGoTo destinations[id]?.join) ∨
      s.step? m = none ∧ ∃ e', s'.engine = .script e' ∧
        Departing destinations onward id asked' s' e' := by
  by_cases picked : ∃ n rest, s.agenda = .chooseOption n id :: rest
  · obtain ⟨n, rest, top⟩ := picked
    obtain rfl : m = .did (.chooseOption n id) := happens.of_busy rfl (by rw [top]; rfl)
    refine .inr (.inr ⟨rfl, p.choose at_ happens fun new => ?_⟩)
    exact (more new).resolve_right nofun
  have unvoted : ∀ i ∈ s.agenda, i.isVote = false := by
    cases p with
    | picked n rest _ _ _ _ top => exact absurd ⟨n, rest, top⟩ picked
    | told _ _ _ _ unvoted | heads _ _ unvoted => exact unvoted
  have refused {c : Call} (same : (s.call c).1 = s) (hm : m = .call c) :
      s.step? m = none ∧ ∃ e', s'.engine = .script e' ∧
        Departing destinations onward id asked' s' e' := by
    subst hm
    cases happens with
    | call =>
      rw [same]
      refine ⟨rfl, e, at_.engine, p.nudged unvoted .same (fun new => ?_) rfl fun _ hi _ => hi⟩
      exact .inl ((more new).resolve_right nofun)
  rcases happens.deciding considerate unvoted with quiet | rfl | ⟨done, rfl | ⟨n, rfl⟩⟩ |
    ⟨-, n, id', rfl⟩
  · obtain ⟨e', at', nudged⟩ := at_.nudged happens considerate known quiet
    refine .inr (.inr ⟨step?_of_other fun same => ?_, e', at'.engine,
      p.nudged unvoted nudged (fun new => ?_) (happens.books quiet).1
        fun i hi vote => happens.votes quiet hi vote⟩)
    · subst same
      cases quiet
    · rcases more new with old | ⟨c, rfl⟩
      · exact .inl old
      · exact .inr (at_.roused at' happens)
  · rw [step?_of_turn at_.engine]
    rcases p.turn at_ happens fun new => (more new).resolve_right nofun with
      departing | ⟨arrives, -⟩
    · exact .inr (.inr departing)
    · exact .inr (.inl arrives)
  · exact .inl rfl
  · -- an engine that is departing is in the script, so that its dialogue is running
    refine .inr (.inr (refused ?_ rfl))
    refine (start_cases at_.engine n).resolve_right ?_
    rintro ⟨node, stopped, -⟩
    cases p with
    | picked _ _ _ poised | told poised => exact (outside stopped).not_poised poised
    | heads heads => exact heads.not_idle (at_.idle_of_done done)
  · have closed : s.dialogue.offer = none := by cases p <;> assumption
    have refuses : s.Refuses (.select n id') := cannotChoose_of_closed closed
    exact .inr (.inr (refused (s.call_refused refuses).1 rfl))

end Departing

end

end Prompter.Session

import Prompter.Proofs.Session.Departure

/-!
# Prompter.Proofs.Session.Ballot

How options are offered, chosen and left.

A menu is an instruction of the script that offers options. `Passage` says how far the last menu has
come: its options are polled, posed to the dialogue, pending until one of them is chosen, and the
engine departs from them. Items that open a choice, make it or end the dialogue are done at once, so
that nothing can happen in between. `Run.ballot` carries the passage along every run whose
host is `Considerate`.
-/

namespace Prompter

theorem Item.callsHost_of_isVote {i : Item} (vote : i.isVote = true) : i.callsHost = false := by
  cases i <;> first | rfl | cases vote

/-- Options of a script, with the place of the instruction that offers them. -/
structure Menu where
  node : String
  index : Nat
  options : List ScriptOption

namespace Menu

/-- Where the script goes on after the options. -/
def next (q : Menu) : Place := ⟨q.node, some (q.index + 1)⟩

def destinations (q : Menu) : List (Option String) := q.options.map (·.destination)

end Menu

namespace Session

open Engine (Poised Polling Polls)

/-! ### What a history tells of options -/

/-- Whether a mark is that of options being offered. -/
def Mark.offers : Mark → Bool
  | .did (.hear _ (.options _)) => true
  | _ => false

/-- How many menus have been offered. It is also the serial number of the last offer. -/
def offers (h : History) : Nat := h.countP Mark.offers

/-- What the engine has found out, in its order. -/
def found (s₀ : Session) : History → List Finding
  | [] => []
  | m :: h => found s₀ h ++ ((after s₀ h).found? m).toList

/-- The places of the steps of the script that the engine has taken, in their order. -/
def steps (s₀ : Session) : History → List Place
  | [] => []
  | m :: h => steps s₀ h ++ ((after s₀ h).step? m).toList

/-- The engine has begun to offer a menu, and has taken no other step and found out `fs` since. -/
def Begun (script : Script) (s₀ : Session) (q : Menu) (h : History) (fs : List Finding) : Prop :=
  ∃ newer older, h = newer ++ .did .turn :: older ∧
    script.instruction? q.node q.index = some (.options q.options) ∧
    (after s₀ older).step? (.did .turn) = some ⟨q.node, some q.index⟩ ∧
    steps (after s₀ (.did .turn :: older)) newer = [] ∧
    found (after s₀ (.did .turn :: older)) newer = fs

/-- A menu has been offered to the dialogue as the options `ds`, by what the engine has found out
about them. -/
def Offered (script : Script) (s₀ : Session) (q : Menu) (ds : List DialogueOption) (serial : Nat)
    (h : History) : Prop :=
  ∃ newer older fs, h = newer ++ .did (.hear .engine (.options ⟨ds⟩)) :: older ∧
    serial = offers older + 1 ∧ Begun script s₀ q older fs ∧ Polled q.options ds fs

/-- An option of the last offer has been chosen. -/
def Chosen (s₀ : Session) (h : History) (id : OptionId) : Prop :=
  ∃ newer older, h = newer ++ .call (.select (offers h) id) :: older ∧
    Accepts (after s₀ older) (offers h) id

/-- How far the last menu has come. -/
inductive Passage (script : Script) (s₀ s : Session) (e : Engine) (h : History) : Prop
  /-- There are no options. -/
  | off (calm : e.Calm) (closed : s.dialogue.offer = none)
      (unvoted : ∀ i ∈ s.agenda, i.isVote = false)
  /-- The engine decides which options are available. -/
  | polling (q : Menu) (fs : List Finding) (begun : Begun script s₀ q h fs)
      (polling : Polling q.options e fs) (hears : e.hearer = some .dialogue)
      (free : e.choices = none) (stands : e.stands? = some q.next)
      (closed : s.dialogue.offer = none) (unvoted : ∀ i ∈ s.agenda, i.isVote = false)
  /-- The dialogue is going to hear of the options. -/
  | posed (q : Menu) (ds : List DialogueOption) (fs : List Finding) (rest : List Item)
      (begun : Begun script s₀ q h fs) (polled : Polled q.options ds fs)
      (poised : Poised q.destinations none q.next e) (closed : s.dialogue.offer = none)
      (top : s.agenda = .hear .engine (.options ⟨ds⟩) :: rest)
      (unvoted : ∀ i ∈ rest, i.isVote = false)
  /-- The options wait for a choice. -/
  | pending (q : Menu) (ds : List DialogueOption) (o : Offer)
      (offered : Offered script s₀ q ds (offers h) h) (poised : Poised q.destinations none q.next e)
      (opened : s.dialogue.offer = some o) (serial : o.serial = offers h)
      (lists : ∀ x ∈ o.options, ∃ d ∈ ds, d.id = x.id ∧ d.available = x.available)
      (unvoted : ∀ i ∈ s.agenda, i.isVote = false)
  /-- The engine leaves the options for where the chosen one leads. -/
  | chosen (q : Menu) (ds : List DialogueOption) (id : OptionId)
      (offered : Offered script s₀ q ds (offers h) h) (chosen : Chosen s₀ h id)
      (departing : Departing q.destinations q.next id False s e)
  /-- The dialogue is going to end. -/
  | ending (i : Item) (rest : List Item) (calm : e.Calm) (out : e.Out)
      (closed : s.dialogue.running = false → s.dialogue.offer = none) (top : s.agenda = i :: rest)
      (last : i = .finish ∨ i = .hear .engine .dialogueEnd)
      (unvoted : ∀ i ∈ rest, i.isVote = false)

/-- What holds of a session over a script whose host is considerate. -/
structure Ballot (script : Script) (s₀ s : Session) (e : Engine) (h : History) : Prop where
  attended : Attended s e
  reads : e.script = script
  serial : s.dialogue.offerSerial = offers h
  /-- A dialogue that is not running has left the script. -/
  outside : s.dialogue.running = false → e.Out
  passage : Passage script s₀ s e h

section

variable {script : Script} {s₀ s s' : Session} {e e' : Engine} {h : History} {m : Mark}
  {allowed : Session → History → Call → Prop} {q : Menu} {fs : List Finding}
  {ds : List DialogueOption} {id : OptionId}

/-! ### Histories go on -/

theorem offers_cons (quiet : m.offers = false) : offers (m :: h) = offers h := by
  simp [offers, quiet]

theorem offers_of_not_decisive (quiet : m.isDecisive = false) : m.offers = false := by
  unfold Mark.offers
  split
  · cases quiet
  · rfl

theorem Begun.cons (b : Begun script s₀ q h fs) (r : Run allowed s₀ s h)
    (still : s.step? m = none) : Begun script s₀ q (m :: h) (fs ++ (s.found? m).toList) := by
  obtain ⟨newer, older, rfl, instruction, place, alone, rfl⟩ := b
  have now : after (after s₀ (.did .turn :: older)) newer = s := by
    rw [← after_append, r.after_eq]
  refine ⟨m :: newer, older, rfl, instruction, place, ?_, ?_⟩
  · rw [steps, alone, now, still]
    rfl
  · rw [found, now]

theorem Offered.cons {serial : Nat} (o : Offered script s₀ q ds serial h) :
    Offered script s₀ q ds serial (m :: h) := by
  obtain ⟨newer, older, fs, rfl, known⟩ := o
  exact ⟨m :: newer, older, fs, rfl, known⟩

theorem Chosen.cons (c : Chosen s₀ h id) (quiet : m.offers = false) : Chosen s₀ (m :: h) id := by
  obtain ⟨newer, older, same, accepts⟩ := c
  rw [Chosen, offers_cons quiet]
  exact ⟨m :: newer, older, congrArg _ same, accepts⟩

theorem found?_of_turn (he : s.engine = .script e) {rest : List Item}
    (top : s.agenda = .turn :: rest) :
    s.found? (.did .turn) = e.phase.finds ({ s with agenda := rest }.surroundings e) := by
  simp only [found?, he, top]
  rfl

/-! ### The passage of a menu -/

namespace Passage

variable (p : Passage script s₀ s e h)

include p

/-- A vote stands on the agenda only while it is first. -/
theorem unvoted_or : (∀ i ∈ s.agenda, i.isVote = false) ∨
    ∃ i rest, s.agenda = i :: rest ∧ i.isVote = true := by
  cases p with
  | off _ _ unvoted | polling _ _ _ _ _ _ _ _ unvoted | pending _ _ _ _ _ _ _ _ unvoted =>
    exact .inl unvoted
  | chosen _ _ _ _ _ departing =>
    cases departing with
    | picked _ _ _ _ _ _ top => exact .inr ⟨_, _, top, rfl⟩
    | told _ _ _ _ unvoted | heads _ _ unvoted => exact .inl unvoted
  | posed _ _ _ _ _ _ _ _ top => exact .inr ⟨_, _, top, rfl⟩
  | ending i rest _ _ _ top last => exact .inr ⟨i, rest, top, by rcases last with rfl | rfl <;> rfl⟩

/-- What waits where the host has the word is no vote. -/
theorem unvoted_of_word (word : s.awaitsHost = true) : ∀ i ∈ s.agenda, i.isVote = false := by
  refine p.unvoted_or.resolve_right ?_
  rintro ⟨i, rest, top, vote⟩
  have calls := callsHost_of_awaitsHost word i (by rw [top]; rfl)
  cases (Item.callsHost_of_isVote vote).symm.trans calls

/-- Nothing is decided. -/
theorem nudged (r : Run allowed s₀ s h) (unvoted : ∀ i ∈ s.agenda, i.isVote = false)
    (n : e.Nudged e' (s.found? m)) (still : s.step? m = none) (quiet : m.offers = false)
    (offer : s'.dialogue.offer = s.dialogue.offer)
    (votes : ∀ i ∈ s'.agenda, i.isVote = true → i ∈ s.agenda) :
    Passage script s₀ s' e' (m :: h) := by
  have unvoted' : ∀ i ∈ s'.agenda, i.isVote = false := by
    intro i hi
    cases vote : i.isVote with
    | false => rfl
    | true => exact vote.symm.trans (unvoted i (votes i hi vote))
  have first {i : Item} {rest : List Item} (top : s.agenda = i :: rest) (vote : i.isVote = true) :
      False := by
    have none := unvoted i (by rw [top]; exact List.mem_cons_self)
    rw [vote] at none
    cases none
  cases p with
  | off calm closed => exact .off (calm.nudged n) (offer.trans closed) unvoted'
  | polling q fs begun polling hears free stands closed =>
    refine .polling q _ (begun.cons r still) (polling.nudged n) ?_ (n.choices.trans free)
      (n.stands?.trans stands) (offer.trans closed) unvoted'
    rw [n.keeps]
    exact hears
  | pending q ds o offered poised opened serial lists =>
    refine .pending q ds o ?_ (poised.nudged n) (offer.trans opened) ?_ lists unvoted'
    · rw [offers_cons quiet]
      exact offered.cons
    · rw [offers_cons quiet]
      exact serial
  | chosen q ds id offered chosen departing =>
    refine .chosen q ds id ?_ (chosen.cons quiet)
      (departing.nudged unvoted n (fun new => new.elim) offer votes)
    rw [offers_cons quiet]
    exact offered.cons
  | posed _ _ _ _ _ _ _ _ top => exact (first top rfl).elim
  | ending i rest _ _ _ top last =>
    rcases last with rfl | rfl <;> exact (first top rfl).elim

end Passage

/-! ### The engine takes its turn -/

/-- The options are posed, or others are polled. -/
theorem Passage.of_polls {e₁ : Engine} {request : Engine.Request} {rest : List Item}
    (polls : Polls q.options e₁ fs e' request) (begun : Begun script s₀ q h fs)
    (hears : e₁.hearer = some .dialogue) (free : e₁.choices = none)
    (stands : e₁.stands? = some q.next) (closed : s'.dialogue.offer = none)
    (agenda : s'.agenda = requested request ++ rest) (unvoted : ∀ i ∈ rest, i.isVote = false) :
    Passage script s₀ s' e' h := by
  cases polls with
  | @report offered l hears' polled =>
    obtain rfl : Listener.dialogue = l := Option.some.inj (hears.symm.trans hears')
    exact .posed q offered fs rest begun polled ⟨rfl, rfl, stands, rfl⟩ closed agenda unvoted
  | poll phase polling silent =>
    refine .polling q fs begun polling hears free stands closed ?_
    rw [agenda]
    refine List.forall_mem_append.2 ⟨unvoted_requested fun event same => ?_, unvoted⟩
    exact absurd same (silent _ event)

/-- A turn without any options waiting may begin to poll some, or end the dialogue. -/
theorem Passage.turn_of_calm (r : Run allowed s₀ s h) (at_ : Attended s e)
    (reads : e.script = script) (happens : Happens s (.did .turn) s') (calm : e.Calm)
    (closed : s.dialogue.offer = none) (unvoted : ∀ i ∈ s.agenda, i.isVote = false) :
    ∃ e', s'.engine = .script e' ∧ Passage script s₀ s' e' (.did .turn :: h) := by
  obtain ⟨rest, around, top, -, hl, engine, dialogue, agenda⟩ := at_.turned happens
  refine ⟨_, engine, ?_⟩
  have closed' : s'.dialogue.offer = none := by rwa [dialogue]
  have below : ∀ i ∈ rest, i.isVote = false := by
    intro i hi
    exact unvoted i (by rw [top]; exact List.mem_cons_of_mem _ hi)
  rcases Engine.turn_of_calm hl calm with ⟨calm, passes⟩ | ⟨node, os, steps, stands, hi, polls⟩
  · by_cases ended : (e.turn around).2.1 = .report .dialogue .dialogueEnd
    · have out : (e.turn around).1.Out := by
        rcases passes _ _ ended with ordinary | ⟨-, out⟩
        · cases ordinary
        · exact out
      refine .ending _ rest calm out (fun _ => closed') ?_ (.inr rfl) below
      rw [agenda, ended]
      rfl
    · refine .off calm closed' ?_
      rw [agenda]
      refine List.forall_mem_append.2 ⟨unvoted_requested fun event told => ?_, below⟩
      refine (passes _ event told).resolve_right ?_
      rintro ⟨rfl, -⟩
      exact ended told
  · have place : s.step? (.did .turn) = some ⟨node, some e.index⟩ :=
      (step?_of_turn at_.engine).trans steps
    have begun : Begun script s₀ ⟨node, e.index, os⟩ (.did .turn :: h) [] :=
      ⟨[], h, rfl, reads ▸ hi, by rw [r.after_eq, place], rfl, rfl⟩
    refine .of_polls polls begun ?_ ?_ ?_ closed' agenda below
    · rfl
    · exact calm.free
    obtain ⟨node', inside, same⟩ := Option.map_eq_some_iff.1 stands
    have started : e.nodeStarted = true := by
      cases started : e.nodeStarted with
      | true => rfl
      | false => simp [started] at same
    obtain rfl : node' = node := congrArg Place.node same
    simp [Engine.stands?, inside, started, Menu.next]

/-- A turn takes a menu further, or leaves it where it is. -/
theorem Passage.turn (p : Passage script s₀ s e h) (r : Run allowed s₀ s h) (at_ : Attended s e)
    (reads : e.script = script) (happens : Happens s (.did .turn) s') :
    ∃ e', s'.engine = .script e' ∧ Passage script s₀ s' e' (.did .turn :: h) := by
  obtain ⟨rest, around, top, there, hl, engine, dialogue, agenda⟩ := at_.turned happens
  have closed' (closed : s.dialogue.offer = none) : s'.dialogue.offer = none := by rwa [dialogue]
  have below (unvoted : ∀ i ∈ s.agenda, i.isVote = false) : ∀ i ∈ rest, i.isVote = false := by
    intro i hi
    exact unvoted i (by rw [top]; exact List.mem_cons_of_mem _ hi)
  cases p with
  | off calm closed unvoted => exact Passage.turn_of_calm r at_ reads happens calm closed unvoted
  | polling q fs begun polling hears free stands closed unvoted =>
    have polls := Engine.turn_of_polling (s := around) hears polling (at_.of_turn top)
    have still : s.step? (.did .turn) = none := by
      rw [step?_of_turn at_.engine]
      obtain ⟨-, -, -, purpose, -⟩ := polling
      unfold Engine.step?
      split
      · next phase _ =>
        rw [phase] at purpose
        cases purpose
      · rfl
    have begun := begun.cons r still
    rw [found?_of_turn at_.engine top, ← there] at begun
    exact ⟨_, engine,
      .of_polls polls begun hears free stands (closed' closed) agenda (below unvoted)⟩
  | pending q ds o offered poised opened serial lists unvoted =>
    obtain ⟨ordinary, poised | ⟨id, same, -⟩⟩ := Engine.turn_of_poised hl poised
    · refine ⟨_, engine, .pending q ds o offered.cons poised ?_ serial lists ?_⟩
      · rwa [dialogue]
      · rw [agenda]
        exact List.forall_mem_append.2 ⟨unvoted_requested (ordinary _), below unvoted⟩
    · cases same
  | chosen q ds id offered chosen departing =>
    rcases departing.turn at_ happens fun new : False => new with
      ⟨-, e', engine, departing⟩ | ⟨-, calm, closed, unvoted⟩
    · exact ⟨e', engine, .chosen q ds id offered.cons (chosen.cons rfl) departing⟩
    · exact Passage.turn_of_calm r at_ reads happens calm closed unvoted
  | posed _ _ _ _ _ _ _ _ top' => cases (List.cons.inj (top.symm.trans top')).1
  | ending i _ _ _ _ top' last =>
    obtain ⟨rfl, -⟩ := List.cons.inj (top.symm.trans top')
    rcases last with last | last <;> cases last

/-! ### Somebody decides -/

theorem mem_localizeOptions {d : Dialogue} {os : List DialogueOption} {x : LocalizedOption}
    (hx : x ∈ (d.localizeOptions os).1) : ∃ o ∈ os, o.id = x.id ∧ o.available = x.available := by
  induction os with
  | nil => cases hx
  | cons o os ih =>
    rcases List.mem_cons.1 hx with rfl | hx
    · exact ⟨o, List.mem_cons_self, rfl, rfl⟩
    · obtain ⟨o', ho, same⟩ := ih hx
      exact ⟨o', List.mem_cons_of_mem _ ho, same⟩

namespace Passage

/-- The dialogue hears of options. -/
theorem offered {rest : List Item} (at_ : Attended s e) (serial : s.dialogue.offerSerial = offers h)
    (begun : Begun script s₀ q h fs) (polled : Polled q.options ds fs)
    (poised : Poised q.destinations none q.next e)
    (top : s.agenda = .hear .engine (.options ⟨ds⟩) :: rest)
    (unvoted : ∀ i ∈ rest, i.isVote = false)
    (happens : Happens s (.did (.hear .engine (.options ⟨ds⟩))) s') :
    ∃ e', s'.engine = .script e' ∧
      Passage script s₀ s' e' (.did (.hear .engine (.options ⟨ds⟩)) :: h) := by
  obtain ⟨rest', top', rfl⟩ := happens.top
  obtain rfl : rest' = rest := (List.cons.inj (top'.symm.trans top)).2
  have more : offers (.did (.hear .engine (.options ⟨ds⟩)) :: h) = offers h + 1 :=
    List.countP_cons_of_pos rfl
  refine ⟨e, at_.engine, .pending q ds ⟨s.dialogue.offerSerial + 1, _⟩ ?_ poised rfl ?_
    (fun x hx => mem_localizeOptions hx) ?_⟩
  · exact ⟨[], h, fs, rfl, more, begun, polled⟩
  · rw [more, serial]
  · exact List.forall_mem_append.2 ⟨List.forall_mem_append.2
      ⟨forall_mem_tellViews fun _ => rfl, List.forall_mem_singleton.2 rfl⟩, unvoted⟩

section

variable (p : Passage script s₀ s e h)

include p

/-- The dialogue is stopped. -/
theorem stop (r : Run allowed s₀ s h) (unvoted : ∀ i ∈ s.agenda, i.isVote = false)
    (done : s.agenda = []) (at_ : Attended s e) (happens : Happens s (.call .stop) s') :
    ∃ e', s'.engine = .script e' ∧ Passage script s₀ s' e' (.call .stop :: h) := by
  have idle := at_.idle_of_done done
  cases happens with
  | call =>
    rcases stop_cases at_.engine with same | ⟨running, stopped⟩
    · rw [same]
      exact ⟨e, at_.engine, p.nudged r unvoted .same rfl rfl rfl fun _ hi _ => hi⟩
    · rw [stopped]
      refine ⟨_, rfl, .ending .finish _ ⟨rfl, ?_⟩ ⟨rfl, ?_⟩ (fun past => ?_) rfl (.inl rfl) ?_⟩
      · rw [show e.leaveScript.phase = .idle from idle]
        rfl
      · rw [show e.leaveScript.phase = .idle from idle]
        rfl
      · cases running.symm.trans past
      · exact List.forall_mem_cons.2 ⟨rfl, List.forall_mem_cons.2 ⟨rfl, unvoted⟩⟩

/-- Where there is nothing left to do and the engine is out of the script, there are no options. -/
theorem closed_of_out (done : s.agenda = []) (at_ : Attended s e) (out : e.Out) :
    s.dialogue.offer = none := by
  have idle := at_.idle_of_done done
  have undone {i : Item} {rest : List Item} (top : s.agenda = i :: rest) : False := by
    cases done.symm.trans top
  cases p with
  | off _ closed | polling _ _ _ _ _ _ _ closed => exact closed
  | pending _ _ _ _ poised => exact (out.not_poised poised).elim
  | chosen _ _ _ _ _ departing =>
    cases departing with
    | picked _ _ _ _ _ closed | told _ _ _ closed | heads _ closed => exact closed
  | posed _ _ _ _ _ _ _ closed => exact closed
  | ending _ _ _ _ _ top => exact (undone top).elim

/-- The dialogue starts, or does not. -/
theorem start {n : Option String} (r : Run allowed s₀ s h)
    (unvoted : ∀ i ∈ s.agenda, i.isVote = false) (done : s.agenda = []) (at_ : Attended s e)
    (outside : s.dialogue.running = false → e.Out) (happens : Happens s (.call (.start n)) s') :
    ∃ e', s'.engine = .script e' ∧ Passage script s₀ s' e' (.call (.start n) :: h) := by
  have idle := at_.idle_of_done done
  cases happens with
  | call =>
    rcases start_cases at_.engine n with same | ⟨node, stopped, started⟩
    · rw [same]
      exact ⟨e, at_.engine, p.nudged r unvoted .same rfl rfl rfl fun _ hi _ => hi⟩
    · rw [started]
      refine ⟨_, rfl, .off ⟨rfl, ?_⟩ (p.closed_of_out done at_ (outside stopped)) ?_⟩
      · dsimp only [Engine.enter]
        rw [idle]
        rfl
      · refine List.forall_mem_append.2
          ⟨List.forall_mem_append.2 ⟨forall_mem_tellViews fun _ => rfl, ?_⟩, unvoted⟩
        exact List.forall_mem_cons.2 ⟨rfl, List.forall_mem_cons.2 ⟨rfl,
          List.forall_mem_singleton.2 rfl⟩⟩

/-- A choice that is accepted is one of the options that have been offered last. -/
theorem accepted {n : Nat} {id : OptionId} (unvoted : ∀ i ∈ s.agenda, i.isVote = false)
    (word : s.awaitsHost = true) (at_ : Attended s e) (accepts : Accepts s n id) :
    n = offers h ∧ ∃ q ds, Offered script s₀ q ds (offers h) h ∧
      (∃ d ∈ ds, d.id = id ∧ d.available = true) ∧
      ∃ e', (s.call (.select n id)).1.engine = .script e' ∧
        Departing q.destinations q.next id False (s.call (.select n id)).1 e' := by
  rcases s.select_cases n id with cannot | ⟨o, x, next, selects⟩
  · exact absurd accepts (not_accepts_of_cannotChoose cannot)
  have open_ (closed : s.dialogue.offer = none) : False := by
    cases closed.symm.trans selects.opened
  cases p with
  | off _ closed | polling _ _ _ _ _ _ _ closed => exact (open_ closed).elim
  | posed _ _ _ _ _ _ _ closed => exact (open_ closed).elim
  | chosen _ _ _ _ _ departing =>
    cases departing with
    | picked _ _ _ _ _ closed | told _ _ _ closed | heads _ closed => exact (open_ closed).elim
  | ending i rest _ _ _ top last =>
    have none := unvoted i (by rw [top]; exact List.mem_cons_self)
    rcases last with rfl | rfl <;> cases none
  | pending q ds o' offered poised opened' serial lists =>
    obtain rfl : o = o' := Option.some.inj (selects.opened.symm.trans opened')
    obtain ⟨d, hd, same, same'⟩ := lists x selects.listed
    refine ⟨selects.serial.symm.trans serial, q, ds, offered,
      ⟨d, hd, same.trans selects.named, same'.trans selects.available⟩, ?_⟩
    rw [selects.chosen]
    refine ⟨e, at_.engine, .picked n _ not_false poised (at_.watchful word poised) rfl rfl ?_⟩
    exact List.forall_mem_cons.2 ⟨selects.novote, List.forall_mem_cons.2 ⟨rfl,
      List.forall_mem_cons.2 ⟨rfl, unvoted⟩⟩⟩

/-- An option is chosen, or is not. -/
theorem select {n : Nat} {id : OptionId} (r : Run allowed s₀ s h)
    (unvoted : ∀ i ∈ s.agenda, i.isVote = false) (word : s.awaitsHost = true) (at_ : Attended s e)
    (happens : Happens s (.call (.select n id)) s') :
    ∃ e', s'.engine = .script e' ∧ Passage script s₀ s' e' (.call (.select n id) :: h) := by
  cases happens with
  | call =>
    by_cases accepts : Accepts s n id
    · obtain ⟨rfl, q, ds, offered, -, e', engine, departing⟩ :=
        p.accepted unvoted word at_ accepts
      refine ⟨e', engine, .chosen q ds id offered.cons ⟨[], h, rfl, ?_⟩ departing⟩
      rw [r.after_eq]
      exact accepts
    · rw [(refused_of_not_accepts accepts).1]
      exact ⟨e, at_.engine, p.nudged r unvoted .same rfl rfl rfl fun _ hi _ => hi⟩

/-- A vote that is first on the agenda is taken. -/
theorem voted {i : Item} {rest : List Item} (at_ : Attended s e)
    (serial : s.dialogue.offerSerial = offers h) (top : s.agenda = i :: rest)
    (vote : i.isVote = true) (happens : Happens s (.did i) s') :
    ∃ e', s'.engine = .script e' ∧ Passage script s₀ s' e' (.did i :: h) := by
  have unvoted (all : ∀ i ∈ s.agenda, i.isVote = false) : False := by
    have none := all i (by rw [top]; exact List.mem_cons_self)
    cases none.symm.trans vote
  cases p with
  | off _ _ all | polling _ _ _ _ _ _ _ _ all | pending _ _ _ _ _ _ _ _ all =>
    exact (unvoted all).elim
  | posed q ds fs rest' begun polled poised closed top' below =>
    obtain ⟨rfl, rfl⟩ := List.cons.inj (top.symm.trans top')
    exact offered at_ serial begun polled poised top below happens
  | chosen q ds id offered chosen departing =>
    cases departing with
    | told _ _ _ _ all | heads _ _ all => exact (unvoted all).elim
    | picked n rest' unasked poised watchful closed top' below =>
      obtain ⟨rfl, rfl⟩ := List.cons.inj (top.symm.trans top')
      obtain ⟨e', engine, departing⟩ := Departing.choose
        (.picked n rest unasked poised watchful closed top below) at_ happens fun new => new
      exact ⟨e', engine, .chosen q ds id offered.cons (chosen.cons rfl) departing⟩
  | ending i' rest' calm out closed top' last below =>
    obtain ⟨rfl, rfl⟩ := List.cons.inj (top.symm.trans top')
    obtain ⟨rest'', top'', rfl⟩ := happens.top
    obtain rfl : rest'' = rest := (List.cons.inj (top''.symm.trans top)).2
    rcases last with rfl | rfl
    · dsimp only [work, finish]
      split
      · exact ⟨e, at_.engine, .off calm rfl
          (List.forall_mem_append.2 ⟨forall_mem_tellViews fun _ => rfl, below⟩)⟩
      · next past => exact ⟨e, at_.engine, .off calm (closed (by simpa using past)) below⟩
    · exact ⟨e, at_.engine, .ending .finish _ calm out closed rfl (.inl rfl)
        (List.forall_mem_cons.2 ⟨rfl, below⟩)⟩

/-- Whatever happens, the last menu comes further or stays where it is. -/
theorem next (r : Run allowed s₀ s h) (at_ : Attended s e) (reads : e.script = script)
    (serial : s.dialogue.offerSerial = offers h) (outside : s.dialogue.running = false → e.Out)
    (happens : Happens s m s') (considerate : ∀ c, m = .call c → Considerate s h c)
    (known : ∀ name k use, .afterCall name k use ∈ s.agenda → k < s.handles.length) :
    ∃ e', s'.engine = .script e' ∧ Passage script s₀ s' e' (m :: h) := by
  rcases p.unvoted_or with unvoted | ⟨i, rest, top, vote⟩
  · rcases happens.deciding considerate unvoted with quiet | rfl | ⟨done, rfl | ⟨n, rfl⟩⟩ |
      ⟨word, n, id, rfl⟩
    · obtain ⟨e', at', nudged⟩ := at_.nudged happens considerate known quiet
      have still : m ≠ .did .turn := by
        rintro rfl
        cases quiet
      refine ⟨e', at'.engine, p.nudged r unvoted nudged (step?_of_other still)
        (offers_of_not_decisive quiet) (happens.books quiet).1
        fun i hi vote => happens.votes quiet hi vote⟩
    · exact p.turn r at_ reads happens
    · exact p.stop r unvoted done at_ happens
    · exact p.start r unvoted done at_ outside happens
    · exact p.select r unvoted word at_ happens
  · obtain rfl : m = .did i := happens.of_busy (Item.callsHost_of_isVote vote) (by rw [top]; rfl)
    exact p.voted at_ serial top vote happens

/-- The dialogue ends only when the engine has left the script. -/
theorem out_of_finish {rest : List Item} (top : s.agenda = .finish :: rest) : e.Out := by
  have unvoted (all : ∀ i ∈ s.agenda, i.isVote = false) : False := by
    have none := all .finish (by rw [top]; exact List.mem_cons_self)
    cases none
  cases p with
  | off _ _ all | polling _ _ _ _ _ _ _ _ all | pending _ _ _ _ _ _ _ _ all =>
    exact (unvoted all).elim
  | chosen _ _ _ _ _ departing =>
    cases departing with
    | told _ _ _ _ all | heads _ _ all => exact (unvoted all).elim
    | picked _ _ _ _ _ _ top' => cases (List.cons.inj (top.symm.trans top')).1
  | posed _ _ _ _ _ _ _ _ top' => cases (List.cons.inj (top.symm.trans top')).1
  | ending _ _ _ out => exact out

end

end Passage

/-! ### Runs -/

/-- What happens counts the offers. -/
theorem Happens.offerSerial_eq (happens : Happens s m s')
    (serial : s.dialogue.offerSerial = offers h) : s'.dialogue.offerSerial = offers (m :: h) := by
  cases offered : m.offers with
  | true =>
    obtain ⟨r, set, rfl⟩ : ∃ r set, m = .did (.hear r (.options set)) := by
      unfold Mark.offers at offered
      split at offered
      · exact ⟨_, _, rfl⟩
      · cases offered
    obtain ⟨rest, -, rfl⟩ := happens.top
    rw [offers, List.countP_cons_of_pos offered]
    exact congrArg (· + 1) serial
  | false =>
    rw [offers_cons offered, ← serial]
    obtain ⟨rest, special, takes, change, -⟩ := happens.move
    replace change : Change s.dialogue s.handles m s'.dialogue s'.handles special := change
    generalize s'.dialogue = d' at change ⊢
    generalize s'.handles = hs' at change
    cases change with
    | offer => cases offered
    | _ => rfl

/-- A dialogue stops running only when it ends. -/
theorem Happens.running (happens : Happens s m s') (past : s'.dialogue.running = false) :
    s.dialogue.running = false ∨ m = .did .finish := by
  obtain ⟨rest, special, takes, change, -⟩ := happens.move
  replace change : Change s.dialogue s.handles m s'.dialogue s'.handles special := change
  generalize s'.dialogue = d' at change past
  generalize s'.handles = hs' at change
  cases change with
  | opened => cases past
  | finish => exact .inr rfl
  | _ => exact .inl past

/-- No move gives an engine another script. -/
theorem Drive.same_script {a a' : List Item} (d : Drive e m a e' a') (c : e.Coherent) :
    e'.script = e.script := by
  cases d with
  | quiet | answering | bind | stop => rfl
  | turn around hl => exact (turned_of_engages c hl).script
  | continue_ =>
    rw [Engine.Nudged.continued.keeps]
  | choose n id =>
    obtain ⟨choice, same⟩ := e.choose_eq id
    rw [same]
  | heard i x =>
    rw [(Engine.Nudged.heard x).keeps]
  | place n node _ _ _ _ placed =>
    rw [(Engine.place_eq_ok.1 placed).2]
    rfl
  | receive v =>
    unfold Engine.receive
    split <;> rfl

/-- An engine enters the script only when the dialogue starts. -/
theorem Drive.out {a a' : List Item} (d : Drive e m a e' a') (c : e.Coherent) (out : e.Out)
    (started : ∀ n, m ≠ .call (.start n)) : e'.Out := by
  cases d with
  | quiet | answering => exact out
  | place | bind => exact absurd rfl (started _)
  | turn around hl => exact ((turned_of_engages c hl).out out).1
  | continue_ => exact out.nudged .continued
  | choose n id =>
    obtain ⟨choice, same⟩ := e.choose_eq id
    rw [same]
    exact ⟨out.outside, out.out⟩
  | heard i x => exact out.nudged (.heard x)
  | stop => exact ⟨rfl, out.out⟩
  | receive v =>
    unfold Engine.receive
    split
    · next phase =>
      have none := out.out
      rw [phase] at none
      cases none
    · exact out

/-- Whatever happens, the books of the options are kept. -/
theorem Ballot.next (b : Ballot script s₀ s e h) (r : Run allowed s₀ s h) (happens : Happens s m s')
    (considerate : ∀ c, m = .call c → Considerate s h c)
    (known : ∀ name k use, .afterCall name k use ∈ s.agenda → k < s.handles.length) :
    ∃ e', Ballot script s₀ s' e' (m :: h) := by
  obtain ⟨e', at', drive⟩ := b.attended.next happens considerate known
  obtain ⟨e'', engine, passage⟩ := b.passage.next r b.attended b.reads b.serial b.outside happens
    considerate known
  obtain rfl : e' = e'' := by
    have same := at'.engine.symm.trans engine
    cases same
    rfl
  refine ⟨e', at', ?_, happens.offerSerial_eq b.serial, fun past => ?_, passage⟩
  · rcases drive with drive | ⟨rfl, -⟩
    · exact (drive.same_script b.attended.coherent).trans b.reads
    · exact b.reads
  · have out : e.Out := by
      rcases happens.running past with past | rfl
      · exact b.outside past
      · obtain ⟨rest, top, -⟩ := happens.top
        exact b.passage.out_of_finish top
    by_cases started : ∃ n, m = .call (.start n)
    · obtain ⟨n, rfl⟩ := started
      cases happens with
      | call =>
        rcases start_cases b.attended.engine n with same | ⟨node, -, running⟩
        · rw [same, b.attended.engine] at engine
          cases engine
          exact out
        · rw [running] at past
          cases past
    · rcases drive with drive | ⟨rfl, -⟩
      · exact drive.out b.attended.coherent out fun n same => started ⟨n, same⟩
      · exact out

/-- The books of the options are kept through every run. -/
theorem Run.ballot {e₀ : Engine} (at₀ : s₀.IsAttached) (engine : s₀.engine = .script e₀)
    (r : Run Considerate s₀ s h) : ∃ e, Ballot e₀.script s₀ s e h := by
  induction h generalizing s with
  | nil =>
    cases r
    obtain ⟨script, attends⟩ := at₀.attends
    obtain rfl : e₀ = _ := by
      have same := engine.symm.trans attends.engine
      cases same
      rfl
    have attended : Attended _ _ :=
      ⟨attends.engine, attends.held, attends.coherent, .inl attends.engages⟩
    refine ⟨_, attended, rfl, ?_, fun _ => ⟨rfl, rfl⟩, .off ⟨rfl, rfl⟩ ?_ ?_⟩
    · rw [at₀.dialogue]
      rfl
    · rw [at₀.dialogue]
    · rw [at₀.agenda]
      exact nofun
  | cons m h ih =>
    obtain ⟨s₁, r₁, happens⟩ := r.last
    obtain ⟨e₁, b⟩ := ih r₁
    refine b.next r₁ happens (fun c same => ?_) (r₁.known at₀.toIsFresh)
    subst same
    exact r₁.allowed_of_call r

end

end Session

end Prompter

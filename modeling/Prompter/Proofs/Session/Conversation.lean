import Prompter.Proofs.Engine.Reading
import Prompter.Proofs.Engine.Stake
import Prompter.Proofs.Session.Finality

/-!
# Prompter.Proofs.Session.Conversation

An engine and a listener of the host that directs it.

The listener answers the events, makes the choices and asks the engine to go on, either while it is
told an event or later. `Talk` is what one needs to know of this to say what it may request next,
`Deed` lists what can happen, and `Poses` says how the phase of the engine and what is left to be
done fit the conversation, with one lemma for each deed.
-/

namespace Prompter

/-- Whether an event may have the engine wait. -/
def Event.waits : Event → Bool
  | .line _ | .options _ | .command _ => true
  | .nodeStart _ | .nodeEnd _ | .dialogueEnd => false

/-- Whether an item is a part of telling a script to a listener of the host. -/
def Item.narrates : Item → Bool
  | .reply _ | .turn | .continueEngine _ | .ask _ _ | .invoke _ _ .engine => true
  | _ => false

/-- Whether a request of the host is through. -/
def Item.isReply : Item → Bool
  | .reply _ => true
  | _ => false

namespace Session

open Engine (Request Surroundings Turned)

/-! ### The conversation of an engine with its listener -/

/-- What has been reported last, and what has been requested since. -/
structure Talk where
  last : Option Event := none
  continues : Nat := 0
  choices : List OptionId := []

namespace Talk

/-- Whether options have been reported last. -/
def offers (t : Talk) : Bool :=
  match t.last with
  | some (.options _) => true
  | _ => false

/-- Notes what happens. -/
def note (t : Talk) (m : Mark) : Option Event → Talk
  | some event => { last := some event }
  | none =>
    match m with
    | .call .continueEngine => { t with continues := t.continues + 1 }
    | .call (.chooseOption id) => { t with choices := id :: t.choices }
    | _ => t

/-- The engine may be asked to go on: once for each event, not for the start or the end of a node,
and only after a choice if one is to be made. -/
def MayContinue (t : Talk) : Prop :=
  t.continues = 0 ∧
    match t.last with
    | some (.options _) => t.choices ≠ []
    | some (.nodeStart _) | some (.nodeEnd _) => False
    | _ => True

/-- One of the options that have been reported may be chosen, once. -/
def MayChoose (t : Talk) (id : OptionId) : Prop :=
  t.choices = [] ∧ ∃ set, t.last = some (.options set) ∧ (set.find? id).isSome = true

end Talk

variable {s₀ s s' : Session} {h : History} {m : Mark}

/-- The conversation in the course of a history. -/
def talk (s₀ : Session) : History → Talk
  | [] => {}
  | m :: h => (talk s₀ h).note m ((after s₀ h).reported? m)

/-- Nothing is left to be done before a listener is asked, or nothing at all. -/
def Free (a : List Item) : Prop := ∀ i ∈ a.head?, ∃ key event, i = .ask key event

/-- The host directs the engine as it should, and makes no requests inside functions. -/
def Directs (s₀ s : Session) (h : History) (c : Call) : Prop :=
  Free s.agenda ∧
    match c with
    | .continueEngine => (talk s₀ h).MayContinue
    | .chooseOption id => (talk s₀ h).MayChoose id
    | _ => False

/-- An answer to a call is one that the listener and the functions give. -/
def Suits (w : World) (t : Talk) : Item → Answer → Prop
  | .ask _ event, .action x =>
    match event with
    | .nodeStart _ | .nodeEnd _ => x = .next
    | .line _ | .options _ => x = .wait
    -- a command may be waited for or not, but then the engine is not asked to go on
    | .command _ => t.continues = 0 ∨ x = .wait
    | .dialogueEnd => True
  | .invoke key args _, .value v => v = w.answer key args
  | _, _ => True

/-- The answers in a history are those of the listener and the functions. -/
def Answers (w : World) (s₀ : Session) : History → Prop
  | [] => True
  | .answer x :: h =>
    (∀ i ∈ (after s₀ h).agenda.head?, Suits w (talk s₀ h) i x) ∧ Answers w s₀ h
  | _ :: h => Answers w s₀ h

/-- What is left to be done, replies apart. -/
def live (a : List Item) : List Item := a.filter (!·.isReply)

/-! ### What can happen -/

/-- The session tells a script to a listener of the host. -/
structure Hosts (s : Session) (w : World) (e : Engine) (vs : Variables) : Prop where
  engine : s.engine = .script e
  storage : s.storage = some vs
  functions : s.functions = w.functions
  parts : ∀ i ∈ s.agenda, i.narrates = true

/-- What the engine finds around it. -/
def around (w : World) (vs : Variables) (l : Listener) : Surroundings :=
  ⟨some ⟨vs, w.functions⟩, some l⟩

/-- What can happen to an engine with the variables `vs`, and to what is left to be done. -/
inductive Deed (w : World) (l : Listener) (e : Engine) (vs : Variables) :
    Mark → List Item → Engine → Variables → List Item → Option Event → Prop
  | replied (r : Reply) (a : List Item) : Deed w l e vs (.did (.reply r)) a e vs a none
  | went (c : Cause) (a : List Item) :
      Deed w l e vs (.did (.continueEngine c)) (.continueEngine c :: a) e.continue?.1 vs
        ((if e.continue?.2 then [.turn] else []) ++ a) none
  | turned (e' : Engine) (r : Request) (a : List Item)
      (taken : ∃ rs, e.turn (around w vs l) = (e', r, rs)) :
      Deed w l e vs (.did .turn) (.turn :: a) e' (r.stored vs) (requested r ++ a) r.event?
  | asked (a : List Item) :
      Deed w l e vs (.call .continueEngine) a e vs (.continueEngine .host :: a) none
  | chose (id : OptionId) (a : List Item) :
      Deed w l e vs (.call (.chooseOption id)) a (e.choose id).1 vs a none
  | heard (key : HostKey) (event : Event) (x : NextAction) (a : List Item) :
      Deed w l e vs (.answer (.action x)) (.ask key event :: a) (e.hear x) vs (.turn :: a) none
  | received (key : HostKey) (args : List Value) (v : Value) (a : List Item) :
      Deed w l e vs (.answer (.value v)) (.invoke key args .engine :: a) (e.receive v) vs
        (.turn :: a) none

section

variable {w : World} {key : HostKey} {script : Script} {e : Engine} {vs : Variables} {i : Item}
  {rest : List Item}

theorem live_cons (live_ : i.isReply = false) : live (i :: rest) = i :: live rest := by
  simp [live, live_]

theorem live_append (a b : List Item) : live (a ++ b) = live a ++ live b := List.filter_append ..

theorem Hosts.surroundings (hosts : Hosts s w e vs) (reads : e.Reads script (.host key)) :
    s.surroundings e = around w vs (.host key) := by
  simp [Session.surroundings, around, reads.bound, reads.listener, hosts.storage, hosts.functions]

theorem Hosts.taken (hosts : Hosts s w e vs) (top : s.agenda = i :: rest) :
    Hosts { s with agenda := rest } w e vs :=
  ⟨hosts.engine, hosts.storage, hosts.functions,
    fun j hj => hosts.parts j (top ▸ List.mem_cons_of_mem i hj)⟩

theorem live_requested (r : Request) : live (requested r) = requested r := by
  cases r with
  | report l => cases l <;> rfl
  | _ => rfl

/-- The engine takes its turn. -/
theorem Hosts.turned {e' : Engine} {r : Request} {rs : List Remark} (hosts : Hosts s w e vs)
    (taken : e.turn (around w vs (.host key)) = (e', r, rs))
    (same : s.surroundings e = around w vs (.host key)) (t : Turned (.host key) e e' r) :
    Hosts s.turn.1 w e' (r.stored vs) ∧ s.turn.1.agenda = requested r ++ s.agenda := by
  have parts (i : Item) (part : i.narrates = true) : ∀ j ∈ i :: s.agenda, j.narrates = true :=
    List.forall_mem_cons.2 ⟨part, hosts.parts⟩
  simp only [Session.turn, hosts.engine, same, taken]
  cases r with
  | again => exact ⟨⟨rfl, hosts.storage, hosts.functions, parts _ rfl⟩, rfl⟩
  | rest => exact ⟨⟨rfl, hosts.storage, hosts.functions, hosts.parts⟩, rfl⟩
  | invoke key args => exact ⟨⟨rfl, hosts.storage, hosts.functions, parts _ rfl⟩, rfl⟩
  | report l event =>
    obtain rfl : l = .host key := t.reporter
    exact ⟨⟨rfl, hosts.storage, hosts.functions, parts _ rfl⟩, rfl⟩
  | store name v =>
    have storage := hosts.storage
    simp only [push, store, storage, Engine.Request.stored, Variables.assign]
    cases vs.set name v with
    | ok vs' => exact ⟨⟨rfl, rfl, hosts.functions, parts _ rfl⟩, rfl⟩
    | error err => exact ⟨⟨rfl, rfl, hosts.functions, parts _ rfl⟩, rfl⟩

/-- The session does the first thing that is left to be done. -/
theorem Hosts.work (hosts : Hosts s w e vs) (reads : e.Reads script (.host key))
    (busy : s.awaitsHost = false) (top : s.agenda = i :: rest) :
    ∃ e' vs', Hosts s.step.1 w e' vs' ∧ Deed w (.host key) e vs (.did i) (live s.agenda) e' vs'
      (live s.step.1.agenda) (s.reported? (.did i)) := by
  have hosts' := hosts.taken top
  have part := hosts.parts i (top ▸ List.mem_cons_self)
  rw [step_eq_work busy top, top]
  cases i with
  | reply r => exact ⟨e, vs, hosts', .replied r _⟩
  | continueEngine c =>
    have step : ({ s with agenda := rest }.work (.continueEngine c)).1 =
        { s with
          engine := .script e.continue?.1
          agenda := (if e.continue?.2 then [.turn] else []) ++ rest } := by
      simp only [Session.work, continueEngine, hosts.engine]
      rfl
    have begun : live (if e.continue?.2 then [.turn] else []) =
        if e.continue?.2 then [.turn] else [] := by split <;> rfl
    rw [step]
    refine ⟨e.continue?.1, vs, ⟨rfl, hosts.storage, hosts.functions, ?_⟩, ?_⟩
    · refine List.forall_mem_append.2 ⟨?_, hosts'.parts⟩
      split <;> simp [Item.narrates]
    · rw [live_cons rfl, live_append, begun]
      exact .went c (live rest)
  | turn =>
    have same := hosts'.surroundings reads
    have told : s.reported? (.did .turn) = (e.turn (around w vs (.host key))).2.1.event? := by
      have known := same
      rw [hosts.engine] at known
      simp only [reported?, hosts.engine, top, List.tail_cons, known]
    have t : Turned (.host key) e (e.turn (around w vs (.host key))).1
      (e.turn (around w vs (.host key))).2.1 := Engine.turn_turned rfl reads.hearer
    rw [told]
    rcases taken : e.turn (around w vs (.host key)) with ⟨e', r, rs⟩
    rw [taken] at t
    obtain ⟨hosts', agenda⟩ := hosts'.turned taken same t
    have left : live { s with agenda := rest }.turn.1.agenda = requested r ++ live rest := by
      rw [agenda, live_append, live_requested]
    refine ⟨e', r.stored vs, hosts', ?_⟩
    rw [live_cons rfl]
    change Deed w _ e vs _ _ e' _ (live { s with agenda := rest }.turn.1.agenda) _
    rw [left]
    exact .turned e' r (live rest) ⟨rs, taken⟩
  | ask | invoke => simp [awaitsHost, top] at busy
  | _ => cases part

/-- The host makes a request of the engine. -/
theorem Hosts.call (hosts : Hosts s w e vs) (key : HostKey) {c : Call} (ok : Directs s₀ s h c) :
    ∃ e' vs', Hosts (s.call c).1 w e' vs' ∧
      Deed w (.host key) e vs (.call c) (live s.agenda) e' vs' (live (s.call c).1.agenda) none := by
  have parts (i : Item) (part : i.narrates = true) : ∀ j ∈ i :: s.agenda, j.narrates = true :=
    List.forall_mem_cons.2 ⟨part, hosts.parts⟩
  obtain ⟨-, directs⟩ := ok
  cases c with
  | continueEngine =>
    refine ⟨e, vs, ⟨hosts.engine, hosts.storage, hosts.functions, ?_⟩, ?_⟩
    · exact List.forall_mem_cons.2 ⟨rfl, parts _ rfl⟩
    · exact .asked (live s.agenda)
  | chooseOption id =>
    have step : (s.call (.chooseOption id)).1 =
        { s with engine := .script (e.choose id).1, agenda := .reply .done :: s.agenda } := by
      simp only [Session.call, chooseOption, push, hosts.engine]
      rfl
    rw [step]
    exact ⟨_, vs, ⟨rfl, hosts.storage, hosts.functions, parts _ rfl⟩, .chose id (live s.agenda)⟩
  | _ => cases directs

/-- The host answers a call. -/
theorem Hosts.answer (hosts : Hosts s w e vs) (key : HostKey) {x : Answer}
    (fits : s.accepts x = true) :
    ∃ e' vs', Hosts (s.answer x).1 w e' vs' ∧
      Deed w (.host key) e vs (.answer x) (live s.agenda) e' vs' (live (s.answer x).1.agenda)
        none := by
  have answered := answered_of_accepts fits
  generalize (s.answer x).1 = s' at answered ⊢
  cases answered with
  | heard n rest top => cases hosts.parts _ (top ▸ List.mem_cons_self)
  | action key' event rest x top =>
    have hosts' := hosts.taken top
    simp only [conclude, hosts.engine]
    rw [top]
    refine ⟨_, vs, ⟨rfl, hosts.storage, hosts.functions, ?_⟩, .heard key' event x (live rest)⟩
    exact List.forall_mem_cons.2 ⟨rfl, hosts'.parts⟩
  | received key' args rest v top =>
    have hosts' := hosts.taken top
    simp only [mapEngine, hosts.engine]
    rw [top]
    refine ⟨_, vs, ⟨rfl, hosts.storage, hosts.functions, ?_⟩, .received key' args v (live rest)⟩
    exact List.forall_mem_cons.2 ⟨rfl, hosts'.parts⟩
  | replied key' args rest v top => cases hosts.parts _ (top ▸ List.mem_cons_self)

end

/-! ### Where the engine and its listener stand -/

/-- A conversation in which the engine is directed as it should. -/
structure Talk.Fair (t : Talk) : Prop where
  once : t.continues ≤ 1
  silent : ∀ node, t.last = some (.nodeStart node) ∨ t.last = some (.nodeEnd node) →
    t.continues = 0
  decided : t.offers = true → t.continues ≠ 0 → t.choices ≠ []

/-- What is left to be done fits the phase of the engine and the conversation. -/
inductive Posed (t : Talk) (e : Engine) (a : List Item) : Prop
  /-- The run is over, and perhaps the next one is asked for. -/
  | resting (n : Nat) (left : a = List.replicate n (.continueEngine .host))
      (phase : e.phase = .idle) (few : n ≤ t.continues)
      (quiet : e.node.isSome = true → t.continues = n ∧ ∀ event ∈ t.last, event.waits = true)
  /-- The listener is told an event. -/
  | telling (n : Nat) (key : HostKey) (event : Event)
      (left : a = List.replicate n (.continueEngine .host) ++ [.ask key event])
      (use : Engine.Use) (phase : e.phase = .reported use) (last : t.last = some event)
      (takes : use.takes event = true) (count : t.continues = n + e.resumeRequested.toNat)
  | calling (key : HostKey) (args : List Value) (left : a = [.invoke key args .engine])
      (phase : ∃ purpose stack, e.phase = .calling purpose stack)
      (unasked : e.resumeRequested = false) (decided : t.offers = true → t.choices ≠ [])
  | going (left : a = [.turn]) (turns : e.phase.turns = true) (goesOn : e.phase.goesOn = true)
      (unasked : e.resumeRequested = false) (decided : t.offers = true → t.choices ≠ [])
  /-- The engine waits, unless it has been asked to go on. -/
  | pausing (left : a = [.turn])
      (phase : e.phase = .heard .plain .wait ∨ e.phase = .heard .choice .wait ∨
        e.phase = .settle .wait)
      (count : t.continues = e.resumeRequested.toNat)
      (waits : ∀ event ∈ t.last, event.waits = true)
  /-- The dialogue is over. -/
  | ending (left : a = [.turn])
      (phase : e.phase = .settle .halt ∨ ∃ x, e.phase = .heard .halt x) (out : e.node = none)

/-- Where the engine and its listener stand. -/
structure Poses (t : Talk) (e : Engine) (a : List Item) : Prop where
  posed : Posed t e a
  /-- Options wait for a choice from their report until the engine goes on. -/
  offered : t.offers = true → e.phase.goesOn = false → e.choices.isSome = true
  waiting : e.choices.isSome = true → t.offers = true ∧ t.choices = e.selected.toList
  ended : e.node = none → t.last = some .dialogueEnd

section

variable {script : Script} {t : Talk} {e e' : Engine} {a : List Item}

/-- While the engine has its turn nothing else is left to be done. -/
theorem Posed.of_turn (p : Posed t e (.turn :: a)) :
    a = [] ∧
      ((e.phase.turns = true ∧ e.phase.goesOn = true ∧ e.resumeRequested = false ∧
          (t.offers = true → t.choices ≠ [])) ∨
        ((e.phase = .heard .plain .wait ∨ e.phase = .heard .choice .wait ∨
            e.phase = .settle .wait) ∧
          t.continues = e.resumeRequested.toNat ∧ ∀ event ∈ t.last, event.waits = true) ∨
        ((e.phase = .settle .halt ∨ ∃ x, e.phase = .heard .halt x) ∧ e.node = none)) := by
  cases p with
  | going left turns goesOn unasked decided =>
    exact ⟨(List.cons.inj left).2, .inl ⟨turns, goesOn, unasked, decided⟩⟩
  | pausing left phase count waits =>
    exact ⟨(List.cons.inj left).2, .inr (.inl ⟨phase, count, waits⟩)⟩
  | ending left phase out => exact ⟨(List.cons.inj left).2, .inr (.inr ⟨phase, out⟩)⟩
  | resting n left => cases n <;> cases left
  | telling n key event left => cases n <;> cases left
  | calling key args left => cases left

theorem Posed.busy (p : Posed t e (.turn :: a)) :
    e.phase.turns = true ∨ e.phase = .settle .halt ∨ ∃ x, e.phase = .heard .halt x := by
  obtain ⟨-, ⟨turns, -⟩ | ⟨phase | phase | phase, -⟩ | ⟨ending, -⟩⟩ := p.of_turn
  · exact .inl turns
  · exact .inl (by rw [phase]; rfl)
  · exact .inl (by rw [phase]; rfl)
  · exact .inl (by rw [phase]; rfl)
  · exact .inr ending

theorem Posed.of_goesOn (p : Posed t e (.turn :: a)) (goesOn : e.phase.goesOn = true) :
    e.resumeRequested = false ∧ (t.offers = true → t.choices ≠ []) ∧ a = [] := by
  obtain ⟨nil, ⟨-, -, going⟩ | ⟨phase | phase | phase, -⟩ | ⟨phase | ⟨x, phase⟩, -⟩⟩ := p.of_turn
  · exact ⟨going.1, going.2, nil⟩
  all_goals
    rw [phase] at goesOn
    cases goesOn

theorem Posed.of_pausing (p : Posed t e (.turn :: a))
    (phase : e.phase = .heard .plain .wait ∨ (∃ x, e.phase = .heard .choice x) ∨
      e.phase = .settle .wait) :
    t.continues = e.resumeRequested.toNat ∧ (∀ event ∈ t.last, event.waits = true) ∧ a = [] := by
  obtain ⟨nil, ⟨-, goesOn, -⟩ | ⟨-, pausing⟩ | ⟨ending, -⟩⟩ := p.of_turn
  · rcases phase with phase | ⟨x, phase⟩ | phase
    all_goals
      rw [phase] at goesOn
      cases goesOn
  · exact ⟨pausing.1, pausing.2, nil⟩
  · rcases phase with phase | ⟨x, phase⟩ | phase <;> simp [phase] at ending

theorem Posed.of_ending (p : Posed t e (.turn :: a))
    (phase : e.phase = .settle .halt ∨ ∃ x, e.phase = .heard .halt x) : e.node = none ∧ a = [] := by
  obtain ⟨nil, ⟨-, goesOn, -⟩ | ⟨pausing, -⟩ | ⟨-, out⟩⟩ := p.of_turn
  · rcases phase with phase | ⟨x, phase⟩
    all_goals
      rw [phase] at goesOn
      cases goesOn
  · rcases phase with phase | ⟨x, phase⟩ <;> simp [phase] at pausing
  · exact ⟨out, nil⟩

theorem Talk.offers_of_last {event : Event} (last : t.last = some event) (l : Listener) :
    t.offers = (Request.report l event).offers := by
  rw [Talk.offers, last]
  cases event <;> rfl

theorem Poses.posed_turned {key : HostKey} {r : Request} (p : Poses t e (.turn :: a))
    (fair : t.Fair) (d : Turned (.host key) e e' r)
    (reports : ∀ l event, r = .report l event → ∃ use, e'.phase = .reported use ∧
      use.takes event = true) :
    Posed (t.note (.did .turn) r.event?) e' (requested r ++ a) := by
  have reported {event : Event} {e' : Engine} (goesOn : e.phase.goesOn = true)
      (reports : ∃ use, e'.phase = .reported use ∧ use.takes event = true)
      (same : e'.resumeRequested = e.resumeRequested) :
      Posed (t.note (.did .turn) (some event)) e' (.ask key event :: a) := by
    obtain ⟨unasked, -, rfl⟩ := p.posed.of_goesOn goesOn
    obtain ⟨use, phase, takes⟩ := reports
    exact .telling 0 key event rfl use phase rfl takes (by rw [same, unasked]; rfl)
  have goes {e' : Engine} (goesOn : e.phase.goesOn = true) (turns : e'.phase.turns = true)
      (goesOn' : e'.phase.goesOn = true) (same : e'.resumeRequested = e.resumeRequested) :
      Posed t e' (.turn :: a) := by
    obtain ⟨unasked, decided, rfl⟩ := p.posed.of_goesOn goesOn
    exact .going rfl turns goesOn' (same.trans unasked) decided
  cases d with
  | outside phase out =>
    obtain ⟨-, -, rfl⟩ := p.posed.of_goesOn (by rw [phase]; rfl)
    exact .ending rfl (.inl rfl) out
  | undecided phase _ waiting undecided =>
    obtain ⟨-, decided, -⟩ := p.posed.of_goesOn (by rw [phase]; rfl)
    obtain ⟨offers, choices⟩ := p.waiting waiting
    rw [undecided] at choices
    exact absurd choices (decided offers)
  | chosen phase | next phase | enter _ _ _ phase => exact goes (by rw [phase]; rfl) rfl rfl rfl
  | depart phase | begin phase | closed _ phase =>
    exact reported (by rw [phase]; rfl) (reports _ _ rfl) rfl
  | evaluate p' => exact goes p'.goesOn rfl rfl rfl
  | call p' =>
    obtain ⟨unasked, decided, rfl⟩ := p.posed.of_goesOn p'.goesOn
    exact .calling _ _ rfl ⟨_, _, rfl⟩ unasked decided
  | done p' index r quiet =>
    rcases quiet with rfl | ⟨_, _, rfl⟩ <;> exact goes p'.goesOn rfl rfl rfl
  | report p' | offer p' => exact reported p'.goesOn (reports _ _ rfl) rfl
  | again phase =>
    rcases phase with phase | ⟨phase, asked⟩
    · obtain ⟨-, decided, rfl⟩ := p.posed.of_goesOn (by rw [phase]; rfl)
      exact .going rfl rfl rfl rfl decided
    · obtain ⟨count, -, rfl⟩ := p.posed.of_pausing (.inr (.inr phase))
      rw [asked] at count
      exact .going rfl rfl rfl rfl fun offers => fair.decided offers (by rw [count]; decide)
  | pause phase unasked =>
    obtain ⟨count, waits, rfl⟩ := p.posed.of_pausing (.inr (.inr phase))
    rw [unasked] at count
    exact .resting 0 rfl rfl (Nat.zero_le _) fun _ => ⟨count, waits⟩
  | halt phase =>
    obtain ⟨out, rfl⟩ := p.posed.of_ending (.inl phase)
    exact .resting 0 rfl rfl (Nat.zero_le _) fun inside => by simp [out] at inside
  | wait phase =>
    obtain ⟨count, waits, rfl⟩ := p.posed.of_pausing (phase.elim .inl (.inr ∘ .inl))
    exact .pausing rfl (.inr (.inr rfl)) count waits
  | halted x phase =>
    obtain ⟨out, rfl⟩ := p.posed.of_ending (.inr ⟨x, phase⟩)
    exact .ending rfl (.inl rfl) out
  | still phase =>
    have busy := p.posed.busy
    rcases phase with phase | ⟨_, phase⟩ | ⟨_, _, phase⟩
    all_goals simp [phase, Engine.Phase.turns] at busy

/-- The engine takes its turn. -/
theorem Poses.turned {key : HostKey} {r : Request} (p : Poses t e (.turn :: a)) (fair : t.Fair)
    (reads : e.Reads script (.host key)) (d : Turned (.host key) e e' r)
    (reports : ∀ l event, r = .report l event → ∃ use, e'.phase = .reported use ∧
      use.takes event = true) :
    Poses (t.note (.did .turn) r.event?) e' (requested r ++ a) := by
  have outside (out : e.node = none) : t.offers = false := by
    simp [Talk.offers, p.ended out]
  have silent {event : Event} {use : Engine.Use} (phase : e'.phase = .reported use)
      (other : use ≠ .choice) (reports : ∃ use, e'.phase = .reported use ∧
        use.takes event = true) : (t.note (.did .turn) (some event)).offers = false := by
    obtain ⟨use', phase', takes⟩ := reports
    rw [phase] at phase'
    cases phase'
    rw [Talk.offers_of_last rfl .dialogue, Engine.Use.offers_of_takes takes]
    simpa using other
  have entered (inside : e.node.isSome = true) {t' : Talk} :
      e.node = none → t'.last = some .dialogueEnd := by
    intro out
    rw [out] at inside
    cases inside
  have unchosen {t' : Talk} (free : e'.choices = none) :
      e'.choices.isSome = true → t'.offers = true ∧ t'.choices = e'.selected.toList := by
    intro waiting
    rw [free] at waiting
    cases waiting
  have posed := p.posed_turned fair d reports
  cases d with
  | outside phase out =>
    exact ⟨posed, fun offers => (by cases (outside out).symm.trans offers), p.waiting, p.ended⟩
  | halt phase =>
    have out := (p.posed.of_ending (.inl phase)).1
    exact ⟨posed, fun offers => (by cases (outside out).symm.trans offers), p.waiting, p.ended⟩
  | halted x phase =>
    have out := (p.posed.of_ending (.inr ⟨x, phase⟩)).1
    exact ⟨posed, fun offers => (by cases (outside out).symm.trans offers), p.waiting, p.ended⟩
  | undecided phase inside waiting => exact ⟨posed, fun _ _ => waiting, p.waiting, p.ended⟩
  | chosen => exact ⟨posed, fun _ goesOn => (by cases goesOn), unchosen rfl, p.ended⟩
  | depart phase inside =>
    have offers := silent rfl (by simp) (reports _ _ rfl)
    exact ⟨posed, fun offers' => (by cases offers.symm.trans offers'), unchosen rfl,
      entered inside⟩
  | begin phase node inside free =>
    exact ⟨posed, fun offers => (by cases offers), unchosen free, entered (by simp [inside])⟩
  | evaluate | call | again | next =>
    exact ⟨posed, fun _ goesOn => (by cases goesOn), p.waiting, p.ended⟩
  | done p' index r quiet =>
    rcases quiet with rfl | ⟨_, _, rfl⟩
    all_goals exact ⟨posed, fun _ goesOn => (by cases goesOn), p.waiting, p.ended⟩
  | report p' index event use plain =>
    obtain ⟨inside, -, free⟩ := reads.performing p'
    have other : use ≠ .choice := by
      rintro rfl
      simp at plain
    have offers := silent rfl other (reports _ _ rfl)
    exact ⟨posed, fun offers' => (by cases offers.symm.trans offers'), unchosen free,
      entered inside⟩
  | offer p' index event destinations =>
    obtain ⟨use, phase, takes⟩ := reports _ _ rfl
    cases phase
    have offers : (t.note (.did .turn) (some event)).offers = true := by
      rw [Talk.offers_of_last rfl .dialogue, Engine.Use.offers_of_takes takes]
      rfl
    exact ⟨posed, fun _ _ => rfl, fun _ => ⟨offers, rfl⟩, entered (reads.performing p').1⟩
  | pause phase =>
    exact ⟨posed, fun offers _ => p.offered offers (by rw [phase]; rfl), p.waiting, p.ended⟩
  | wait phase =>
    refine ⟨posed, fun offers _ => p.offered offers ?_, p.waiting, p.ended⟩
    rcases phase with phase | ⟨x, phase⟩
    all_goals
      rw [phase]
      rfl
  | enter => exact ⟨posed, fun _ goesOn => (by cases goesOn), p.waiting, fun out => by cases out⟩
  | closed x phase =>
    exact ⟨posed, fun offers => (by cases offers), unchosen rfl, fun _ => rfl⟩
  | still phase => exact ⟨posed, p.offered, p.waiting, p.ended⟩

/-- The engine is asked to go on, which it does or notes. -/
theorem Poses.went {c : Cause} (p : Poses t e (.continueEngine c :: a)) (fair : t.Fair) :
    Poses t e.continue?.1 ((if e.continue?.2 then [.turn] else []) ++ a) := by
  obtain ⟨posed, offered, waiting, ended⟩ := p
  have once := fair.once
  cases posed with
  | resting n left phase few quiet =>
    obtain _ | n := n
    · cases left
    obtain rfl : n = 0 := by omega
    obtain rfl : a = [] := (List.cons.inj left).2
    rw [e.continue?_of_idle phase]
    exact ⟨.going rfl rfl rfl rfl fun offers => fair.decided offers (by omega),
      fun _ goesOn => (by cases goesOn), waiting, ended⟩
  | telling n key event left use phase last takes count =>
    obtain _ | n := n
    · cases left
    obtain ⟨rfl, unasked⟩ : n = 0 ∧ e.resumeRequested.toNat = 0 := by omega
    obtain rfl : a = [.ask key event] := (List.cons.inj left).2
    rw [e.continue?_of_reported phase]
    refine ⟨.telling 0 key event rfl use phase last takes ?_, offered, waiting, ended⟩
    rw [count, unasked]
    rfl
  | calling key args left => cases left
  | going left => cases left
  | pausing left => cases left
  | ending left => cases left

/-- Whenever the engine is asked to go on, it is idle or waits for an answer. -/
theorem Posed.of_continue {c : Cause} (p : Posed t e (.continueEngine c :: a)) :
    e.phase = .idle ∨ ∃ use, e.phase = .reported use := by
  cases p with
  | resting n left phase => exact .inl phase
  | telling n key event left use phase => exact .inr ⟨use, phase⟩
  | calling key args left => cases left
  | going left => cases left
  | pausing left => cases left
  | ending left => cases left

/-- Whenever a listener is asked, the engine waits for the answer, and nothing else is left. -/
theorem Posed.of_ask {key : HostKey} {event : Event} (p : Posed t e (.ask key event :: a)) :
    a = [] ∧ t.last = some event ∧ t.continues = e.resumeRequested.toNat ∧
      ∃ use, e.phase = .reported use ∧ use.takes event = true := by
  cases p with
  | telling n key' event' left use phase last takes count =>
    obtain _ | n := n
    · obtain ⟨same, rfl⟩ := List.cons.inj left
      cases same
      rw [Nat.zero_add] at count
      exact ⟨rfl, last, count, use, phase, takes⟩
    · cases left
  | resting n left => cases n <;> cases left
  | calling key args left => cases left
  | going left => cases left
  | pausing left => cases left
  | ending left => cases left

/-- Whenever a function is called, the engine waits for the value, and nothing else is left. -/
theorem Posed.of_invoke {key : HostKey} {args : List Value} {c : Caller}
    (p : Posed t e (.invoke key args c :: a)) :
    a = [] ∧ (∃ purpose stack, e.phase = .calling purpose stack) ∧ e.resumeRequested = false ∧
      (t.offers = true → t.choices ≠ []) := by
  cases p with
  | calling key args left phase unasked decided =>
    exact ⟨(List.cons.inj left).2, phase, unasked, decided⟩
  | resting n left => cases n <;> cases left
  | telling n key event left => cases n <;> cases left
  | going left => cases left
  | pausing left => cases left
  | ending left => cases left

theorem Posed.of_free (p : Posed t e a) (free : Free a) :
    (∃ n, a = List.replicate n (.continueEngine .host) ∧ e.phase = .idle ∧ n ≤ t.continues ∧
      (e.node.isSome = true → t.continues = n ∧ ∀ event ∈ t.last, event.waits = true)) ∨
    ∃ n key event, a = List.replicate n (.continueEngine .host) ++ [.ask key event] ∧
      ∃ use, e.phase = .reported use ∧ t.last = some event ∧ use.takes event = true ∧
        t.continues = n + e.resumeRequested.toNat := by
  cases p with
  | resting n left phase few quiet => exact .inl ⟨n, left, phase, few, quiet⟩
  | telling n key event left use phase last takes count =>
    exact .inr ⟨n, key, event, left, use, phase, last, takes, count⟩
  | calling key args left =>
    subst left
    obtain ⟨_, _, same⟩ := free _ rfl
    cases same
  | going left | pausing left | ending left =>
    subst left
    obtain ⟨_, _, same⟩ := free _ rfl
    cases same

/-- The host asks the engine to go on. -/
theorem Poses.asked (p : Poses t e a) (free : Free a) :
    Poses (t.note (.call .continueEngine) none) e (.continueEngine .host :: a) := by
  obtain ⟨posed, offered, waiting, ended⟩ := p
  refine ⟨?_, offered, waiting, ended⟩
  rcases posed.of_free free with ⟨n, rfl, phase, few, quiet⟩ |
    ⟨n, key, event, rfl, use, phase, last, takes, count⟩
  · refine .resting (n + 1) rfl phase (Nat.succ_le_succ few) fun inside => ?_
    obtain ⟨count, waits⟩ := quiet inside
    exact ⟨congrArg (· + 1) count, waits⟩
  · refine .telling (n + 1) key event rfl use phase last takes ?_
    simp only [Talk.note]
    omega

/-- The host makes the choice. -/
theorem Poses.chose {id : OptionId} (p : Poses t e a) (may : t.MayChoose id) (free : Free a) :
    Poses (t.note (.call (.chooseOption id)) none) (e.choose id).1 a := by
  obtain ⟨posed, offered, waiting, ended⟩ := p
  obtain ⟨unchosen, set, last, -⟩ := may
  have offers : t.offers = true := by simp [Talk.offers, last]
  have still : e.phase.goesOn = false := by
    rcases posed.of_free free with ⟨_, -, phase, -⟩ | ⟨_, _, _, -, _, phase, -⟩
    all_goals
      rw [phase]
      rfl
  have open_ := offered offers still
  rw [show (e.choose id).1 = { e with selected := some id } by simp [Engine.choose, open_]]
  refine ⟨?_, offered, fun _ => ⟨offers, congrArg _ unchosen⟩, ended⟩
  rcases posed.of_free free with ⟨n, rfl, phase, few, quiet⟩ |
    ⟨n, key, event, rfl, use, phase, last, takes, count⟩
  · exact .resting n rfl phase few quiet
  · exact .telling n key event rfl use phase last takes count

/-- The listener answers an event. -/
theorem Poses.heard {w : World} {key k : HostKey} {event : Event} {x : NextAction}
    (p : Poses t e (.ask key event :: a)) (suits : Suits w t (.ask key event) (.action x))
    (fair : t.Fair) (reads : e.Reads script (.host k)) : Poses t (e.hear x) (.turn :: a) := by
  obtain ⟨posed, offered, waiting, ended⟩ := p
  obtain ⟨rfl, last, count, use, phase, takes⟩ := posed.of_ask
  have still : e.phase.goesOn = false := by
    rw [phase]
    rfl
  rw [e.hear_of_reported phase]
  have unasked (none : t.continues = 0) : e.resumeRequested = false := by
    rw [none] at count
    simpa using count.symm
  have unoffered (other : use ≠ .choice) : t.offers = true → t.choices ≠ [] := by
    rw [Talk.offers_of_last last .dialogue, Engine.Use.offers_of_takes takes]
    simp [other]
  have unchanged {use : Engine.Use} {x : NextAction}
      (posed : Posed t { e with phase := .heard use x } [.turn]) :
      Poses t { e with phase := .heard use x } [.turn] :=
    ⟨posed, fun open_ _ => offered open_ still, waiting, ended⟩
  refine unchanged ?_
  cases use with
  | plain =>
    cases x with
    | next =>
      refine .going rfl rfl rfl (unasked ?_) (unoffered (by simp))
      cases event with
      | line => cases suits
      | command => exact suits.elim id fun same => by cases same
      | nodeStart node => exact fair.silent node (.inl last)
      | options | nodeEnd | dialogueEnd => cases takes
    | wait =>
      refine .pausing rfl (.inl rfl) count ?_
      rw [last]
      rintro _ ⟨⟩
      cases event with
      | line | command => rfl
      | nodeStart => cases suits
      | options | nodeEnd | dialogueEnd => cases takes
  | choice =>
    cases event with
    | options set =>
      cases suits
      exact .pausing rfl (.inr (.inl rfl)) count (by simp [last, Event.waits])
    | line | command | nodeStart | nodeEnd | dialogueEnd => cases takes
  | leave | close =>
    cases event with
    | nodeEnd node =>
      exact .going rfl rfl rfl (unasked (fair.silent node (.inr last))) (unoffered (by simp))
    | line | command | nodeStart | options | dialogueEnd => cases takes
  | halt => exact .ending rfl (.inr ⟨x, rfl⟩) (reads.of_phase phase).2

/-- A function answers. -/
theorem Poses.received {key : HostKey} {args : List Value}
    (p : Poses t e (.invoke key args .engine :: a)) (v : Value) :
    Poses t (e.receive v) (.turn :: a) := by
  obtain ⟨posed, offered, waiting, ended⟩ := p
  obtain ⟨rfl, ⟨purpose, stack, phase⟩, unasked, decided⟩ := posed.of_invoke
  rw [e.receive_of_calling phase]
  exact ⟨.going rfl rfl rfl unasked decided, fun _ goesOn => (by cases goesOn), waiting, ended⟩

end

end Session

end Prompter

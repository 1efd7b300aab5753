import Prompter.Proofs.Engine.Polling
import Prompter.Proofs.Session.Engagement
import Prompter.Proofs.Session.Handles

/-!
# Prompter.Proofs.Session.Attendance

The engine of a session whose host may make requests from inside its functions.

The host starts and stops the dialogue between its calls (`Considerate`), and may do everything else
at any time, also while a function of the engine's is being called. The engine is then `Attended`:
what it waits for is on the agenda, although other things may be on top of it. Most of what happens
leaves the offer and the choices of the dialogue alone and does to the engine what others can do to
it (`Attended.nudged`, `Happens.books`, `Happens.votes`). Only few marks are `decisive`.
-/

namespace Prompter

namespace Engine.Coherent

variable {e : Engine}

/-- A request to go on is only noted while a function is called. -/
theorem continue?_of_calling (c : e.Coherent) {purpose : Engine.Purpose}
    {stack : List Engine.Frame} (calling : e.phase = .calling purpose stack) :
    e.continue?.1.Coherent ∧ e.continue?.1.phase = e.phase ∧ e.continue?.2 = false := by
  have running : e.isRunning = true := by simp [Engine.isRunning, calling]
  have noted : e.continue? = ({ e with resumeRequested := true }, false) := if_pos running
  rw [noted]
  refine ⟨⟨c.listener, c.fresh, ?_⟩, rfl, rfl⟩
  dsimp only
  rw [calling]
  exact c.fits_of_phase calling

end Engine.Coherent

/-- Whether an item opens a choice, makes it or ends the dialogue. -/
def Item.isVote : Item → Bool
  | .hear .engine (.options _) | .hear .engine .dialogueEnd | .hear .host _ => true
  | .chooseOption _ _ | .finish => true
  | _ => false

namespace Session

open Engine (Phase)

/-- The host starts and stops the dialogue only while nothing is under way. The engine is left to
the dialogue and is the only source of events. -/
def Considerate (s : Session) (_ : History) (c : Call) : Prop :=
  c.leavesEngine = true ∧
    match c with
    | .start _ | .stop => s.agenda = []
    | .deliver _ => False
    | _ => True

/-- Whether options may come or go by a mark. -/
def Mark.isDecisive : Mark → Bool
  | .did .turn | .did (.chooseOption _ _) | .did .finish => true
  | .did (.hear _ (.options _)) | .did (.hear _ .dialogueEnd) => true
  | .call (.start _) | .call .stop | .call (.select _ _) | .call (.deliver _) => true
  | _ => false

/-- What the engine finds out when something happens. It takes its turn when the turn is off the
agenda. -/
def found? (s : Session) : Mark → Option Finding
  | .did .turn =>
    match s.engine with
    | .script e => e.phase.finds ({ s with agenda := s.agenda.tail }.surroundings e)
    | _ => none
  | .answer (.value v) =>
    match s.agenda with
    | .invoke _ _ .engine :: _ => some (.returned v)
    | _ => none
  | _ => none

/-! ### The engine and the agenda -/

/-- A function that the engine has called has not returned yet. -/
def IsCalling (a : List Item) (p : Phase) : Prop :=
  (∃ purpose stack, p = .calling purpose stack) ∧
    ∃ key args, a.filter Item.ofEngine = [.invoke key args .engine]

/-- What the engine waits for is on the agenda. -/
structure Attended (s : Session) (e : Engine) : Prop where
  engine : s.engine = .script e
  held : s.held = true
  coherent : e.Coherent
  serves : Engages s.agenda e.phase ∨ IsCalling s.agenda e.phase

section

variable {s s' : Session} {e e' : Engine} {m : Mark} {a a' : List Item} {h : History}

/-- While a function is called, all but its return leaves the engine as it is. -/
theorem IsCalling.moved (calling : IsCalling a e.phase) (c : e.Coherent) (d : Drive e m a e' a')
    (uncalled : ∀ c, m ≠ .call c) :
    e'.Coherent ∧ (Engages a' e'.phase ∨ IsCalling a' e'.phase) := by
  obtain ⟨⟨purpose, stack, phase⟩, key, args, only⟩ := calling
  cases d with
  | quiet free same =>
    exact ⟨c, .inr ⟨⟨purpose, stack, phase⟩, key, args, same.trans only⟩⟩
  | turn around hl rest =>
    rw [List.filter_cons_of_pos rfl] at only
    cases (List.cons.inj only).1
  | continue_ x rest =>
    obtain ⟨coherent, same, idle⟩ := c.continue?_of_calling phase
    refine ⟨coherent, .inr ⟨⟨purpose, stack, same.trans phase⟩, key, args, ?_⟩⟩
    rw [idle]
    exact only
  | choose n id =>
    refine ⟨c.choose id, .inr ⟨⟨purpose, stack, ?_⟩, key, args, only⟩⟩
    obtain ⟨choice, same⟩ := e.choose_eq id
    rw [same]
    exact phase
  | answering i _ _ _ hi | heard i _ _ hi =>
    rw [List.filter_cons_of_pos (ofEngine_of_answersEngine hi)] at only
    obtain ⟨rfl, -⟩ := List.cons.inj only
    cases hi
  | place | bind | stop => exact absurd rfl (uncalled _)
  | receive v key' args' rest =>
    rw [List.filter_cons_of_pos rfl] at only
    obtain ⟨-, clean⟩ := List.cons.inj only
    refine ⟨c.receive v, .inl ?_⟩
    rw [e.receive_of_calling phase]
    exact ⟨rest, rfl, clean⟩

namespace Attended

variable (at_ : Attended s e)

include at_

/-- With nothing left to do, the engine is idle. -/
theorem idle_of_done (done : s.agenda = []) : e.phase = .idle := by
  rcases at_.serves with engages | ⟨-, key, args, only⟩
  · rw [done] at engages
    exact engages.idle_of_done
  · rw [done] at only
    cases only

/-- With nothing left to do, the engine is not in the middle of anything. -/
theorem engages_of_done (done : s.agenda = []) : Engages s.agenda e.phase := by
  rw [at_.idle_of_done done, done]
  rfl

/-- No listener of the host is asked about anything. -/
theorem unasked (key : HostKey) (event : Event) : .ask key event ∉ s.agenda := by
  intro hm
  rcases at_.serves with engages | ⟨-, key', args, only⟩
  · exact engages.unasked key event hm
  · have part : Item.ask key event ∈ s.agenda.filter Item.ofEngine := List.mem_filter.2 ⟨hm, rfl⟩
    rw [only, List.mem_singleton] at part
    cases part

/-- A function that returns is one that has been called. -/
theorem of_invoke {key : HostKey} {args : List Value} {rest : List Item}
    (top : s.agenda = .invoke key args .engine :: rest) :
    ∃ purpose stack, e.phase = .calling purpose stack := by
  rcases at_.serves with engages | ⟨calling, -⟩
  · rw [top] at engages
    exact engages.of_invoke.2
  · exact calling

/-- An engine that has its turn does not wait for a function. -/
theorem of_turn {rest : List Item} (top : s.agenda = .turn :: rest) (purpose : Engine.Purpose)
    (stack : List Engine.Frame) : e.phase ≠ .calling purpose stack := by
  rcases at_.serves with engages | ⟨-, key, args, only⟩
  · rw [top] at engages
    exact engages.of_turn.2.2.2 purpose stack
  · rw [top, List.filter_cons_of_pos rfl] at only
    cases (List.cons.inj only).1

/-- Where the host has the word, the engine yields, or a function of its own is being called. -/
theorem word_cases (word : s.awaitsHost = true) :
    Engages s.agenda e.phase ∧ (∀ i ∈ s.agenda.head?, i.holdsEngine = false) ∨
      IsCalling s.agenda e.phase := by
  rcases at_.serves with engages | calling
  · by_cases free : ∀ i ∈ s.agenda.head?, i.holdsEngine = false
    · exact .inl ⟨engages, free⟩
    · obtain ⟨i, hi, held⟩ : ∃ i ∈ s.agenda.head?, i.holdsEngine = true := by
        simpa using free
      obtain ⟨rest, top⟩ : ∃ rest, s.agenda = i :: rest := List.head?_eq_some_iff.1 hi
      have calls := callsHost_of_awaitsHost word i hi
      cases i with
      | invoke key args caller =>
        cases caller with
        | host => cases held
        | engine =>
          rw [top] at engages
          obtain ⟨clean, calling⟩ := engages.of_invoke
          refine .inr ⟨calling, key, args, ?_⟩
          rw [top, List.filter_cons_of_pos rfl, clean]
      | turn => cases calls
      | _ => cases held
  · exact .inr calling

/-- What is left of a session after a turn of the engine. -/
theorem turned (happens : Happens s (.did .turn) s') :
    ∃ (rest : List Item) (around : Engine.Surroundings), s.agenda = .turn :: rest ∧
      around = { s with agenda := rest }.surroundings e ∧ around.listener = some .dialogue ∧
      s'.engine = .script (e.turn around).1 ∧ s'.dialogue = s.dialogue ∧
      s'.agenda = requested (e.turn around).2.1 ++ rest := by
  obtain ⟨rest, top, rfl⟩ := happens.top
  obtain ⟨storage, shape⟩ := turn_shape (s := { s with agenda := rest }) at_.engine
  have listens := listener_surroundings (s := { s with agenda := rest }) at_.held
    at_.coherent.listener
  refine ⟨rest, _, top, rfl, listens, ?_⟩
  have done : ({ s with agenda := rest }.work .turn).1 = _ := shape
  rw [done]
  exact ⟨rfl, rfl, rfl⟩

/-- The engine makes a move, or is left aside by a request. -/
theorem next (happens : Happens s m s') (considerate : ∀ c, m = .call c → Considerate s h c)
    (known : ∀ name k use, .afterCall name k use ∈ s.agenda → k < s.handles.length) :
    ∃ e', Attended s' e' ∧
      (Drive e m s.agenda e' s'.agenda ∨ e' = e ∧ ∃ c, m = .call c ∧ Apart s s') := by
  have moved (d : Drives e m s.agenda s') (calls : (∃ c, m = .call c) → Engages s.agenda e.phase) :
      ∃ e', Attended s' e' ∧ Drive e m s.agenda e' s'.agenda := by
    obtain ⟨e', engine, held, d⟩ := d
    refine ⟨e', ?_, d⟩
    rcases at_.serves with engages | calling
    · exact ⟨engine, held, d.coherent at_.coherent engages, .inl (d.engages at_.coherent engages)⟩
    · by_cases called : ∃ c, m = .call c
      · have engages := calls called
        exact ⟨engine, held, d.coherent at_.coherent engages,
          .inl (d.engages at_.coherent engages)⟩
      · obtain ⟨coherent, serves⟩ := calling.moved at_.coherent d fun c hc => called ⟨c, hc⟩
        exact ⟨engine, held, coherent, serves⟩
  cases happens with
  | @work busy i rest top =>
    have own : i.callsHost = false := by
      unfold awaitsHost at busy
      cases i <;> simp [top] at busy <;> rfl
    have handled (name : String) (k : Nat) (use : OutcomeUse) (hi : i = .afterCall name k use) :
        s.handles[k]?.isSome = true := by
      subst hi
      simpa using known name k use (top ▸ List.mem_cons_self)
    have d := work_drives (s := { s with agenda := rest }) at_.engine at_.held
      at_.coherent.listener i own handled
    rw [← step_eq_work busy top, ← top] at d
    obtain ⟨e', at', d⟩ := moved d nofun
    exact ⟨e', at', .inl d⟩
  | answer x fits =>
    obtain ⟨e', at', d⟩ := moved (answer_drives at_.engine at_.held x fits at_.unasked) nofun
    exact ⟨e', at', .inl d⟩
  | call word c =>
    obtain ⟨left, fits⟩ := considerate c rfl
    by_cases outer : (∃ n, c = .start n) ∨ c = .stop
    · have done : s.agenda = [] := by
        rcases outer with ⟨n, rfl⟩ | rfl <;> exact fits
      have d := call_drives at_.engine at_.held c left (by simp [done])
      obtain ⟨e', at', d⟩ := moved d fun _ => at_.engages_of_done done
      exact ⟨e', at', .inl d⟩
    · have apart := (call_requests s c).apart left (fun n same => outer (.inl ⟨n, same⟩))
        fun same => outer (.inr same)
      obtain ⟨items, others, agenda⟩ := apart.puts
      have same : (s.call c).1.agenda.filter Item.ofEngine = s.agenda.filter Item.ofEngine := by
        rw [agenda, List.filter_append, filter_of_others others, List.nil_append]
      have serves :
          Engages (s.call c).1.agenda e.phase ∨ IsCalling (s.call c).1.agenda e.phase := by
        rcases at_.word_cases word with ⟨engages, free⟩ | ⟨calling, key, args, only⟩
        · exact .inl (engages.congr (engages.yields free) same)
        · exact .inr ⟨calling, key, args, same.trans only⟩
      exact ⟨e, ⟨apart.engine.trans at_.engine, apart.held.trans at_.held, at_.coherent, serves⟩,
        .inr ⟨rfl, c, rfl, apart⟩⟩

end Attended

/-- What happens without deciding anything is what others can do to the engine. -/
theorem Attended.nudged (at_ : Attended s e) (happens : Happens s m s')
    (considerate : ∀ c, m = .call c → Considerate s h c)
    (known : ∀ name k use, .afterCall name k use ∈ s.agenda → k < s.handles.length)
    (quiet : m.isDecisive = false) : ∃ e', Attended s' e' ∧ e.Nudged e' (s.found? m) := by
  have silent (returns : ∀ v key args rest, m = .answer (.value v) →
      s.agenda ≠ .invoke key args .engine :: rest) : s.found? m = none := by
    unfold found?
    split
    · cases quiet
    · split
      · next top => exact absurd top (returns _ _ _ _ rfl)
      · rfl
    · rfl
  obtain ⟨e', at', d | ⟨rfl, c, rfl, -⟩⟩ := at_.next happens considerate known
  · refine ⟨e', at', ?_⟩
    generalize top : s.agenda = a at d silent
    generalize s'.agenda = a' at d
    cases d with
    | quiet free =>
      have uncalled (v : Value) (key : HostKey) (args : List Value) (rest : List Item)
          (_ : m = .answer (.value v)) : a ≠ .invoke key args .engine :: rest := by
        rintro rfl
        cases free _ rfl
      rw [silent uncalled]
      exact .same
    | turn | choose | place | bind | stop => cases quiet
    | continue_ => exact .continued
    | answering i =>
      rw [silent nofun]
      exact .same
    | heard i x =>
      rw [silent nofun]
      exact .heard x
    | receive v key args rest =>
      obtain ⟨purpose, stack, calling⟩ := at_.of_invoke top
      simp only [found?, top]
      exact .received calling v
  · exact ⟨_, at', .same⟩

/-! ### Books and votes -/

/-- What happens without deciding anything keeps the offer. -/
theorem Happens.books (happens : Happens s m s') (quiet : m.isDecisive = false) :
    s'.dialogue.offer = s.dialogue.offer ∧ s'.dialogue.offerSerial = s.dialogue.offerSerial ∧
      s'.dialogue.running = s.dialogue.running := by
  obtain ⟨rest, special, takes, change, -⟩ := happens.move
  replace change : Change s.dialogue s.handles m s'.dialogue s'.handles special := change
  generalize s'.dialogue = d' at change ⊢
  generalize s'.handles = hs' at change
  cases change with
  | opened | finish | offer | choose | echo => cases quiet
  | _ => exact ⟨rfl, rfl, rfl⟩

/-- What happens without deciding anything puts no votes on the agenda. -/
theorem Happens.votes (happens : Happens s m s') (quiet : m.isDecisive = false) {i : Item}
    (hi : i ∈ s'.agenda) (vote : i.isVote = true) : i ∈ s.agenda := by
  rcases happens.posts.origin hi with old | aside | origin
  · exact old
  · -- only choices are put aside, and only when an option is selected
    obtain ⟨n, id, rfl⟩ : ∃ n id, i = .chooseOption n id := by
      unfold Item.isVote at vote
      split at vote
      · cases aside
      · cases aside
      · cases aside
      · exact ⟨_, _, rfl⟩
      · cases aside
      · cases vote
    obtain ⟨rest, special, takes, change, puts, -⟩ := happens.move
    replace change : Change s.dialogue s.handles m s'.dialogue s'.handles special := change
    rcases (puts.mem_iff rfl).1 hi with hi | hi
    · generalize s'.dialogue = d' at change
      generalize s'.handles = hs' at change
      cases change with
      | choose | echo => cases quiet
      | last | resumed =>
        obtain ⟨k, -, same⟩ := mem_resumption.1 hi
        cases same
      | _ => simp at hi
    · exact takes.mem hi
  · cases origin with
    | stopping | deliver | report | dialogueEnd => cases quiet
    | _ => cases vote

end

end Session

end Prompter

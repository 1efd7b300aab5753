import Prompter.Proofs.Session.LateResume
import Prompter.Proofs.Session.Stake

/-!
# Prompter.Proofs.Session.Baton

The one thing that keeps a running dialogue going.

There is one stake in all while the dialogue is running (`Baton.total`): with the engine, on the
agenda, or in the books of the dialogue. While it is on the agenda, the agenda holds what the engine
expects, and nothing else of the engine's (`Expects`). Whatever happens, the baton is kept if it
does not concern the engine (`Baton.passes`), or if the engine goes on from the item that is done
(`Baton.steered`); both come from what has to be shown of any mark (`Baton.moved`).
-/

namespace Prompter

/-- Whether an item is the next part of an answer that is put to a use. -/
def Engine.Use.awaits : Use → Item → Bool
  | use, .hear .engine event => use.takes event
  | .plain, .conclude .engine _ | .plain, .afterCall _ _ (.event .engine) => true
  | .plain, .outcome _ _ (.event .engine) | .choice, .conclude .engine .wait => true
  | .leave _ _, .conclude .engine .next | .close, .conclude .engine .next => true
  | _, _ => false

/-- Whether an item opens a choice or makes it. -/
def Item.isChoice : Item → Bool
  | .hear .engine (.options _) | .chooseOption _ _ => true
  | _ => false

namespace Session

open Engine (Use Turned)

variable {s₀ s s' : Session} {h : History} {m : Mark} {e e' : Engine} {a a' rest : List Item}
  {i : Item}

/-! ### The engine and the agenda -/

/-- The agenda holds what an engine expects. -/
def Expects (e : Engine) (a : List Item) : Prop :=
  match e.phase with
  | .idle => a.filter Item.ofEngine = [] ∧ e.resumeRequested = false
  | .reported use => ∃ i, a.filter Item.ofEngine = [i] ∧ use.awaits i = true
  | .calling _ _ => ∃ key args, a.filter Item.ofEngine = [.invoke key args .engine]
  | phase => phase.turns = true ∧ ∃ rest, a = .turn :: rest ∧ rest.filter Item.ofEngine = []

section

theorem ofEngine_of_awaits {use : Use} (awaits : use.awaits i = true) : i.ofEngine = true := by
  unfold Use.awaits at awaits
  split at awaits <;> first | rfl | cases awaits

/-- What an engine that does not have its turn expects does not depend on the rest of the agenda. -/
theorem Expects.congr (x : Expects e a) (free : .turn ∉ a.head?)
    (same : a'.filter Item.ofEngine = a.filter Item.ofEngine) : Expects e a' := by
  unfold Expects at x ⊢
  cases phase : e.phase with
  | idle | reported | calling =>
    rw [phase] at x
    dsimp only at x ⊢
    rwa [same]
  | step | settle | evaluate | heard =>
    rw [phase] at x
    obtain ⟨-, rest, rfl, -⟩ := x
    exact absurd rfl free

theorem expects_of_turns (turns : e.phase.turns = true) (clean : rest.filter Item.ofEngine = []) :
    Expects e (.turn :: rest) := by
  unfold Expects
  cases phase : e.phase with
  | idle | reported | calling =>
    rw [phase] at turns
    cases turns
  | step | settle | evaluate | heard => exact ⟨phase ▸ turns, rest, rfl, clean⟩

/-- What is first on the agenda, if it is of the engine's run, is what the engine expects. -/
theorem Expects.of_head (x : Expects e (i :: rest)) (part : i.ofEngine = true) :
    rest.filter Item.ofEngine = [] ∧
      ((i = .turn ∧ e.phase.turns = true) ∨
        (∃ use, e.phase = .reported use ∧ use.awaits i = true) ∨
        ∃ purpose stack key args, e.phase = .calling purpose stack ∧
          i = .invoke key args .engine) := by
  unfold Expects at x
  cases phase : e.phase with
  | idle =>
    rw [phase, List.filter_cons_of_pos part] at x
    cases x.1
  | reported use =>
    rw [phase, List.filter_cons_of_pos part] at x
    obtain ⟨j, same, awaits⟩ := x
    obtain ⟨rfl, clean⟩ := List.cons.inj same
    exact ⟨clean, .inr (.inl ⟨use, rfl, awaits⟩)⟩
  | calling purpose stack =>
    rw [phase, List.filter_cons_of_pos part] at x
    obtain ⟨key, args, same⟩ := x
    obtain ⟨rfl, clean⟩ := List.cons.inj same
    exact ⟨clean, .inr (.inr ⟨purpose, stack, key, args, rfl, rfl⟩)⟩
  | step | settle | evaluate | heard =>
    rw [phase] at x
    obtain ⟨turns, _, same, clean⟩ := x
    cases same
    exact ⟨clean, .inl ⟨rfl, turns⟩⟩

/-- An engine that has its turn is not about to halt. -/
theorem Expects.of_turn (x : Expects e (.turn :: rest)) :
    e.phase.turns = true ∧ rest.filter Item.ofEngine = [] := by
  obtain ⟨clean, ⟨-, turns⟩ | ⟨use, -, awaits⟩ | ⟨_, _, _, _, -, same⟩⟩ := x.of_head rfl
  · exact ⟨turns, clean⟩
  · cases use <;> cases awaits
  · cases same

/-- An engine whose event is being answered has reported it. -/
theorem Expects.of_answers (x : Expects e (i :: rest)) (answers : i.answersEngine = true) :
    ∃ use, e.phase = .reported use ∧ use.awaits i = true ∧ rest.filter Item.ofEngine = [] := by
  obtain ⟨clean, ⟨rfl, -⟩ | ⟨use, phase, awaits⟩ | ⟨_, _, _, _, -, rfl⟩⟩ :=
    x.of_head (ofEngine_of_answersEngine answers)
  · cases answers
  · exact ⟨use, phase, awaits, clean⟩
  · cases answers

/-- An engine that has called a function waits for its value. -/
theorem Expects.of_invoke {key : HostKey} {args : List Value}
    (x : Expects e (.invoke key args .engine :: rest)) :
    (∃ purpose stack, e.phase = .calling purpose stack) ∧ rest.filter Item.ofEngine = [] := by
  obtain ⟨clean, ⟨same, -⟩ | ⟨use, -, awaits⟩ | ⟨purpose, stack, _, _, phase, -⟩⟩ := x.of_head rfl
  · cases same
  · cases use <;> cases awaits
  · exact ⟨⟨purpose, stack, phase⟩, clean⟩

/-- No listener of the host is asked about anything. -/
theorem Expects.unasked {key : HostKey} {event : Event}
    (x : Expects e (.ask key event :: rest)) : False := by
  obtain ⟨-, ⟨same, -⟩ | ⟨use, -, awaits⟩ | ⟨_, _, _, _, -, same⟩⟩ := x.of_head rfl
  · cases same
  · cases use <;> cases awaits
  · cases same

/-- Only an engine that is idle, has reported something or has called a function leaves the agenda
to others. -/
theorem Expects.phase_cases (x : Expects e a) (free : .turn ∉ a.head?) :
    (e.phase = .idle ∧ e.resumeRequested = false) ∨ (∃ use, e.phase = .reported use) ∨
      ∃ purpose stack, e.phase = .calling purpose stack := by
  unfold Expects at x
  cases phase : e.phase with
  | idle =>
    rw [phase] at x
    exact .inl ⟨rfl, x.2⟩
  | reported use => exact .inr (.inl ⟨use, rfl⟩)
  | calling purpose stack => exact .inr (.inr ⟨purpose, stack, rfl⟩)
  | step | settle | evaluate | heard =>
    rw [phase] at x
    obtain ⟨-, _, rfl, -⟩ := x
    exact absurd rfl free

/-- With nothing left to do, the engine is idle. -/
theorem Expects.idle_of_done (x : Expects e []) : e.phase = .idle ∧ e.resumeRequested = false := by
  rcases x.phase_cases (by simp) with idle | ⟨use, phase⟩ | ⟨purpose, stack, phase⟩
  · exact idle
  · simp [Expects, phase] at x
  · simp [Expects, phase] at x

/-- After its turn the engine finds on the agenda what it has asked for. -/
theorem expects_of_leaves {r : Engine.Request} (t : Turned .dialogue e e' r) (leaves : r.leaves e')
    (clean : rest.filter Item.ofEngine = []) : Expects e' (requested r ++ rest) := by
  have reported {event : Event} (leaves : (Engine.Request.report .dialogue event).leaves e') :
      Expects e' (.hear .engine event :: rest) := by
    obtain ⟨use, phase, takes⟩ := leaves
    unfold Expects
    rw [phase]
    refine ⟨.hear .engine event, ?_, ?_⟩
    · rw [List.filter_cons_of_pos rfl, clean]
    · cases use <;> exact takes
  have again (turns : e'.phase.turns = true) : Expects e' (.turn :: rest) :=
    expects_of_turns turns clean
  have rests (idle : e'.phase = .idle ∧ e'.resumeRequested = false) : Expects e' rest := by
    unfold Expects
    rw [idle.1]
    exact ⟨clean, idle.2⟩
  cases t with
  | depart | begin | report | offer | closed => exact reported leaves
  | call p index purpose stack key args =>
    exact ⟨key, args, (List.filter_cons_of_pos rfl).trans (congrArg _ clean)⟩
  | done p index r quiet => rcases quiet with rfl | ⟨_, _, rfl⟩ <;> exact again leaves
  | pause | halt | still => exact rests leaves
  | outside | undecided | chosen | evaluate | again | next | wait | enter | halted =>
    exact again leaves

end

/-! ### The baton -/

/-- An item is on the agenda, or has been done. -/
def Seen (i : Item) (s : Session) (h : History) : Prop := i ∈ s.agenda ∨ .did i ∈ h

/-- An item has nothing to do with the engine, or is a part of the engine's run, or makes a
choice. -/
def Regular (hs : List (ResumeHandle Continuation)) (i : Item) : Prop :=
  i.isOutside = true ∨ LooksAside hs i ∨ i.ofEngine = true ∨ ∃ n id, i = .chooseOption n id

/-- What holds of a session with the engine `e` until its dialogue ends. -/
structure Baton (s : Session) (h : History) (e : Engine) : Prop where
  engine : s.engine = .script e
  held : s.held = true
  coherent : e.Coherent
  expects : Expects e s.agenda
  /-- A running dialogue is kept going by one thing. -/
  total : s.stake e = s.dialogue.running.toNat
  started : e.phase ≠ .idle → s.dialogue.running = true
  inside : s.dialogue.running = true → e.node.isSome = true ∨ e.phase = .reported .halt
  /-- The engine has a choice to make from the report of the options until it is told. -/
  choice : e.isUndecided.toNat = s.dialogue.offer.isSome.toNat + s.agenda.countP Item.isChoice
  front : ∀ n id, .chooseOption n id ∉ s.agenda.tail
  regular : ∀ i ∈ s.agenda, Regular s.handles i
  lines : ∀ k, s.dialogue.barrier.stored = some k → k.isCommand = false
  gone : s.dialogue.line = none → s.dialogue.lineSerial = 0 ∨
    Seen (.continueEngine (.line s.dialogue.lineSerial)) s h
  paused : ∀ (k : Nat) (x : ResumeHandle Continuation), s.handles[k]? = some x → x.holds = true →
    Seen (.outcome (some k) .pause (.event .engine)) s h

section

variable {items : List Item}

/-- What has been on the agenda is still there, unless it has been done. -/
theorem Seen.after (seen : Seen i s h) (work : i.callsHost = false) (takes : Takes m s.agenda rest)
    (agenda : s'.agenda = items ++ rest) : Seen i s' (m :: h) := by
  unfold Seen
  rw [agenda]
  rcases seen with waits | done
  · rcases takes.pending work waits with waits | rfl
    · exact .inl (List.mem_append_right items waits)
    · exact .inr List.mem_cons_self
  · exact .inr (List.mem_cons_of_mem m done)

theorem Regular.kept {hs hs' : List (ResumeHandle Continuation)} (regular : Regular hs i)
    (kept : ∀ (k : Nat) (x : ResumeHandle Continuation), hs[k]? = some x →
      ∃ x', hs'[k]? = some x' ∧ x'.continuation = x.continuation) : Regular hs' i := by
  rcases regular with outside | ⟨name, k, x, rfl, hx, aside⟩ | other
  · exact .inl outside
  · obtain ⟨x', hx', same⟩ := kept k x hx
    exact .inr (.inl ⟨name, k, x', rfl, hx', same ▸ aside⟩)
  · exact .inr (.inr other)

/-- Something happens that puts `items` on what is left of the agenda. -/
theorem Baton.moved (b : Baton s h e) (items : List Item) (takes : Takes m s.agenda rest)
    (keeps : Keeps s s') (engine : s'.engine = .script e') (coherent : e'.Coherent)
    (agenda : s'.agenda = items ++ rest) (expects : Expects e' (items ++ rest))
    (total : s'.booked + (owing items + owing rest) + e'.stake = s'.dialogue.running.toNat)
    (started : e'.phase ≠ .idle → s'.dialogue.running = true)
    (inside : s'.dialogue.running = true → e'.node.isSome = true ∨ e'.phase = .reported .halt)
    (choice : e'.isUndecided.toNat = s'.dialogue.offer.isSome.toNat +
      (items.countP Item.isChoice + rest.countP Item.isChoice))
    (front : ∀ n id, .chooseOption n id ∉ items.tail)
    (regular : ∀ i ∈ items, Regular s'.handles i) : Baton s' (m :: h) e' where
  engine := engine
  held := keeps.held.trans b.held
  coherent := coherent
  expects := agenda ▸ expects
  total := by rw [stake, agenda, owing_append, total]
  started := started
  inside := inside
  choice := by rw [agenda, List.countP_append, choice]
  front n id := by
    have others : ∀ i ∈ rest, i ≠ .chooseOption n id :=
      takes.forall_rest (fun i calls same => by subst same; cases calls)
        fun i hi same => b.front n id (same ▸ hi)
    rw [agenda]
    intro hm
    cases items with
    | nil => exact others _ (List.mem_of_mem_tail hm) rfl
    | cons j items =>
      rcases List.mem_append.1 hm with hm | hm
      · exact front n id hm
      · exact others _ hm rfl
  regular i hi := by
    rcases List.mem_append.1 (agenda ▸ hi) with hi | hi
    · exact regular i hi
    · exact (b.regular i (takes.mem hi)).kept keeps.kept
  lines k hk := (keeps.stored k hk).elim (b.lines k) id
  gone none := by
    obtain ⟨serial, past | asked⟩ := keeps.line none
    · rw [serial]
      exact (b.gone past).imp_right fun seen => seen.after rfl takes agenda
    · exact .inr (.inl asked)
  paused k x hx hold := by
    rcases keeps.holds k x hx hold with ⟨y, hy, held⟩ | pauses
    · exact (b.paused k y hy held).after rfl takes agenda
    · exact .inl pauses

theorem isChoice_of_isOutside (outside : i.isOutside = true) : i.isChoice = false := by
  unfold Item.isChoice
  split
  · cases outside
  · cases outside
  · rfl

theorem ofEngine_of_isOutside (outside : i.isOutside = true) : i.ofEngine = false := by
  cases i with
  | invoke key args caller =>
    cases caller with
    | engine => cases outside
    | host => rfl
  | conclude r x =>
    cases r with
    | engine => cases outside
    | host => rfl
  | outcome k o use =>
    cases use with
    | reply => rfl
    | event => cases outside
  | turn | ask | hear | afterCall | chooseOption | finish => cases outside
  | _ => rfl

/-- Something happens that does not concern the engine. -/
theorem Baton.passes (b : Baton s h e) (done : List Item) (takes : Takes m s.agenda rest)
    (agenda : s.agenda = done ++ rest)
    (others : ∀ i ∈ done, i.ofEngine = false ∧ i.isChoice = false) (free : .turn ∉ s.agenda.head?)
    (passes : Passes (owing done) { s with agenda := rest } s') : Baton s' (m :: h) e := by
  obtain ⟨items, outside, agenda', puts⟩ := passes.puts
  have aside : ∀ i ∈ items, i.ofEngine = false ∧ i.isChoice = false := by
    intro i hi
    rcases outside i hi with outside | ⟨name, k, x, rfl, -⟩
    · exact ⟨ofEngine_of_isOutside outside, isChoice_of_isOutside outside⟩
    · exact ⟨rfl, rfl⟩
  have none {items : List Item} (aside : ∀ i ∈ items, i.ofEngine = false ∧ i.isChoice = false) :
      items.countP Item.isChoice = 0 :=
    List.countP_eq_zero.2 fun i hi => by simp [(aside i hi).2]
  have total := b.total
  have choice := b.choice
  rw [agenda, List.countP_append, none others] at choice
  rw [stake, agenda, owing_append] at total
  refine b.moved items takes ⟨passes.held, passes.line, passes.stored, passes.kept, passes.holds⟩
    (passes.engine.trans b.engine) b.coherent agenda' ?_ ?_ ?_ ?_ ?_ ?_ ?_
  · refine b.expects.congr free ?_
    rw [agenda, List.filter_append, List.filter_append, filter_of_others fun i hi => (aside i hi).1,
      filter_of_others fun i hi => (others i hi).1]
  · rw [passes.running]
    have same : Session.booked { s with agenda := rest } = s.booked := rfl
    rw [same] at puts
    dsimp only
    omega
  · rw [passes.running]
    exact b.started
  · rw [passes.running]
    exact b.inside
  · rw [passes.offer, none aside]
    exact choice
  · intro n id hm
    have := (aside _ (List.mem_of_mem_tail hm)).2
    cases this
  · intro i hi
    exact (outside i hi).imp_right .inl

/-- Something is done that does not touch the books. -/
theorem Baton.steered (b : Baton s h e) (items : List Item) (top : s.agenda = i :: rest)
    (takes : Takes m s.agenda rest) (held : s'.held = s.held)
    (dialogue : s'.dialogue = s.dialogue) (handles : s'.handles = s.handles)
    (engine : s'.engine = .script e') (coherent : e'.Coherent)
    (agenda : s'.agenda = items ++ rest) (expects : Expects e' (items ++ rest))
    (same : owing items + e'.stake = i.stake + e.stake)
    (started : e'.phase ≠ .idle → s.dialogue.running = true)
    (inside : s.dialogue.running = true → e'.node.isSome = true ∨ e'.phase = .reported .halt)
    (choice : e'.isUndecided.toNat + i.isChoice.toNat =
      e.isUndecided.toNat + items.countP Item.isChoice)
    (front : ∀ n id, .chooseOption n id ∉ items.tail)
    (regular : ∀ i ∈ items, Regular s.handles i) : Baton s' (m :: h) e' := by
  have total := b.total
  have choices := b.choice
  have counted :
      (i :: rest).countP Item.isChoice = rest.countP Item.isChoice + i.isChoice.toNat := by
    rw [List.countP_cons]
    cases i.isChoice <;> rfl
  rw [top, counted] at choices
  rw [stake, top, owing_cons] at total
  refine b.moved items takes ⟨held, ?_, ?_, ?_, ?_⟩ engine coherent agenda expects ?_ ?_ ?_ ?_
    front ?_
  · rw [dialogue]
    exact fun none => ⟨rfl, .inl none⟩
  · rw [dialogue]
    exact fun k hk => .inl hk
  · rw [handles]
    exact fun k x hx => ⟨x, hx, rfl⟩
  · rw [handles]
    exact fun k x hx hold => .inl ⟨x, hx, hold⟩
  · rw [booked, dialogue, handles]
    rw [booked] at total
    omega
  · rwa [dialogue]
  · rwa [dialogue]
  · rw [dialogue]
    omega
  · rwa [handles]

end

end Session

end Prompter

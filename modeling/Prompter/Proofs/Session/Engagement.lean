import Prompter.Proofs.Engine.Coherence
import Prompter.Proofs.Session.Drive

/-!
# Prompter.Proofs.Session.Engagement

The engine and the agenda of a session that is driven through its dialogue.

The agenda holds exactly what the phase of the engine waits for (`Engages`): nothing while the
engine is idle, one part of an answer while an event is reported, and otherwise its turn or the call
that it has made, before anything else. So a session with nothing left to do has an idle engine, and
whoever has the word between a report and its answer finds the engine waiting for that answer.
`Run.drives` carries this along every run, and with it whatever each move of the engine keeps.
-/

namespace Prompter.Session

open Engine (Phase Turned)

/-- What the agenda holds for an engine in a phase. -/
def Engages (a : List Item) : Phase → Prop
  | .idle => a.filter Item.ofEngine = []
  | .reported _ => ∃ i, i.answersEngine = true ∧ a.filter Item.ofEngine = [i]
  | .calling _ _ =>
    ∃ key args rest, a = .invoke key args .engine :: rest ∧ rest.filter Item.ofEngine = []
  | .step | .settle _ | .evaluate _ _ _ | .heard _ _ =>
    ∃ rest, a = .turn :: rest ∧ rest.filter Item.ofEngine = []

section

variable {e e' : Engine} {m : Mark} {a a' rest : List Item} {i : Item} {p : Phase}

theorem ofEngine_of_answersEngine (hi : i.answersEngine = true) : i.ofEngine = true := by
  unfold Item.ofEngine
  split
  · rfl
  · rfl
  · rfl
  · exact hi

theorem holdsEngine_of_answersEngine (hi : i.answersEngine = true) : i.holdsEngine = false := by
  unfold Item.holdsEngine
  split
  · cases hi
  · cases hi
  · rfl

namespace Engages

/-- An engine whose turn or call is not next has left the word to others. -/
theorem yields (g : Engages a e.phase) (free : ∀ i ∈ a.head?, i.holdsEngine = false) :
    e.Yields := by
  cases phase : e.phase with
  | idle => exact .inl phase
  | reported use => exact .inr ⟨use, phase⟩
  | calling =>
    rw [phase] at g
    obtain ⟨key, args, rest, rfl, -⟩ := g
    exact Bool.noConfusion (free _ rfl)
  | step | settle | evaluate | heard =>
    rw [phase] at g
    obtain ⟨rest, rfl, -⟩ := g
    exact Bool.noConfusion (free _ rfl)

/-- While others have the word, only the engine's own items matter. -/
theorem congr (g : Engages a e.phase) (y : e.Yields)
    (same : a'.filter Item.ofEngine = a.filter Item.ofEngine) : Engages a' e.phase := by
  rcases y with phase | ⟨use, phase⟩
  · rw [phase] at g ⊢
    exact same.trans g
  · rw [phase] at g ⊢
    obtain ⟨i, hi, hf⟩ := g
    exact ⟨i, hi, same.trans hf⟩

/-- An engine that has its turn is in the middle of its run, and nothing else is. -/
theorem of_turn (g : Engages (.turn :: rest) p) :
    rest.filter Item.ofEngine = [] ∧ p ≠ .idle ∧ (∀ use, p ≠ .reported use) ∧
      ∀ purpose stack, p ≠ .calling purpose stack := by
  cases p with
  | idle => cases g
  | reported use =>
    obtain ⟨i, hi, hf⟩ := g
    rw [List.filter_cons_of_pos rfl] at hf
    obtain ⟨rfl, -⟩ := List.cons.inj hf
    cases hi
  | calling =>
    obtain ⟨key, args, rest', ha, -⟩ := g
    cases ha
  | step | settle | evaluate | heard =>
    obtain ⟨rest', ha, hf⟩ := g
    cases ha
    exact ⟨hf, by simp, by simp, by simp⟩

/-- An engine whose event is being answered has reported it. -/
theorem of_answers (g : Engages (i :: rest) p) (hi : i.answersEngine = true) :
    rest.filter Item.ofEngine = [] ∧ ∃ use, p = .reported use := by
  have part := ofEngine_of_answersEngine hi
  cases p with
  | idle => simp [Engages, part] at g
  | reported use =>
    obtain ⟨j, -, hf⟩ := g
    rw [List.filter_cons_of_pos part] at hf
    exact ⟨(List.cons.inj hf).2, use, rfl⟩
  | calling =>
    obtain ⟨key, args, rest', ha, -⟩ := g
    cases ha
    cases hi
  | step | settle | evaluate | heard =>
    obtain ⟨rest', ha, -⟩ := g
    cases ha
    cases hi

/-- An engine that has called a function waits for its value. -/
theorem of_invoke {key : HostKey} {args : List Value}
    (g : Engages (.invoke key args .engine :: rest) p) :
    rest.filter Item.ofEngine = [] ∧ ∃ purpose stack, p = .calling purpose stack := by
  cases p with
  | idle => cases g
  | reported use =>
    obtain ⟨i, hi, hf⟩ := g
    rw [List.filter_cons_of_pos rfl] at hf
    obtain ⟨rfl, -⟩ := List.cons.inj hf
    cases hi
  | calling purpose stack =>
    obtain ⟨key', args', rest', ha, hf⟩ := g
    cases ha
    exact ⟨hf, purpose, stack, rfl⟩
  | step | settle | evaluate | heard =>
    obtain ⟨rest', ha, -⟩ := g
    cases ha

/-- With nothing left to do, the engine is idle. -/
theorem idle_of_done (g : Engages [] p) : p = .idle := by
  cases p with
  | idle => rfl
  | reported use =>
    obtain ⟨i, -, hf⟩ := g
    cases hf
  | calling =>
    obtain ⟨key, args, rest, ha, -⟩ := g
    cases ha
  | step | settle | evaluate | heard =>
    obtain ⟨rest, ha, -⟩ := g
    cases ha

/-- No listener of the host is asked about anything. -/
theorem unasked (g : Engages a p) (key : HostKey) (event : Event) : .ask key event ∉ a := by
  intro hm
  have part : Item.ask key event ∈ a.filter Item.ofEngine := List.mem_filter.2 ⟨hm, rfl⟩
  -- such an item would be the engine's own, and none of those that a phase allows
  cases p with
  | idle =>
    rw [show a.filter Item.ofEngine = [] from g] at part
    cases part
  | reported use =>
    obtain ⟨i, hi, hf⟩ := g
    rw [hf, List.mem_singleton] at part
    subst part
    cases hi
  | calling =>
    obtain ⟨key, args, rest, rfl, hf⟩ := g
    rw [List.filter_cons_of_pos rfl, hf, List.mem_singleton] at part
    cases part
  | step | settle | evaluate | heard =>
    obtain ⟨rest, rfl, hf⟩ := g
    rw [List.filter_cons_of_pos rfl, hf, List.mem_singleton] at part
    cases part

end Engages

/-- What a turn leaves on the agenda fits the phase that it ends in. -/
theorem engages_of_turned {r : Engine.Request} (t : Turned .dialogue e e' r)
    (g : Engages (.turn :: rest) e.phase) : Engages (requested r ++ rest) e'.phase := by
  obtain ⟨clean, idle, reported, calling⟩ := g.of_turn
  cases t with
  | depart | begin | report | offer | closed =>
    exact ⟨.hear .engine _, rfl, (List.filter_cons_of_pos rfl).trans (congrArg _ clean)⟩
  | call p index purpose stack key args => exact ⟨key, args, rest, rfl, clean⟩
  | done p index r quiet =>
    rcases quiet with rfl | ⟨name, v, rfl⟩ <;> exact ⟨rest, rfl, clean⟩
  | pause | halt => exact clean
  | outside | undecided | chosen | evaluate | again | next | wait | enter | halted =>
    exact ⟨rest, rfl, clean⟩
  | still phase =>
    rcases phase with phase | ⟨use, phase⟩ | ⟨purpose, stack, phase⟩
    · exact absurd phase idle
    · exact absurd phase (reported use)
    · exact absurd phase (calling purpose stack)

/-! ### Moves -/

/-- A move that gives the engine its turn, looked at from within. -/
theorem turned_of_engages {around : Engine.Surroundings} (c : e.Coherent)
    (hl : around.listener = some .dialogue) :
    Turned .dialogue e (e.turn around).1 (e.turn around).2.1 := by
  refine Engine.turn_turned hl ?_
  rintro (⟨purpose, focus, stack, phase⟩ | ⟨use, answer, phase⟩)
  · exact (c.fits_of_phase phase).1
  · exact (c.fits_of_phase phase).1

namespace Drive

variable (d : Drive e m a e' a') (c : e.Coherent) (g : Engages a e.phase)

include d c g

/-- A move keeps an engine coherent. -/
theorem coherent : e'.Coherent := by
  cases d with
  | quiet | answering => exact c
  | turn around hl rest => exact (turned_of_engages c hl).coherent c
  | continue_ => exact c.continue? (g.yields (by simp [Item.holdsEngine]))
  | choose n id => exact c.choose id
  | heard i x => exact c.hear x
  | place n node _ items a free placed => exact c.bound.place (g.yields free) placed
  | bind => exact c.bound
  | stop items a free => exact c.stop (g.yields free)
  | receive v => exact c.receive v

/-- After a move the agenda holds what the engine waits for. -/
theorem engages : Engages a' e'.phase := by
  cases d with
  | quiet free same => exact g.congr (g.yields free) same
  | turn around hl rest => exact engages_of_turned (turned_of_engages c hl) g
  | continue_ x rest =>
    have y := g.yields (by simp [Item.holdsEngine])
    have g' : Engages rest e.phase := g.congr y rfl
    rcases y with phase | ⟨use, phase⟩
    · rw [phase] at g'
      rw [e.continue?_of_idle phase]
      exact ⟨rest, rfl, g'⟩
    · rw [e.continue?_of_reported phase]
      exact g'
  | choose n id =>
    have g' : Engages a' e.phase := g.congr (g.yields (by simp [Item.holdsEngine])) rfl
    obtain ⟨choice, same⟩ := e.choose_eq id
    rw [same]
    exact g'
  | answering i i' items rest hi hi' others =>
    obtain ⟨clean, use, phase⟩ := g.of_answers hi
    rw [phase]
    exact ⟨i', hi', by
      simp [filter_of_others others, ofEngine_of_answersEngine hi', clean]⟩
  | heard i x rest hi =>
    obtain ⟨clean, use, phase⟩ := g.of_answers hi
    rw [e.hear_of_reported phase]
    exact ⟨rest, rfl, clean⟩
  | place n node _ items a free placed others =>
    have g' : Engages (items ++ a) e.phase :=
      g.congr (g.yields free) (by simp [filter_of_others others])
    rw [(Engine.place_eq_ok.1 placed).2]
    exact g'
  | bind => exact g
  | stop items a free others =>
    have g' : Engages (items ++ a) e.phase :=
      g.congr (g.yields free) (by simp [filter_of_others others])
    exact g'
  | receive v key args rest =>
    obtain ⟨clean, purpose, stack, phase⟩ := g.of_invoke
    rw [e.receive_of_calling phase]
    exact ⟨rest, rfl, clean⟩

end Drive

end

/-! ### Runs -/

variable {allowed : Session → History → Call → Prop} {s₀ s : Session} {h : History}

/-- A command that is looked at after its call has a handle. -/
theorem Run.known (fresh : s₀.IsFresh) (r : Run allowed s₀ s h) (name : String) (k : Nat)
    (use : OutcomeUse) (hm : .afterCall name k use ∈ s.agenda) : k < s.handles.length := by
  refine r.moves (motive := fun l _ => ∀ name k use, .afterCall name k use ∈ l.agenda →
    k < l.handles.length) ?_ ?_ name k use hm
  · intro name k use hm
    rw [show s₀.ledger.agenda = [] from fresh.agenda] at hm
    cases hm
  · intro s h m l r move _ ih name k use hm
    have grows := move.length_le
    obtain ⟨d', hs', a'⟩ := l
    obtain ⟨rest, special, takes, change, puts, -⟩ := move
    rcases (puts.mem_iff rfl).1 hm with hm | hm
    · cases change with
      | newHandle =>
        cases List.mem_singleton.1 hm
        simp
      | last | resumed =>
        obtain ⟨_, -, hi⟩ := mem_resumption.1 hm
        cases hi
      | _ => simp at hm
    · exact Nat.lt_of_lt_of_le (ih name k use (takes.mem hm)) grows

/-- What a session with an engine that runs a script looks like whenever it is looked at. -/
structure Attends (s : Session) (e : Engine) : Prop where
  engine : s.engine = .script e
  held : s.held = true
  coherent : e.Coherent
  engages : Engages s.agenda e.phase

theorem IsAttached.attends (at₀ : s₀.IsAttached) :
    ∃ script, Attends s₀ { script := script, listener := some .dialogue } := by
  obtain ⟨script, engine⟩ := at₀.engine
  refine ⟨script, engine, at₀.held, ⟨rfl, fun _ => rfl, fun asked => by cases asked⟩, ?_⟩
  rw [at₀.agenda]
  rfl

/-- From any state of a run that is driven through the dialogue, the engine only makes moves, and
what each of them keeps is kept. -/
theorem Run.drives_from {motive : Session → Engine → History → Prop} {s₁ : Session} {e₁ : Engine}
    {h₁ : History} (driven : ∀ s h c, allowed s h c → Driven s h c) (at₀ : s₀.IsAttached)
    (r₀ : Run Driven s₀ s₁ h₁) (at₁ : Attends s₁ e₁) (start : motive s₁ e₁ [])
    (drive : ∀ {s s' : Session} {e e' : Engine} {m : Mark} {h : History}, Run allowed s₁ s h →
      Run allowed s₁ s' (m :: h) → Attends s e → Attends s' e' →
      Drive e m s.agenda e' s'.agenda → (∀ c, m = .call c → allowed s h c) →
      motive s e h → motive s' e' (m :: h))
    (r : Run allowed s₁ s h) : ∃ e, Attends s e ∧ motive s e h := by
  have moved {s s' : Session} {e : Engine} {m : Mark} {h : History} (r : Run allowed s₁ s h)
      (r' : Run allowed s₁ s' (m :: h)) (at_ : Attends s e) (kept : motive s e h)
      (d : Drives e m s.agenda s') (ok : ∀ c, m = .call c → allowed s h c) :
      ∃ e', Attends s' e' ∧ motive s' e' (m :: h) := by
    obtain ⟨e', engine, held, d⟩ := d
    have at_' : Attends s' e' := ⟨engine, held, d.coherent at_.coherent at_.engages,
      d.engages at_.coherent at_.engages⟩
    exact ⟨e', at_', drive r r' at_ at_' d ok kept⟩
  induction r with
  | refl => exact ⟨e₁, at₁, start⟩
  | @work s h r busy i rest top ih =>
    obtain ⟨e, at_, kept⟩ := ih
    refine moved r (r.work busy top) at_ kept ?_ (fun c hc => by cases hc)
    -- a session that works is not about to call the host
    have own : i.callsHost = false := by
      unfold awaitsHost at busy
      cases i <;> simp [top] at busy <;> rfl
    -- the handle of a command that is looked at is there: that is a law of the books
    have known (name : String) (k : Nat) (use : OutcomeUse) (hi : i = .afterCall name k use) :
        s.handles[k]?.isSome = true := by
      subst hi
      have all := r₀.append (r.weaken driven)
      simpa using all.known at₀.toIsFresh name k use (top ▸ List.mem_cons_self)
    rw [step_eq_work busy top, top]
    exact work_drives (s := { s with agenda := rest }) at_.engine at_.held at_.coherent.listener i
      own known
  | @call s h r word c ok ih =>
    obtain ⟨e, at_, kept⟩ := ih
    obtain ⟨left, free⟩ := driven s h c ok
    exact moved r (r.call word c ok) at_ kept (call_drives at_.engine at_.held c left free)
      (fun c' hc => by cases hc; exact ok)
  | answer r x fits ih =>
    obtain ⟨e, at_, kept⟩ := ih
    exact moved r (r.answer x fits) at_ kept
      (answer_drives at_.engine at_.held x fits at_.engages.unasked) (fun c hc => by cases hc)

/-- The same from the beginning. -/
theorem Run.drives {motive : Session → Engine → History → Prop}
    (driven : ∀ s h c, allowed s h c → Driven s h c) (at₀ : s₀.IsAttached)
    (start : ∀ {e : Engine}, Attends s₀ e → e.node = none → e.phase = .idle → motive s₀ e [])
    (drive : ∀ {s s' : Session} {e e' : Engine} {m : Mark} {h : History}, Run allowed s₀ s h →
      Run allowed s₀ s' (m :: h) → Attends s e → Attends s' e' →
      Drive e m s.agenda e' s'.agenda → (∀ c, m = .call c → allowed s h c) →
      motive s e h → motive s' e' (m :: h))
    (r : Run allowed s₀ s h) : ∃ e, Attends s e ∧ motive s e h := by
  obtain ⟨script, attends⟩ := at₀.attends
  exact Run.drives_from driven at₀ .refl attends (start attends rfl rfl) drive r

theorem Run.attends (at₀ : s₀.IsAttached) (r : Run Driven s₀ s h) : ∃ e, Attends s e := by
  obtain ⟨e, at_, -⟩ := r.drives (motive := fun _ _ _ => True) (fun _ _ _ ok => ok) at₀
    (fun _ _ _ => trivial) (fun _ _ _ _ _ _ _ => trivial)
  exact ⟨e, at_⟩

/-! ### Steps one by one -/

/-- The session with its engine and its agenda as given. -/
def seated (s : Session) (e : Engine) (a : List Item) : Session :=
  { s with engine := .script e, agenda := a }

/-- A turn of the engine, unless it stores a variable, leaves what it asks for on the agenda. -/
theorem turn_seated {e e' : Engine} {r : Engine.Request} {rest : List Item} (hd : s.held = true)
    (hl : e.listener = some .dialogue)
    (taken : ∀ around : Engine.Surroundings, around.listener = some .dialogue →
      (e.turn around).1 = e' ∧ (e.turn around).2.1 = r)
    (stores : ∀ name v, r ≠ .store name v) :
    (s.seated e rest).turn.1 = s.seated e' (requested r ++ rest) := by
  obtain ⟨engine, request⟩ := taken ((s.seated e rest).surroundings e) (listener_surroundings hd hl)
  unfold turn
  dsimp only [seated]
  dsimp only [seated] at engine request
  rw [engine, request]
  cases r with
  | again | rest | invoke => rfl
  | report l event => cases l <;> rfl
  | store name v => exact absurd rfl (stores name v)

end Prompter.Session

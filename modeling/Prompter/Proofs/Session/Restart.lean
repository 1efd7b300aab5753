import Prompter.Proofs.Session.Engagement

/-!
# Prompter.Proofs.Session.Restart

Whether a dialogue that is started again from inside an event gets to its first node.

A view or a handler may stop the dialogue and start it at another node while the engine reports an
event. The engine then notes the request to go on, and honours it when the event has been answered.
The one event for which it does not is the report that the dialogue is over: a dialogue that is
started again from inside that report is running, and its engine stays at the start of the node
without having reported it. `run_restarts` says exactly when that is so.
-/

namespace Prompter

namespace Session

open Engine (Turned)

/-- Whether the dialogue is running while its engine is at the start of a node that it has not
reported. -/
def isStranded (s : Session) : Bool :=
  s.dialogue.running && match s.engine with
    | .script e => e.unstarted
    | _ => false

/-! ### Promises -/

/-- A node whose start has not been reported is one that the engine is on its way to, unless it is
yet to be asked to go on. -/
def Pending (e : Engine) (a : List Item) : Prop :=
  e.unstarted = true → e.promised = true ∨
    (∀ use x, e.phase ≠ .heard use x) ∧ ∃ c, .continueEngine c ∈ ahead a

section

variable {e e' : Engine} {m : Mark} {a a' : List Item}

/-- A request to go on that comes before the next answer does so after a turn that reports nothing
and calls nobody. -/
theorem mem_ahead_requested {r : Engine.Request} {rest : List Item} {c : Cause}
    (hc : .continueEngine c ∈ ahead (.turn :: rest)) (quiet : r = .again ∨ r = .rest) :
    .continueEngine c ∈ ahead (requested r ++ rest) := by
  rw [ahead_cons rfl] at hc
  have later : .continueEngine c ∈ ahead rest := List.mem_of_ne_of_mem (by simp) hc
  rcases quiet with rfl | rfl
  · exact List.mem_cons_of_mem Item.turn later
  · exact later

/-- A move of the engine keeps its promise. -/
theorem Drive.pending (d : Drive e m a e' a') (c : e.Coherent) (g : Engages a e.phase)
    (p : Pending e a) : Pending e' a' := by
  intro unstarted
  cases d with
  | quiet free same kept =>
    rcases p unstarted with given | ⟨others, x, hx⟩
    · exact .inl given
    · exact .inr ⟨others, x, kept x hx⟩
  | turn around hl rest =>
    have t := turned_of_engages c hl
    rcases t.promised c unstarted with given | ⟨before, same, request⟩
    · exact .inl given
    · rcases p before with given | ⟨-, x, hx⟩
      · exact .inl (same.trans given)
      · exact .inr ⟨t.phase_ne_heard, x, mem_ahead_requested hx request⟩
  | continue_ x rest =>
    left
    rcases g.yields (by simp [Item.holdsEngine]) with phase | ⟨use, phase⟩
    · rw [e.continue?_of_idle phase]
      rfl
    · rw [e.continue?_of_reported phase]
      simp [Engine.promised, phase]
  | choose n id =>
    obtain ⟨choice, same⟩ := e.choose_eq id
    rw [same] at unstarted ⊢
    rcases p unstarted with given | ⟨others, x, hx⟩
    · exact .inl given
    · rw [ahead_cons rfl] at hx
      exact .inr ⟨others, x, List.mem_of_ne_of_mem (by simp) hx⟩
  | answering i i' items rest hi =>
    rcases p unstarted with given | ⟨-, x, hx⟩
    · exact .inl given
    · rw [ahead_cons_of_answers hi] at hx
      cases hx
  | heard i x rest hi =>
    obtain ⟨-, use, phase⟩ := g.of_answers hi
    rw [e.hear_of_reported phase] at unstarted ⊢
    rcases p unstarted with given | ⟨-, x, hx⟩
    · left
      simpa [Engine.promised, phase] using given
    · rw [ahead_cons_of_answers hi] at hx
      cases hx
  | place n node _ items a free placed others start =>
    rw [(Engine.place_eq_ok.1 placed).2]
    refine .inr ⟨fun use x => ?_, .start, ?_⟩
    · rcases g.yields free with phase | ⟨use, phase⟩ <;> simp [Engine.enter, phase]
    · rw [ahead_append others]
      exact List.mem_append_left _ start
  | bind => exact p unstarted
  | stop => simp [Engine.stop, Engine.leaveScript] at unstarted
  | receive v key args rest =>
    obtain ⟨-, purpose, stack, phase⟩ := g.of_invoke
    rw [e.receive_of_calling phase]
    exact .inl rfl

/-- With an answer to the engine next, a request to go on has been noted for a node whose start has
not been reported. -/
theorem Pending.noted {i : Item} {rest : List Item} (p : Pending e (i :: rest))
    (hi : i.answersEngine = true) (g : Engages (i :: rest) e.phase)
    (unstarted : e.unstarted = true) : e.resumeRequested = true := by
  obtain ⟨-, use, phase⟩ := g.of_answers hi
  rcases p unstarted with given | ⟨-, x, hx⟩
  · simpa [Engine.promised, phase] using given
  · rw [ahead_cons_of_answers hi] at hx
    cases hx

end

/-! ### The end of a run of the engine -/

variable {s₀ s : Session} {h : History}

/-- At some time the report that the dialogue is over had just been answered, with the engine in a
node, and since then it has not been asked to go on. -/
def OverInNode (s₀ : Session) (h : History) : Prop :=
  ∃ (newer older : History) (s : Session) (e : Engine) (answer : NextAction),
    h = newer ++ older ∧ Run Driven s₀ s older ∧ s.engine = .script e ∧
      e.phase = .heard .halt answer ∧ e.node.isSome = true ∧
      ∀ c, .did (.continueEngine c) ∉ newer

theorem OverInNode.cons {m : Mark} (o : OverInNode s₀ h)
    (unasked : ∀ c, m ≠ .did (.continueEngine c)) : OverInNode s₀ (m :: h) := by
  obtain ⟨newer, older, s, e, answer, rfl, r, he, phase, inside, quiet⟩ := o
  refine ⟨m :: newer, older, s, e, answer, rfl, r, he, phase, inside, fun c hc => ?_⟩
  rcases List.mem_cons.1 hc with hm | hc
  · exact unasked c hm.symm
  · exact quiet c hc

/-- When a run of the engine ends in a node with a request noted, something has happened, or the
engine is yet to be asked to go on. -/
def NotedAfter (past : Prop) (e : Engine) (a : List Item) : Prop :=
  e.ends = true → e.resumeRequested = true → e.node.isSome = true →
    (∃ c, .continueEngine c ∈ ahead a) ∨ past

/-- Only the answer to the report that the dialogue is over makes a run end so. -/
theorem Drive.notedAfter {e e' : Engine} {m : Mark} {a a' : List Item} {past past' : Prop}
    (d : Drive e m a e' a') (c : e.Coherent) (g : Engages a e.phase)
    (answered : ∀ answer, e'.phase = .heard .halt answer → e'.node.isSome = true → past')
    (later : (∀ c, m ≠ .did (.continueEngine c)) → past → past') (n : NotedAfter past e a) :
    NotedAfter past' e' a' := by
  intro ended noted inside
  cases d with
  | quiet free same kept unasked =>
    rcases n ended noted inside with ⟨x, hx⟩ | old
    · exact .inl ⟨x, kept x hx⟩
    · exact .inr (later unasked old)
  | turn around hl rest =>
    have t := turned_of_engages c hl
    obtain ⟨ended', noted', same, request⟩ := t.of_ends c ended noted
    rcases n ended' noted' (same ▸ inside) with ⟨x, hx⟩ | old
    · exact .inl ⟨x, mem_ahead_requested hx request⟩
    · exact .inr (later (by simp) old)
  | continue_ x rest =>
    rcases g.yields (by simp [Item.holdsEngine]) with phase | ⟨use, phase⟩
    · rw [e.continue?_of_idle phase] at ended
      cases ended
    · rw [e.continue?_of_reported phase] at ended
      simp [Engine.ends, phase] at ended
  | choose k id =>
    obtain ⟨choice, same⟩ := e.choose_eq id
    rw [same] at ended noted inside
    rcases n ended noted inside with ⟨x, hx⟩ | old
    · rw [ahead_cons rfl] at hx
      exact .inl ⟨x, List.mem_of_ne_of_mem (by simp) hx⟩
    · exact .inr (later (by simp) old)
  | answering i i' items rest hi =>
    obtain ⟨-, use, phase⟩ := g.of_answers hi
    simp [Engine.ends, phase] at ended
  | heard i x rest hi =>
    -- the only answer after which a run ends
    obtain ⟨-, use, phase⟩ := g.of_answers hi
    rw [e.hear_of_reported phase] at ended inside answered
    cases use with
    | halt => exact .inr (answered x rfl inside)
    | _ => cases ended
  | place k node _ items a free placed others start =>
    refine .inl ⟨.start, ?_⟩
    rw [ahead_append others]
    exact List.mem_append_left _ start
  | bind =>
    rcases n ended noted inside with pending | old
    · exact .inl pending
    · exact .inr (later (by simp) old)
  | stop => simp [Engine.stop, Engine.leaveScript] at inside
  | receive v key args rest =>
    obtain ⟨-, purpose, stack, phase⟩ := g.of_invoke
    rw [e.receive_of_calling phase] at ended
    cases ended

/-- A request that is noted while a run ends is not looked at again in this run. -/
theorem Drive.keeps_noted {e e' : Engine} {m : Mark} {a a' : List Item} (d : Drive e m a e' a')
    (c : e.Coherent) (g : Engages a e.phase) (unasked : ∀ c, m ≠ .did (.continueEngine c))
    (ended : e.ends = true) : e'.ends = true ∧ e'.resumeRequested = e.resumeRequested := by
  cases d with
  | quiet | answering | bind | stop => exact ⟨ended, rfl⟩
  | turn around hl rest => exact (turned_of_engages c hl).ends ended
  | continue_ x rest => exact absurd rfl (unasked x)
  | choose k id =>
    obtain ⟨choice, same⟩ := e.choose_eq id
    rw [same]
    exact ⟨ended, rfl⟩
  | heard i x rest hi =>
    obtain ⟨-, use, phase⟩ := g.of_answers hi
    simp [Engine.ends, phase] at ended
  | place k node _ items a free placed =>
    rw [(Engine.place_eq_ok.1 placed).2]
    exact ⟨ended, rfl⟩
  | receive v key args rest =>
    obtain ⟨-, purpose, stack, phase⟩ := g.of_invoke
    simp [Engine.ends, phase] at ended

/-- What is known of the engine after any run. -/
structure Restarted (s₀ s : Session) (e : Engine) (h : History) : Prop where
  pending : Pending e s.agenda
  notedAfter : NotedAfter (OverInNode s₀ h) e s.agenda
  /-- After the dialogue was over with the engine in a node, the request that was noted is still
  there. -/
  stays : ∀ newer older s' e' answer, h = newer ++ older → Run Driven s₀ s' older →
    s'.engine = .script e' → e'.phase = .heard .halt answer → e'.node.isSome = true →
    (∀ c, .did (.continueEngine c) ∉ newer) → e.ends = true ∧ e.resumeRequested = true

theorem Run.restarted (at₀ : s₀.IsAttached) (r : Run Driven s₀ s h) :
    ∃ e, Attends s e ∧ Restarted s₀ s e h := by
  refine r.drives (motive := Restarted s₀) (fun _ _ _ ok => ok) at₀ ?_ ?_
  · intro e at_ out phase
    have unstarted : e.unstarted = false := by simp [Engine.unstarted, out]
    refine ⟨fun u => Bool.noConfusion (u.symm.trans unstarted), ?_, ?_⟩
    · intro _ _ inside
      simp [out] at inside
    · intro newer older s' e' answer hh r' he' phase' _ _
      obtain ⟨rfl, rfl⟩ := List.append_eq_nil_iff.1 hh.symm
      obtain rfl := Run.refl.unique r'
      obtain rfl : e = e' := EngineSeat.script.inj (at_.engine.symm.trans he')
      rw [phase] at phase'
      cases phase'
  · intro s s' e e' m h r r' at_ at_' d _ ih
    have pending := d.pending at_.coherent at_.engages ih.pending
    refine ⟨pending, ?_, ?_⟩
    · refine d.notedAfter at_.coherent at_.engages ?_ (fun unasked o => o.cons unasked)
        ih.notedAfter
      intro answer phase inside
      exact ⟨[], m :: h, s', e', answer, rfl, r', at_'.engine, phase, inside, by simp⟩
    · intro newer older s₁ e₁ answer hh r₁ he₁ phase inside quiet
      cases newer with
      | nil =>
        -- the report has just been answered, and the start inside it had noted a request
        obtain rfl : m :: h = older := hh
        obtain rfl := r'.unique r₁
        obtain rfl : e' = e₁ := EngineSeat.script.inj (at_'.engine.symm.trans he₁)
        have unstarted : e'.unstarted = true :=
          Engine.unstarted_eq_true.2 ⟨inside, (at_'.coherent.fits_of_phase phase).2 inside⟩
        refine ⟨by simp [Engine.ends, phase], ?_⟩
        rcases pending unstarted with given | ⟨others, -⟩
        · simpa [Engine.promised, phase] using given
        · exact absurd phase (others .halt answer)
      | cons m' newer =>
        -- it was answered before, and nobody has asked the engine to go on since
        obtain ⟨rfl, tail⟩ := List.cons.inj hh
        obtain ⟨ended, noted⟩ := ih.stays newer older s₁ e₁ answer tail r₁ he₁ phase inside
          fun c hc => quiet c (List.mem_cons_of_mem m hc)
        have unasked (c : Cause) : m ≠ .did (.continueEngine c) :=
          fun hm => quiet c (hm ▸ List.mem_cons_self)
        obtain ⟨ended', same⟩ := d.keeps_noted at_.coherent at_.engages unasked ended
        exact ⟨ended', same.trans noted⟩

/-! ### After an answer -/

section

variable {e e' : Engine} {i : Item} {rest : List Item} {r : Engine.Request} {use : Engine.Use}
  {answer : NextAction}

theorem answersEngine_of_answer (hi : i.answer? = some answer) : i.answersEngine = true := by
  unfold Item.answer? at hi
  split at hi
  · rfl
  · rfl
  · cases hi

/-- A session that is about to answer an event gives the engine its turn. -/
theorem works_answer {n : Nat} (he : s.engine = .script e) (phase : e.phase = .reported use)
    (top : s.agenda = i :: rest) (hi : i.answer? = some answer) :
    works (n + 1) s h =
      works n (s.seated { e with phase := .heard use answer } (.turn :: rest)) (.did i :: h) := by
  have concluded : ({ s with agenda := rest }.conclude .engine answer).1 =
      s.seated { e with phase := .heard use answer } (.turn :: rest) := by
    simp [conclude, he, e.hear_of_reported phase, push, seated]
  unfold Item.answer? at hi
  split at hi
  · cases hi
    have busy : s.awaitsHost = false := by simp [awaitsHost, top]
    rw [works_succ busy top, step_eq_work busy top]
    exact congrArg (works n · _) concluded
  · cases hi
    have busy : s.awaitsHost = false := by simp [awaitsHost, top]
    rw [works_succ busy top, step_eq_work busy top]
    exact congrArg (works n · _) concluded
  · cases hi

/-- A session goes on with the engine's turn. -/
theorem works_turn {n : Nat} (hd : s.held = true) (hl : e.listener = some .dialogue)
    (taken : ∀ around : Engine.Surroundings, around.listener = some .dialogue →
      (e.turn around).1 = e' ∧ (e.turn around).2.1 = r)
    (stores : ∀ name v, r ≠ .store name v) :
    works (n + 1) (s.seated e (.turn :: rest)) h =
      works n (s.seated e' (requested r ++ rest)) (.did .turn :: h) := by
  have busy : (s.seated e (.turn :: rest)).awaitsHost = false := rfl
  rw [works_succ busy rfl, step_eq_work busy rfl]
  exact congrArg (works n · _) (turn_seated hd hl taken stores)

/-- The turn in which a step of the script has ended gives way to the next step. -/
theorem works_again {n : Nat} (hd : s.held = true) (hl : e.listener = some .dialogue)
    {ending : Engine.StepEnd} (phase : e.phase = .settle ending)
    (goesOn : ending = .next ∨ ending = .wait ∧ e.resumeRequested = true) :
    works (n + 1) (s.seated e (.turn :: rest)) h =
      works n (s.seated { e with hearer := none, resumeRequested := false, phase := .step }
        (.turn :: rest)) (.did .turn :: h) := by
  refine works_turn (r := .again) hd hl (fun around _ => ?_) (by simp)
  simpa only [Engine.turn, phase] using e.endStep_again ending goesOn

/-- The first step of the script in a node is to report its start. -/
theorem works_begin {n : Nat} (hd : s.held = true) (hl : e.listener = some .dialogue)
    (phase : e.phase = .step) {node : String} (hn : e.node = some node) (free : e.choices = none)
    (unstarted : e.nodeStarted = false) :
    works (n + 1) (s.seated e (.turn :: rest)) h =
      works n (s.seated
        { e with hearer := some .dialogue, nodeStarted := true, phase := .reported .plain }
        (.hear .engine (.nodeStart node) :: rest)) (.did .turn :: h) := by
  refine works_turn (r := .report .dialogue (.nodeStart node)) hd hl ?_ (by simp)
  intro around listening
  simp [Engine.turn, phase, Engine.takeStep, listening, hn, free, unstarted, Engine.report]

/-! ### Restarts inside events -/

section

variable (at_ : Attends s e) (phase : e.phase = .reported use) (top : s.agenda = i :: rest)
  (hi : i.answer? = some answer)

include at_ phase top hi

/-- A node that the engine has been put at while it reported an event is the next to be reported. -/
theorem honoured (plain : use = .plain ∨ use = .choice) {node : String} (hn : e.node = some node)
    (unstarted : e.nodeStarted = false) (noted : e.resumeRequested = true) :
    (works 4 s h).1.agenda = .hear .engine (.nodeStart node) :: rest := by
  have free : e.choices = none := at_.coherent.fresh (by simp [hn, unstarted])
  have hl := at_.coherent.listener
  obtain ⟨ending, goesOn, settled⟩ : ∃ ending, (ending = .next ∨ ending = .wait) ∧
      ∀ around, ({ e with phase := .heard use answer }.turn around).1 =
          { e with phase := .settle ending } ∧
        ({ e with phase := .heard use answer }.turn around).2.1 = .again := by
    rcases plain with rfl | rfl <;> cases answer <;> exact ⟨_, by simp, fun _ => ⟨rfl, rfl⟩⟩
  have steps := calc
    works 4 s h = works 3 (s.seated { e with phase := .heard use answer } (.turn :: rest)) _ :=
      works_answer at_.engine phase top hi
    _ = works 2 (s.seated { e with phase := .settle ending } (.turn :: rest)) _ :=
      works_turn (r := .again) at_.held (by simpa using hl) (fun around _ => settled around)
        (by simp)
    _ = works 1 (s.seated { e with hearer := none, resumeRequested := false, phase := .step }
          (.turn :: rest)) _ :=
      works_again at_.held (by simpa using hl) rfl (goesOn.imp_right fun waits => ⟨waits, noted⟩)
    _ = works 0 (s.seated _ (.hear .engine (.nodeStart node) :: rest)) _ :=
      works_begin at_.held (by simpa using hl) rfl (by simpa using hn) (by simpa using free)
        (by simpa using unstarted)
  rw [steps]
  rfl

/-- The engine enters the node that it was going to, wherever it has been put meanwhile. -/
theorem overtaken {node destination : String} (leaves : use = .leave node destination) :
    (works 4 s h).1.agenda = .hear .engine (.nodeStart destination) :: rest := by
  subst leaves
  have free : (e.enter destination).choices = none := (at_.coherent.fits_of_phase phase).2
  have hl : (e.enter destination).listener = some .dialogue := at_.coherent.listener
  have steps := calc
    works 4 s h = works 3 (s.seated { e with phase := .heard (.leave node destination) answer }
          (.turn :: rest)) _ :=
      works_answer at_.engine phase top hi
    _ = works 2 (s.seated { e.enter destination with phase := .settle .next } (.turn :: rest)) _ :=
      works_turn (r := .again) at_.held (by exact hl) (fun around _ => ⟨rfl, rfl⟩) (by simp)
    _ = works 1 (s.seated { e.enter destination with
          hearer := none, resumeRequested := false, phase := .step } (.turn :: rest)) _ :=
      works_again at_.held (by simpa using hl) rfl (.inl rfl)
    _ = works 0 (s.seated _ (.hear .engine (.nodeStart destination) :: rest)) _ :=
      works_begin at_.held (by simpa using hl) rfl rfl (by simpa using free) rfl
  rw [steps]
  rfl

/-- The engine leaves its last node, wherever it has been put meanwhile. -/
theorem closed (closes : use = .close) :
    (works 2 s h).1.agenda = .hear .engine .dialogueEnd :: rest := by
  subst closes
  have hearer : e.hearer = some .dialogue := (at_.coherent.fits_of_phase phase).1
  have hl := at_.coherent.listener
  have steps := calc
    works 2 s h = works 1 (s.seated { e with phase := .heard .close answer } (.turn :: rest)) _ :=
      works_answer at_.engine phase top hi
    _ = works 0 (s.seated { e.leaveScript with phase := .reported .halt }
          (.hear .engine .dialogueEnd :: rest)) _ := by
      refine works_turn (r := .report .dialogue .dialogueEnd) at_.held (by simpa using hl)
        (fun around _ => ?_) (by simp)
      simp [Engine.turn, Engine.actOn, Engine.leaveScript, Engine.report, hearer]
  rw [steps]
  rfl

/-- A node that the engine has been put at while it reported the end of the dialogue is left to
itself. -/
theorem forgotten (halts : use = .halt) :
    (works 3 s h).1 = s.seated { e with hearer := none, phase := .idle } rest := by
  subst halts
  have hl := at_.coherent.listener
  have steps := calc
    works 3 s h = works 2 (s.seated { e with phase := .heard .halt answer } (.turn :: rest)) _ :=
      works_answer at_.engine phase top hi
    _ = works 1 (s.seated { e with phase := .settle .halt } (.turn :: rest)) _ :=
      works_turn (r := .again) at_.held (by simpa using hl) (fun around _ => ⟨rfl, rfl⟩) (by simp)
    _ = works 0 (s.seated { e with hearer := none, phase := .idle } rest) _ :=
      works_turn (r := .rest) at_.held (by simpa using hl) (fun around _ => ⟨rfl, rfl⟩) (by simp)
  rw [steps]
  rfl

end

end

/-! ### Every run -/

/-- The host does not start the dialogue from inside the report that it is over. -/
def Timely (s : Session) (h : History) (c : Call) : Prop :=
  Driven s h c ∧
    ((∃ n, c = .start n) → ∀ e, s.engine = .script e → e.phase ≠ .reported .halt)

/-- While the end of the dialogue is reported, and when the answer comes, the engine is in no
node. -/
def Gone (e : Engine) : Prop :=
  e.phase = .reported .halt ∨ (∃ answer, e.phase = .heard .halt answer) → e.node = none

theorem gone_of_turned {e e' : Engine} {r : Engine.Request} (t : Turned .dialogue e e' r)
    (g : Gone e) : Gone e' := by
  cases t with
  | closed => exact fun _ => rfl
  | still => exact g
  | report p index event use plain =>
    rcases plain with rfl | rfl | ⟨_, _, rfl⟩ <;> simp [Gone, Engine.goOn]
  | _ => simp [Gone, Engine.goOn]

/-- Only a start brings the engine back into a node before the report is answered. -/
theorem Drive.gone {e e' : Engine} {m : Mark} {a a' : List Item} (d : Drive e m a e' a')
    (c : e.Coherent) (eng : Engages a e.phase)
    (timely : (∃ n, m = .call (.start n)) → e.phase ≠ .reported .halt) (g : Gone e) : Gone e' := by
  cases d with
  | quiet | answering | bind => exact g
  | turn around hl rest => exact gone_of_turned (turned_of_engages c hl) g
  | continue_ x rest =>
    rcases eng.yields (by simp [Item.holdsEngine]) with phase | ⟨use, phase⟩
    · rw [e.continue?_of_idle phase]
      simp [Gone]
    · rw [e.continue?_of_reported phase]
      exact g
  | choose k id =>
    obtain ⟨choice, same⟩ := e.choose_eq id
    rw [same]
    exact g
  | heard i x rest hi =>
    obtain ⟨-, use, phase⟩ := eng.of_answers hi
    rw [e.hear_of_reported phase]
    intro halts
    obtain rfl : use = .halt := by simpa using halts
    exact g (.inl phase)
  | place k node _ items a free placed =>
    have plain := timely ⟨k, rfl⟩
    rw [(Engine.place_eq_ok.1 placed).2]
    rcases eng.yields free with phase | ⟨use, phase⟩
    · simp [Gone, Engine.enter, phase]
    · simp only [phase] at plain
      simp [Gone, Engine.enter, phase, plain]
  | stop => exact fun _ => rfl
  | receive v key args rest =>
    obtain ⟨-, purpose, stack, phase⟩ := eng.of_invoke
    rw [e.receive_of_calling phase]
    simp [Gone]

theorem Run.driven (r : Run Timely s₀ s h) : Run Driven s₀ s h := by
  induction r with
  | refl => exact .refl
  | work _ busy top ih => exact ih.work busy top
  | call _ word c ok ih => exact ih.call word c ok.1
  | answer _ x fits ih => exact ih.answer x fits

/-- If the dialogue is not started from inside the report that it is over, it is not over with the
engine in a node. -/
theorem Run.not_overInNode (at₀ : s₀.IsAttached) (r : Run Timely s₀ s h) : ¬ OverInNode s₀ h := by
  rintro ⟨newer, older, s', e', answer, rfl, r', he', phase, inside, -⟩
  obtain ⟨s'', r''⟩ := r.earlier
  obtain rfl := r'.unique r''.driven
  obtain ⟨e, at_, gone⟩ := r''.drives (motive := fun _ e _ => Gone e) (fun _ _ _ ok => ok.1) at₀
    (fun _ out _ _ => out) fun _ _ at_ _ d ok gone =>
      d.gone at_.coherent at_.engages
        (fun ⟨n, hm⟩ => (ok _ hm).2 ⟨n, rfl⟩ _ at_.engine) gone
  obtain rfl : e = e' := EngineSeat.script.inj (at_.engine.symm.trans he')
  simp [gone (.inr ⟨answer, phase⟩)] at inside

/-- What becomes of a node that the engine has been put at inside an event, when the event has been
answered, by what the engine does after it. -/
def ComesTo (s : Session) (h : History) (node : String) (rest : List Item) : Engine.Use → Prop
  /- The node is the next to be reported. -/
  | .plain | .choice => (works 4 s h).1.agenda = .hear .engine (.nodeStart node) :: rest
  /- The destination of the engine is. -/
  | .leave _ destination =>
    (works 4 s h).1.agenda = .hear .engine (.nodeStart destination) :: rest
  /- The dialogue is over. -/
  | .close => (works 2 s h).1.agenda = .hear .engine .dialogueEnd :: rest
  /- Nothing more is going to happen. -/
  | .halt => (works 3 s h).1.agenda = rest ∧ (works 3 s h).1.isStranded = s.dialogue.running

/-- Which starts of a dialogue are lost, and which are not. -/
structure Restarts (s₀ s : Session) (h : History) : Prop where
  /-- With nothing left to do, the dialogue is running at a node whose start has not been reported
  exactly if it was over with the engine in a node, and the engine has not been asked to go on
  since. -/
  stranded_iff : s.agenda = [] →
    (s.isStranded = true ↔ s.dialogue.running = true ∧ s.node?.isSome = true ∧ OverInNode s₀ h)
  /-- That takes a start from inside the report that the dialogue is over. -/
  timely : Run Timely s₀ s h → s.agenda = [] → s.isStranded = false
  /-- A node that the engine is put at inside an event is the next to be reported, unless the engine
  is about to leave its node or the script. -/
  answered : ∀ e use i rest answer node, s.engine = .script e → e.phase = .reported use →
    s.agenda = i :: rest → i.answer? = some answer → e.node = some node →
    e.nodeStarted = false → ComesTo s h node rest use

theorem isStranded_eq {e : Engine} (he : s.engine = .script e) :
    s.isStranded = (s.dialogue.running && e.unstarted) := by
  rw [isStranded, he]

/-- With nothing left to do, a node whose start has not been reported is one in which a request to
go on was noted too late. -/
theorem Restarted.unstarted_iff {e : Engine} (known : Restarted s₀ s e h) (at_ : Attends s e)
    (done : s.agenda = []) :
    e.unstarted = true ↔ e.node.isSome = true ∧ OverInNode s₀ h := by
  have engages := at_.engages
  rw [done] at engages
  have idle := engages.idle_of_done
  constructor
  · intro unstarted
    obtain ⟨inside, -⟩ := Engine.unstarted_eq_true.1 unstarted
    -- the agenda is empty, so the promise can only be the request that was noted
    have noted : e.resumeRequested = true := by
      rcases known.pending unstarted with given | ⟨-, c, hc⟩
      · simpa [Engine.promised, idle] using given
      · simp [done, ahead] at hc
    rcases known.notedAfter (by simp [Engine.ends, idle]) noted inside with ⟨c, hc⟩ | ended
    · simp [done, ahead] at hc
    · exact ⟨inside, ended⟩
  · rintro ⟨inside, newer, older, s', e', answer, hh, r', he', phase, inside', quiet⟩
    obtain ⟨-, noted⟩ := known.stays newer older s' e' answer hh r' he' phase inside' quiet
    exact Engine.unstarted_eq_true.2 ⟨inside, at_.coherent.fits_of_phase idle noted inside⟩

/-- Whatever the host does from inside its views and handlers, a start of the dialogue is lost
exactly if it is made inside the report that the dialogue is over. -/
theorem run_restarts (at₀ : s₀.IsAttached) (r : Run Driven s₀ s h) : Restarts s₀ s h := by
  obtain ⟨e, at_, known⟩ := r.restarted at₀
  have stranded_iff (done : s.agenda = []) :
      s.isStranded = true ↔
        s.dialogue.running = true ∧ s.node?.isSome = true ∧ OverInNode s₀ h := by
    have node : s.node? = e.node := by rw [node?, at_.engine]
    rw [isStranded_eq at_.engine, Bool.and_eq_true, known.unstarted_iff at_ done, node]
  refine ⟨stranded_iff, fun r' done => ?_, ?_⟩
  · refine Bool.eq_false_iff.2 fun stranded => ?_
    exact r'.not_overInNode at₀ ((stranded_iff done).1 stranded).2.2
  · intro e' use i rest answer node he' phase top hi hn unstarted
    obtain rfl : e = e' := EngineSeat.script.inj (at_.engine.symm.trans he')
    have engages := at_.engages
    have pending := known.pending
    rw [top] at engages pending
    have noted : e.resumeRequested = true :=
      pending.noted (answersEngine_of_answer hi) engages (by simp [hn, unstarted])
    cases use with
    | plain => exact honoured at_ phase top hi (.inl rfl) hn unstarted noted
    | choice => exact honoured at_ phase top hi (.inr rfl) hn unstarted noted
    | leave => exact overtaken at_ phase top hi rfl
    | close => exact closed at_ phase top hi rfl
    | halt =>
      have halted := forgotten (h := h) at_ phase top hi rfl
      rw [ComesTo, halted]
      exact ⟨rfl, by simp [isStranded, seated, Engine.unstarted, hn, unstarted]⟩

/-- A dialogue with one view, and a script of one node that is empty. -/
def emptyNode : Session :=
  { engine := .script { script := ⟨⟨[("Start", [])], by simp⟩⟩, listener := some .dialogue }
    dialogue := { slots := [true] }
    storage := some {} }

theorem isAttached_emptyNode : emptyNode.IsAttached :=
  { agenda := rfl, handles := rfl, dialogue := rfl, engine := ⟨_, rfl⟩, held := rfl }

/-- A view that starts the dialogue again when it is told that the dialogue is over. -/
theorem run_emptyNode :
    ∃ s h, Run Driven emptyNode s h ∧ s.agenda = [] ∧ s.isStranded = true := by
  have r : Run Driven emptyNode emptyNode [] := .refl
  have r := r.call rfl (.start (some "Start")) ⟨rfl, nofun⟩
  -- the view hears that the dialogue has begun, and so have the node and its end
  have r := ((r.works 9).answer .heard rfl).works 9
  have r := ((r.answer .heard rfl).works 9).answer .heard rfl
  -- the dialogue is over
  have r := (r.works 9).call rfl (.start (some "Start")) ⟨rfl, by decide⟩
  have r := ((r.works 9).answer .heard rfl).works 9
  have r := (r.answer .heard rfl).works 9
  exact ⟨_, _, r, rfl, rfl⟩

/-- A dialogue may run at a node whose start is never reported. -/
theorem exists_stranded :
    ¬ ∀ s₀ s h, IsAttached s₀ → Run Driven s₀ s h → s.agenda = [] → s.isStranded = false := by
  intro never
  obtain ⟨s, h, r, done, stranded⟩ := run_emptyNode
  exact Bool.noConfusion (stranded.symm.trans (never _ s h isAttached_emptyNode r done))

/-- It does if its view starts it again when it is over. -/
theorem restarts_of_emptyNode :
    ∃ s h, Run Driven emptyNode s h ∧ s.isStranded = true ∧ OverInNode emptyNode h ∧
      Restarts emptyNode s h := by
  obtain ⟨s, h, r, done, stranded⟩ := run_emptyNode
  have restarts := run_restarts isAttached_emptyNode r
  exact ⟨s, h, r, stranded, ((restarts.stranded_iff done).1 stranded).2.2, restarts⟩

end Session

end Prompter

import Prompter.Proofs.Session.Conversation

/-!
# Prompter.Proofs.Session.Narration

A script that is told to a listener of the host.

A listener that answers as it should and directs the engine as it should is told the story of the
script, whether it requests what it does while it is asked or later (`run_narrates`).
-/

namespace Prompter.Session

open Engine (Request Turned)

variable {s₀ s s' : Session} {h : History} {m : Mark}

/-! ### What every deed keeps -/

/-- A mark is one that the host may make. -/
def Fits (w : World) (t : Talk) (a : List Item) : Mark → Prop
  | .call .continueEngine => Free a ∧ t.MayContinue
  | .call (.chooseOption id) => Free a ∧ t.MayChoose id
  | .call _ => False
  | .answer x => ∀ i ∈ a.head?, Suits w t i x
  | .did _ => True

/-- The value that an engine waits for. -/
def awaited (w : World) (a : List Item) : Option Value :=
  a.findSome? fun i =>
    match i with
    | .invoke key args .engine => some (w.answer key args)
    | _ => none

/-- The engine when the function that it has called has answered. -/
def answered (w : World) (e : Engine) (a : List Item) : Engine := (awaited w a).elim e e.receive

section

variable {w : World} {l : Listener} {key : HostKey} {script : Script} {t : Talk} {e e' : Engine}
  {vs vs' : Variables} {a a' : List Item} {x : Option Event}

theorem Talk.Fair.note (fair : t.Fair) (fits : Fits w t a m) (x : Option Event) :
    (t.note m x).Fair := by
  cases x with
  | some event => exact ⟨Nat.zero_le _, fun _ _ => rfl, fun _ asked => absurd rfl asked⟩
  | none =>
    cases m with
    | did | answer => exact fair
    | call c =>
      cases c with
      | continueEngine =>
        obtain ⟨-, unasked, may⟩ := fits
        refine ⟨?_, fun node last => ?_, fun offers _ => ?_⟩
        · simp [Talk.note, unasked]
        · rcases last with last | last
          all_goals
            rw [show t.last = _ from last] at may
            exact may.elim
        · cases last : t.last with
          | none => simp [Talk.note, Talk.offers, last] at offers
          | some event =>
            cases event with
            | options set =>
              rw [last] at may
              exact may
            | _ => simp [Talk.note, Talk.offers, last] at offers
      | chooseOption id => exact ⟨fair.once, fair.silent, fun _ _ => by simp [Talk.note]⟩
      | _ => exact fits.elim

theorem Deed.reads (d : Deed w (.host key) e vs m a e' vs' a' x)
    (reads : e.Reads script (.host key)) : e'.Reads script (.host key) := by
  cases d with
  | replied | asked => exact reads
  | went => exact reads.continue?
  | turned e' r a taken =>
    obtain ⟨rs, taken⟩ := taken
    have turned := Engine.turn_turned (s := around w vs (.host key)) rfl reads.hearer
    rw [taken] at turned
    exact turned.reads reads
  | chose id => exact reads.choose id
  | heard key event x => exact reads.hear x
  | received key args v => exact reads.receive v

/-- Wherever the engine and its listener stand, they stand so after a deed that fits. -/
theorem Deed.poses (d : Deed w (.host key) e vs m a e' vs' a' x) (p : Poses t e a)
    (fits : Fits w t a m) (fair : t.Fair) (reads : e.Reads script (.host key)) :
    Poses (t.note m x) e' a' := by
  cases d with
  | replied => exact p
  | asked => exact p.asked fits.1
  | went c a => exact p.went fair
  | turned e' r a taken =>
    obtain ⟨rs, taken⟩ := taken
    have turned := Engine.turn_turned (s := around w vs (.host key)) rfl reads.hearer
    have reports := e.turn_reports (around w vs (.host key))
    rw [taken] at turned reports
    exact p.turned fair reads turned reports
  | chose id => exact p.chose fits.2 fits.1
  | heard key event x a => exact p.heard (fits _ rfl) fair reads
  | received key args v => exact p.received v

theorem receive_of_phase (other : ∀ purpose stack, e.phase ≠ .calling purpose stack) (v : Value) :
    e.receive v = e := by
  unfold Engine.receive
  split
  · next phase => exact absurd phase (other _ _)
  · rfl

theorem answered_of_phase (other : ∀ purpose stack, e.phase ≠ .calling purpose stack)
    (a : List Item) : answered w e a = e := by
  unfold answered
  cases awaited w a with
  | none => rfl
  | some v => exact receive_of_phase other v

theorem answered_requested (r : Request) : answered w e (requested r) = r.answered w e := by
  cases r with
  | report l => cases l <;> rfl
  | _ => rfl

/-- A deed goes on with the story, or leaves it where it is. -/
theorem Deed.outlook {σ : Story} {told : List Event}
    (d : Deed σ.world (.host key) e vs m a e' vs' a' x) (p : Poses t e a)
    (fits : Fits σ.world t a m) (reads : e.Reads σ.script (.host key))
    (picks : ∀ id ∈ t.choices, σ.player told = id) :
    σ.Reaches ((answered σ.world e a).outlook σ.world vs told)
      ((answered σ.world e' a').outlook σ.world vs' (told ++ x.toList)) := by
  have same {t t' : Tale} (eq : t = t') : σ.Reaches t t' := eq ▸ .refl
  have silent (e : Engine) (vs : Variables) :
      e.outlook σ.world vs (told ++ (none : Option Event).toList) = e.outlook σ.world vs told := by
    rw [Option.toList_none, List.append_nil]
  cases d with
  | replied | asked =>
    rw [silent]
    exact .refl
  | went c a =>
    have y := p.posed.of_continue
    have other (purpose : Engine.Purpose) (stack : List Engine.Frame) :
        e.phase ≠ .calling purpose stack ∧ e.continue?.1.phase ≠ .calling purpose stack := by
      rcases y with phase | ⟨use, phase⟩
      · simp [e.continue?_of_idle phase, phase]
      · simp [e.continue?_of_reported phase, phase]
    rw [silent, answered_of_phase fun _ _ => (other _ _).1,
      answered_of_phase fun _ _ => (other _ _).2, Engine.outlook_continue?]
    exact .refl
  | turned e' r a taken =>
    obtain ⟨rs, taken⟩ := taken
    obtain ⟨rfl, -⟩ := p.posed.of_turn
    rw [List.append_nil, answered_requested]
    have outlook : σ.Reaches (e.outlook σ.world vs told)
        (Engine.Turn.outlook σ.world vs told (e.turn (around σ.world vs (.host key)))) :=
      Engine.turn_outlook rfl rfl reads fun _ id waiting selected =>
        picks id (by simp [(p.waiting waiting).2, selected])
    rwa [taken] at outlook
  | chose id a =>
    have other (purpose : Engine.Purpose) (stack : List Engine.Frame) :
        e.phase ≠ .calling purpose stack := by
      rcases p.posed.of_free fits.1 with ⟨_, -, phase, -⟩ | ⟨_, _, _, -, _, phase, -⟩
      all_goals simp [phase]
    have same : (e.choose id).1.phase = e.phase := by
      obtain ⟨choice, same⟩ := e.choose_eq id
      rw [same]
    rw [silent, answered_of_phase other, answered_of_phase (same ▸ other), Engine.outlook_choose]
    exact .refl
  | heard key event x a =>
    obtain ⟨-, -, -, use, phase, -⟩ := p.posed.of_ask
    rw [silent, answered_of_phase (by simp [phase]),
      answered_of_phase (by simp [e.hear_of_reported phase]), Engine.outlook_hear]
    exact .refl
  | received key args v a =>
    obtain ⟨rfl, -⟩ := p.posed.of_invoke
    obtain rfl : v = σ.world.answer key args := fits _ rfl
    rw [silent]
    exact .refl

end

/-! ### Runs -/

/-- An engine at the start of a node, with its library and a listener of the host. -/
def poised (key : HostKey) (script : Script) (node : String) : Engine :=
  { script := script, node := some node, bound := true, listener := some (.host key) }

/-- The engine is ready to tell its script. -/
structure IsPlaced (s₀ : Session) (key : HostKey) (script : Script) (node : String) (w : World)
    (vs : Variables) : Prop where
  engine : s₀.engine = .script (poised key script node)
  storage : s₀.storage = some vs
  functions : s₀.functions = w.functions
  agenda : s₀.agenda = []

/-- What holds in every state of a run. -/
structure Stands (w : World) (key : HostKey) (script : Script) (s₀ s : Session) (h : History)
    (e : Engine) (vs : Variables) : Prop where
  hosts : Hosts s w e vs
  reads : e.Reads script (.host key)
  fair : (talk s₀ h).Fair
  poses : Poses (talk s₀ h) e (live s.agenda)

section

variable {w : World} {key : HostKey} {script : Script} {node : String} {vs₀ vs : Variables}
  {e : Engine}

theorem IsPlaced.stands (placed : s₀.IsPlaced key script node w vs₀) :
    Stands w key script s₀ s₀ [] (poised key script node) vs₀ where
  hosts := by
    refine ⟨placed.engine, placed.storage, placed.functions, ?_⟩
    simp [placed.agenda]
  reads := ⟨rfl, rfl, rfl, fun _ => ⟨rfl, rfl⟩, trivial⟩
  fair := ⟨Nat.zero_le _, fun _ _ => rfl, fun offers => by cases offers⟩
  poses := by
    refine ⟨?_, fun offers => (by cases offers), fun waiting => (by cases waiting),
      fun out => by cases out⟩
    refine .resting 0 ?_ rfl (Nat.le_refl 0) fun _ => ⟨rfl, fun _ last => by cases last⟩
    simp [placed.agenda, live]

theorem head?_live (word : s.awaitsHost = true) : (live s.agenda).head? = s.agenda.head? := by
  unfold awaitsHost at word
  split at word
  · next none => rw [none]; rfl
  · next top => rw [top]; rfl
  · next top => rw [top]; rfl
  · next top => rw [top]; rfl
  · cases word

theorem Answers.tail (answers : Answers w s₀ (m :: h)) : Answers w s₀ h := by
  cases m with
  | answer x => exact answers.2
  | did | call => exact answers

theorem Answers.earlier {newer older : History} (answers : Answers w s₀ (newer ++ older)) :
    Answers w s₀ older := by
  induction newer with
  | nil => exact answers
  | cons m newer ih => exact ih answers.tail

theorem Stands.next {e' : Engine} {vs' : Variables} {x : Option Event}
    (st : Stands w key script s₀ s h e vs) (r : Run (Directs s₀) s₀ s h) (hosts : Hosts s' w e' vs')
    (d : Deed w (.host key) e vs m (live s.agenda) e' vs' (live s'.agenda) x)
    (fits : Fits w (talk s₀ h) (live s.agenda) m) (told : x = s.reported? m) :
    Stands w key script s₀ s' (m :: h) e' vs' := by
  have next : talk s₀ (m :: h) = (talk s₀ h).note m x := by rw [talk, r.after_eq, told]
  exact ⟨hosts, d.reads st.reads, next ▸ st.fair.note fits x,
    next ▸ d.poses st.poses fits st.fair st.reads⟩

/-- In a run there are only deeds that fit, and what each of them keeps is kept. -/
theorem Run.deeds {motive : Engine → Variables → List Item → History → Prop}
    (placed : s₀.IsPlaced key script node w vs₀) (start : motive (poised key script node) vs₀ [] [])
    (step : ∀ {s s' : Session} {e e' : Engine} {vs vs' : Variables} {m : Mark} {h : History}
      {x : Option Event}, Run (Directs s₀) s₀ s h → Stands w key script s₀ s h e vs →
      Deed w (.host key) e vs m (live s.agenda) e' vs' (live s'.agenda) x →
      Fits w (talk s₀ h) (live s.agenda) m → x = s.reported? m →
      motive e vs (live s.agenda) h → motive e' vs' (live s'.agenda) (m :: h))
    (r : Run (Directs s₀) s₀ s h) (answers : Answers w s₀ h) :
    ∃ e vs, Stands w key script s₀ s h e vs ∧ motive e vs (live s.agenda) h := by
  induction r with
  | refl =>
    refine ⟨_, vs₀, placed.stands, ?_⟩
    rw [placed.agenda]
    exact start
  | work r busy top ih =>
    obtain ⟨e, vs, st, kept⟩ := ih answers.tail
    obtain ⟨e', vs', hosts, d⟩ := st.hosts.work st.reads busy top
    exact ⟨e', vs', st.next r hosts d trivial rfl, step r st d trivial rfl kept⟩
  | @call s h r word c ok ih =>
    obtain ⟨e, vs, st, kept⟩ := ih answers.tail
    obtain ⟨e', vs', hosts, d⟩ := st.hosts.call key ok
    have fits : Fits w (talk s₀ h) (live s.agenda) (.call c) := by
      obtain ⟨free, directs⟩ := ok
      have free : Free (live s.agenda) := by rwa [Free, head?_live word]
      cases c with
      | continueEngine | chooseOption => exact ⟨free, directs⟩
      | _ => exact directs
    exact ⟨e', vs', st.next r hosts d fits rfl, step r st d fits rfl kept⟩
  | @answer s h r x ok ih =>
    obtain ⟨e, vs, st, kept⟩ := ih answers.tail
    obtain ⟨e', vs', hosts, d⟩ := st.hosts.answer key ok
    have fits : Fits w (talk s₀ h) (live s.agenda) (.answer x) := by
      have suits := answers.1
      rw [r.after_eq, ← head?_live (awaitsHost_of_accepts ok)] at suits
      exact suits
    exact ⟨e', vs', st.next r hosts d fits rfl, step r st d fits rfl kept⟩

end

/-! ### The story that is told -/

/-- The choices that have been made, the newest first. -/
def chosen (h : History) : List OptionId :=
  h.filterMap fun m =>
    match m with
    | .call (.chooseOption id) => some id
    | _ => none

def isOffer : Event → Bool
  | .options _ => true
  | _ => false

/-- The player who makes the given choices, one for each set of options that is told. -/
def playerOf (ids : List OptionId) (told : List Event) : OptionId :=
  ids.getD (told.countP isOffer - 1) 0

/-- Every choice in a history is that of the player. -/
def Follows (player : List Event → OptionId) (s₀ : Session) (h : History) : Prop :=
  ∀ newer older id, h = newer ++ .call (.chooseOption id) :: older →
    player (events s₀ older).reverse = id

/-- Whether a choice is to be made. -/
def Talk.isOpen (t : Talk) : Bool := t.offers && t.choices.isEmpty

/-- What is told to a listener, and when nothing is left to be done. -/
structure Narrates (σ : Story) (start : Tale) (s₀ s : Session) (h : History) : Prop where
  /-- What has been told is the beginning of the story. -/
  faithful : ∃ n, (events s₀ h).reverse <+: (σ.tale start n).told
  /-- With nothing left to be done it is the whole story, or the story up to an event that the
  listener has not asked the engine to go on after. -/
  complete : s.agenda = [] → ∃ n, (σ.tale start n).told = (events s₀ h).reverse ∧
    ((σ.tale start n).spot = .ended ∨
      (talk s₀ h).continues = 0 ∧ ∀ event ∈ (talk s₀ h).last, event.waits = true)
  /-- The host gets the word. -/
  progress : ∃ n, (works n s h).1.awaitsHost = true

section

variable {σ : Story} {w : World} {key : HostKey} {script : Script} {node : String}
  {vs₀ vs vs' : Variables} {e e' : Engine} {t : Talk}

/-- A choice that has been made since the last event was made after it. -/
theorem exists_of_mem_choices {id : OptionId} (made : id ∈ (talk s₀ h).choices) :
    ∃ newer older, h = newer ++ .call (.chooseOption id) :: older ∧
      events s₀ older = events s₀ h := by
  induction h with
  | nil => cases made
  | cons m h ih =>
    rw [talk] at made
    rw [events]
    cases told : (after s₀ h).reported? m with
    | some event =>
      rw [told] at made
      cases made
    | none =>
      rw [told] at made
      have earlier (made : id ∈ (talk s₀ h).choices) : ∃ newer older,
          m :: h = newer ++ .call (.chooseOption id) :: older ∧ events s₀ older = events s₀ h := by
        obtain ⟨newer, older, rfl, same⟩ := ih made
        exact ⟨m :: newer, older, rfl, same⟩
      unfold Talk.note at made
      dsimp only at made
      split at made
      · exact earlier made
      · next id' =>
        rcases List.mem_cons.1 made with rfl | made
        · exact ⟨[], h, rfl, rfl⟩
        · exact earlier made
      · exact earlier made

theorem goesOn_of_report {r : Request} {event : Event} (d : Turned (.host key) e e' r)
    (told : r.event? = some event) : e.phase.goesOn = true := by
  cases d with
  | depart phase | begin phase | closed _ phase => rw [phase]; rfl
  | report p | offer p => exact p.goesOn
  | done p => exact p.goesOn
  | _ => cases told

theorem Deed.counts {a a' : List Item} {x : Option Event} {told : Nat}
    (d : Deed w (.host key) e vs m a e' vs' a' x) (p : Poses t e a) (fits : Fits w t a m)
    (reads : e.Reads script (.host key))
    (counts : told = (chosen h).length + t.isOpen.toNat) :
    x.toList.countP isOffer + told = (chosen (m :: h)).length + (t.note m x).isOpen.toNat := by
  cases d with
  | replied | went | heard | received | asked => exact (Nat.zero_add told).trans counts
  | chose id a =>
    obtain ⟨-, unchosen, set, last, -⟩ := fits
    have open_ : t.isOpen = true := by simp [Talk.isOpen, Talk.offers, last, unchosen]
    have closed : (t.note (.call (.chooseOption id)) none).isOpen = false := by
      simp [Talk.isOpen, Talk.note]
    rw [counts, open_, closed]
    exact Nat.zero_add _
  | turned e' r a taken =>
    obtain ⟨rs, taken⟩ := taken
    have turned := Engine.turn_turned (s := around w vs (.host key)) rfl reads.hearer
    rw [taken] at turned
    cases reported : r.event? with
    | none => exact (Nat.zero_add told).trans counts
    | some event =>
      obtain ⟨-, decided, -⟩ := p.posed.of_goesOn (goesOn_of_report turned reported)
      have closed : t.isOpen = false := by
        cases offers : t.offers with
        | true => simp [Talk.isOpen, decided offers]
        | false => simp [Talk.isOpen, offers]
      have opens : (t.note (.did .turn) (some event)).isOpen = isOffer event := by
        cases event <;> rfl
      rw [counts, closed, opens]
      cases event <;> simp [isOffer, chosen, Nat.add_comm]

/-- The choices that have been made are one for each set of options, but for an open one. -/
theorem Run.counts (placed : s₀.IsPlaced key script node w vs₀) (r : Run (Directs s₀) s₀ s h)
    (answers : Answers w s₀ h) :
    (events s₀ h).countP isOffer = (chosen h).length + (talk s₀ h).isOpen.toNat := by
  obtain ⟨_, _, -, counts⟩ := r.deeds (motive := fun _ _ _ h =>
      (events s₀ h).countP isOffer = (chosen h).length + (talk s₀ h).isOpen.toNat) placed
    rfl
    (fun r st d fits told counts => by
      rw [events, talk, r.after_eq, ← told, List.countP_append]
      exact d.counts st.poses fits st.reads counts) answers
  exact counts

/-- The choices in a history are those of a player who makes them. -/
theorem Run.follows (placed : s₀.IsPlaced key script node w vs₀) (r : Run (Directs s₀) s₀ s h)
    (answers : Answers w s₀ h) : Follows (playerOf (chosen h).reverse) s₀ h := by
  rintro newer older id rfl
  obtain ⟨s', r'⟩ := r.earlier
  have answers' := answers.earlier.tail
  cases r' with
  | call r' word _ ok =>
    obtain ⟨-, unchosen, set, last, -⟩ := ok
    have counts := r'.counts placed answers'
    have open_ : (talk s₀ older).isOpen = true := by simp [Talk.isOpen, Talk.offers, last, unchosen]
    rw [open_] at counts
    have split : (chosen (newer ++ .call (.chooseOption id) :: older)).reverse =
        (chosen older).reverse ++ id :: (chosen newer).reverse := by
      simp [chosen]
    rw [playerOf, split, List.countP_reverse, counts]
    simp

theorem Follows.tail {player : List Event → OptionId} (follows : Follows player s₀ (m :: h)) :
    Follows player s₀ h :=
  fun newer older id same => follows (m :: newer) older id (congrArg (m :: ·) same)

/-- Whatever has happened, the engine is telling the story. -/
theorem Run.reaches (σ : Story) (placed : s₀.IsPlaced key σ.script node σ.world vs₀)
    (r : Run (Directs s₀) s₀ s h) (answers : Answers σ.world s₀ h)
    (follows : Follows σ.player s₀ h) :
    ∃ e vs, Stands σ.world key σ.script s₀ s h e vs ∧
      σ.Reaches ⟨[], vs₀, .entrance node⟩
        ((answered σ.world e (live s.agenda)).outlook σ.world vs (events s₀ h).reverse) := by
  obtain ⟨e, vs, st, reaches⟩ := r.deeds (motive := fun e vs a h => Follows σ.player s₀ h →
      σ.Reaches ⟨[], vs₀, .entrance node⟩
        ((answered σ.world e a).outlook σ.world vs (events s₀ h).reverse)) placed
    (fun _ => .refl)
    (fun {s s' e e' vs vs' m h x} r st d fits told reaches follows => by
      have picks : ∀ id ∈ (talk s₀ h).choices, σ.player (events s₀ h).reverse = id := by
        intro id made
        obtain ⟨newer, older, rfl, same⟩ := exists_of_mem_choices made
        rw [← same]
        exact follows.tail newer older id rfl
      have further := (reaches follows.tail).trans (d.outlook st.poses fits st.reads picks)
      have events' : (events s₀ (m :: h)).reverse = (events s₀ h).reverse ++ x.toList := by
        rw [events, r.after_eq, ← told]
        cases x <;> simp
      rw [events']
      exact further) answers
  exact ⟨e, vs, st, reaches follows⟩

/-! ### The host gets the word -/

def isContinue : Item → Bool
  | .continueEngine _ => true
  | _ => false

/-- Whatever the session does by itself leaves less to be done. -/
theorem Deed.lowers {i : Item} {a a' : List Item} {x : Option Event}
    (d : Deed w (.host key) e vs (.did i) a e' vs' a' x) (p : Poses t e a)
    (reads : e.Reads script (.host key)) :
    a'.countP isContinue < a.countP isContinue ∨
      a'.countP isContinue = a.countP isContinue ∧ e'.effort < e.effort ∨
      a' = a ∧ e' = e ∧ ∃ r, i = .reply r := by
  cases d with
  | replied r => exact .inr (.inr ⟨rfl, rfl, r, rfl⟩)
  | went c a =>
    left
    rw [List.countP_append, List.countP_cons_of_pos rfl]
    split <;> simp [isContinue]
  | turned e' r a taken =>
    right; left
    obtain ⟨rs, taken⟩ := taken
    obtain rfl := p.posed.of_turn.1
    have turned := Engine.turn_turned (s := around w vs (.host key)) rfl reads.hearer
    have less := Engine.effort_turn_lt e _ turned (e.effort_pos p.posed.busy)
    rw [taken] at less
    refine ⟨?_, less⟩
    cases r with
    | report l => cases l <;> rfl
    | _ => rfl

/-- The session does not work for ever. -/
theorem Stands.settles {s : Session} {h : History} {e : Engine} {vs : Variables}
    (st : Stands w key script s₀ s h e vs) (r : Run (Directs s₀) s₀ s h) :
    ∃ n, (works n s h).1.awaitsHost = true := by
  cases busy : s.awaitsHost with
  | true => exact ⟨0, busy⟩
  | false =>
    cases top : s.agenda with
    | nil => simp [awaitsHost, top] at busy
    | cons i rest =>
      obtain ⟨e', vs', hosts, d⟩ := st.hosts.work st.reads busy top
      have less := d.lowers st.poses st.reads
      obtain ⟨n, word⟩ := (st.next r hosts d trivial rfl).settles (r.work busy top)
      refine ⟨n + 1, ?_⟩
      rwa [works_succ busy top]
termination_by ((live s.agenda).countP isContinue, e.effort, s.agenda.length)
decreasing_by
  rcases less with less | ⟨same, less⟩ | ⟨same, rfl, r, rfl⟩
  · exact .left _ _ less
  · rw [same]
    exact .right _ (.left _ _ less)
  · rw [same]
    refine .right _ (.right _ ?_)
    rw [step_eq_work busy top, top]
    exact Nat.lt_succ_self _

end

/-- A script with a choice that depends on a variable, and a line that a function fills. -/
def goThenBye : Script :=
  ⟨⟨[("A", [.set "$x" (.literal (.bool true)),
      .options [{ text := "Go", condition := some (.read "$x"), destination := some "B" }]]),
    ("B", [.line "bye" "Bye, {0}" [.call "name" []]])], by decide⟩⟩

/-- A world in which the name is known. -/
def named : World := ⟨⟨⟨[("name", ⟨0, 7⟩)], by decide⟩⟩, fun _ _ => .text "Ada"⟩

/-- A session that is ready to tell the script to a listener. -/
def byeReady : Session :=
  { engine := .script (poised 0 goThenBye "A"), storage := some {}, functions := named.functions }

end Prompter.Session

import Prompter.Proofs.Engine.Toil
import Prompter.Proofs.Engine.Utterance
import Prompter.Proofs.Session.Finality
import Prompter.Proofs.Session.Handles

/-!
# Prompter.Proofs.Session.Away

A run of the engine that has not returned yet.

Whoever asks the engine to go on waits until it returns; what is left to be done after that is the
`base` of the agenda. Until then the engine either has its turn, and then nothing else can happen,
or it waits for an answer or for a function, on top of which the host may do what it likes
(`Bears`). `Away.next` says what becomes of this with everything that happens.
-/

namespace Prompter

/-- Whether an item leads to an answer for the engine, which is `wait` if something is shown to the
player. -/
def Item.Replies (shown : Bool) (handles : Nat) : Item → Prop
  | .ask _ event | .hear .engine event => shown = true → event.presents = true
  | .conclude .engine answer => shown = true → answer = .wait
  | .afterCall _ k (.event .engine) => k < handles ∧ shown = false
  | .outcome _ _ (.event .engine) => shown = false
  | _ => False

theorem Item.Replies.mono {shown : Bool} {handles handles' : Nat} {i : Item}
    (replies : i.Replies shown handles) (le : handles ≤ handles') : i.Replies shown handles' := by
  unfold Item.Replies at replies
  split at replies
  case h_4 => exact ⟨Nat.lt_of_lt_of_le replies.1 le, replies.2⟩
  case h_6 => cases replies
  all_goals exact replies

namespace Session

open Engine (Phase Nudge)

/-- Whether the engine waits for somebody to whom something is told that is shown to the player, or
for a function that is called for that; the flag says whether its last event is shown. -/
def isShowing (s : Session) (shown : Bool) : Bool :=
  match s.engine with
  | .script e => e.phase.isShowing shown
  | _ => false

/-- The host keeps to the rules. Lines and options are answered `wait`, nobody asks the engine to go
on while one is told or its parts are evaluated, and nobody puts the engine at a node. All else is
up to the host. -/
def Obliges (s : Session) (shown : Bool) : Mark → Prop
  | .call c => s.places? c = none
  | .did (.continueEngine _) => s.isShowing shown = false
  | .did _ => True
  | .answer x => ∀ key event rest, s.agenda = .ask key event :: rest → event.presents = true →
      x = .action .wait

/-- Whether the last event of the engine is shown to the player, after something has happened. -/
def shownAfter (s : Session) (shown : Bool) (m : Mark) : Bool :=
  ((s.reported? m).map Event.presents).getD shown

/-- What a waiting engine waits for. -/
def IsAwaited (shown : Bool) (handles : Nat) (i : Item) : Phase → Prop
  | .calling _ _ => ∃ key args, i = .invoke key args .engine
  | .reported _ => i.Replies shown handles
  | _ => False

/-- What is left to be done while the engine is in a phase. -/
inductive Bears (base : List Item) (shown : Bool) (handles : Nat) (p : Phase) : List Item → Prop
  | due (due : p.isDue = true) : Bears base shown handles p (.turn :: base)
  | waiting (i : Item) (awaited : IsAwaited shown handles i p) (above : List Item)
      (others : ∀ j ∈ above, j.ofEngine = false) :
      Bears base shown handles p (above ++ i :: base)

/-- The engine has not returned yet. -/
structure Away (base : List Item) (shown : Bool) (s : Session) (e : Engine) : Prop where
  engine : s.engine = .script e
  steady : e.Steady shown
  bears : Bears base shown s.handles.length e.phase s.agenda

/-- Whether the engine takes its turn. -/
def Mark.isTurn : Mark → Bool
  | .did .turn => true
  | _ => false

/-- What becomes of an engine that has not returned yet, when something happens; the flags say
whether its last event is shown, before and after that. -/
structure Nears (base : List Item) (before shown : Bool) (e : Engine) (m : Mark) (s' : Session)
    (e' : Engine) : Prop where
  script : e'.script = e.script
  /-- A turn leaves less to be done, and nothing else leaves more. -/
  toil : e'.toil shown + m.isTurn.toNat ≤ e.toil before
  /-- The engine has returned, or it has not. -/
  stage : s'.engine = .script e' ∧ e'.phase = .idle ∧ s'.agenda = base ∨
    Away base shown s' e'

section

variable {base : List Item} {shown : Bool} {s s' : Session} {e e' : Engine} {m : Mark}

/-! ### What the engine is not asked about -/

attribute [local simp] Item.ofEngine Item.answersEngine in
/-- What a request does to the engine, and that the items it puts on the agenda are not the
engine's. -/
theorem call_nudges (shown : Bool) (he : s.engine = .script e) {c : Call}
    (unplaced : s.places? c = none) :
    ∃ e' items, (s.call c).1.engine = .script e' ∧ Nudge e shown e' ∧
      (∀ j ∈ items, j.ofEngine = false) ∧ (s.call c).1.agenda = items ++ s.agenda := by
  have kept (s' : Session) (items : List Item) (others : ∀ j ∈ items, j.ofEngine = false)
      (engine : s'.engine = s.engine) (agenda : s'.agenda = items ++ s.agenda) :
      ∃ e' items, s'.engine = .script e' ∧ Nudge e shown e' ∧
        (∀ j ∈ items, j.ofEngine = false) ∧ s'.agenda = items ++ s.agenda :=
    ⟨e, items, engine.trans he, .refl e shown, others, agenda⟩
  have requests := s.call_requests c
  have apart := requests.apart
  generalize s.call c = p at requests apart ⊢
  cases requests with
  | declined => exact kept s [] (by simp) rfl rfl
  | start named can => simp [places?, named, can] at unplaced
  | stopEmpty _ seat | stopHost _ seat => cases he.symm.trans seat
  | stopScript _ seat =>
    cases he.symm.trans seat
    exact ⟨_, [.finish, .lease, .reply .done], rfl, .stop, by simp, rfl⟩
  | continueEngine => exact kept _ [.continueEngine .host, .reply .done] (by simp) rfl rfl
  | @chooseOption id _ chooses =>
    cases chooses with
    | nobody seat | host seat => cases he.symm.trans seat
    | script seat =>
      cases he.symm.trans seat
      exact ⟨_, [.reply .done], rfl, .choose id, by simp, rfl⟩
  | @place node _ _ seat placed =>
    cases he.symm.trans seat
    have unknown : e.hasNode node = false := by simpa [places?, hasNode, he] using unplaced
    cases unknown.symm.trans (Engine.place_eq_ok.1 placed).1
  | stopEngine seat =>
    cases he.symm.trans seat
    exact ⟨_, [], rfl, .stop, by simp, rfl⟩
  | bind seat =>
    cases he.symm.trans seat
    exact ⟨_, [], rfl, .equip true e.listener, by simp, rfl⟩
  | attach l seat =>
    cases he.symm.trans seat
    exact ⟨_, [], rfl, .equip e.bound (some l), by simp, rfl⟩
  | detach seat =>
    cases he.symm.trans seat
    exact ⟨_, [], rfl, .equip e.bound none, by simp, rfl⟩
  | release => exact kept _ [] (by simp) rfl rfl
  | _ =>
    have apart := apart rfl (by simp) (by simp)
    obtain ⟨items, others, agenda⟩ := apart.puts
    exact kept _ items others apart.engine agenda

/-- What work that is not the engine's does to an engine that waits. -/
theorem work_nudges (shown : Bool) (he : s.engine = .script e)
    (waits : e.phase.isWaiting = true) {i : Item} (own : i.callsHost = false)
    (part : i.ofEngine = false)
    (unshown : ∀ c, i = .continueEngine c → s.isShowing shown = false) :
    ∃ e' items, (s.work i).1.engine = .script e' ∧ Nudge e shown e' ∧
      (∀ j ∈ items, j.ofEngine = false) ∧ (s.work i).1.agenda = items ++ s.agenda := by
  by_cases asks : ∃ c, i = .continueEngine c
  · obtain ⟨c, rfl⟩ := asks
    have other : e.phase.isShowing shown = false := by
      have showing := unshown c rfl
      rwa [isShowing, he] at showing
    have running : e.isRunning = true := Engine.isRunning_of_isWaiting waits
    refine ⟨_, [], ?_, .continue_ other, by simp, ?_⟩ <;>
      simp [Session.work, continueEngine, he, Engine.continue?, running, push]
  · by_cases chooses : ∃ n id, i = .chooseOption n id
    · obtain ⟨n, id, rfl⟩ := chooses
      refine ⟨_, [], ?_, .choose id, by simp, ?_⟩ <;> simp [Session.work, chooseOption, he]
    · have apart := (work_works s i).apart part (fun c same => asks ⟨c, same⟩)
        fun n id same => chooses ⟨n, id, same⟩
      obtain ⟨items, new, agenda⟩ := apart.puts
      exact ⟨e, items, apart.engine.trans he, .refl e shown, new, agenda⟩

/-! ### Answers on their way -/

theorem IsAwaited.mono {handles handles' : Nat} {i : Item} {p : Phase}
    (awaited : IsAwaited shown handles i p) (le : handles ≤ handles') :
    IsAwaited shown handles' i p := by
  cases p with
  | reported use => exact Item.Replies.mono awaited le
  | _ => exact awaited

theorem isTurn_eq_false {i : Item} (other : i ≠ .turn) : (Mark.did i).isTurn = false := by
  cases i with
  | turn => exact absurd rfl other
  | _ => rfl

/-- The handles of the commands that an item puts on the agenda are known. -/
theorem Happens.known {i : Item} {items rest : List Item} (happens : Happens s (.did i) s')
    (top : s.agenda = i :: rest) (agenda : s'.agenda = items ++ rest) :
    ∀ j ∈ items, ∀ k, j.handle? = some k → k < s'.handles.length := by
  obtain ⟨items', rest', takes, agenda', new⟩ := happens.puts
  obtain rfl : rest' = rest := by
    rw [top] at takes
    cases takes
    rfl
  obtain rfl : items' = items := List.append_cancel_right (agenda'.symm.trans agenda)
  intro j hj k hk
  rcases new j hj k hk with ⟨-, lt⟩ | ⟨lt, -⟩
  · exact lt
  · exact Nat.lt_of_lt_of_le lt happens.length_le

/-- Any part of an answer will do where nothing is shown. -/
theorem replies_of_answersEngine {i : Item} {handles : Nat} (answers : i.answersEngine = true)
    (known : ∀ k, i.handle? = some k → k < handles) : i.Replies false handles := by
  unfold Item.answersEngine at answers
  split at answers
  · exact fun shows => by cases shows
  · exact fun shows => by cases shows
  · exact ⟨known _ rfl, rfl⟩
  · rfl
  · cases answers

/-! ### Whatever happens -/

/-- An engine waits for a function that it has called, or for an answer to its event. -/
theorem IsAwaited.cases {handles : Nat} {i : Item} {p : Phase}
    (awaited : IsAwaited shown handles i p) :
    (∃ purpose stack key args, p = .calling purpose stack ∧ i = .invoke key args .engine) ∨
      ∃ use, p = .reported use ∧ i.Replies shown handles := by
  cases p with
  | calling purpose stack =>
    obtain ⟨key, args, same⟩ := awaited
    exact .inl ⟨purpose, stack, key, args, rfl, same⟩
  | reported use => exact .inr ⟨use, rfl, awaited⟩
  | idle | step | settle | evaluate | heard => cases awaited

theorem isWaiting_of_isAwaited {handles : Nat} {i : Item} {p : Phase}
    (awaited : IsAwaited shown handles i p) : p.isWaiting = true := by
  rcases awaited.cases with ⟨purpose, stack, -, -, rfl, -⟩ | ⟨use, rfl, -⟩ <;> rfl

theorem shownAfter_of_quiet (quiet : s.reported? m = none) : s.shownAfter shown m = shown := by
  rw [shownAfter, quiet]
  rfl

/-- The engine goes on waiting. -/
theorem nears_of_idles {i : Item} (above : List Item)
    (awaited : IsAwaited shown s.handles.length i e.phase) (quiet : s.reported? m = none)
    (unturned : m.isTurn = false)
    (idles : Engine.Idles e shown e') (engine : s'.engine = .script e')
    (grows : s.handles.length ≤ s'.handles.length)
    (others : ∀ j ∈ above, j.ofEngine = false) (agenda : s'.agenda = above ++ i :: base) :
    Nears base shown (s.shownAfter shown m) e m s' e' := by
  rw [shownAfter_of_quiet quiet]
  refine ⟨idles.script, ?_, .inr ⟨engine, idles.steady, ?_⟩⟩
  · rw [unturned]
    exact idles.toil
  · rw [agenda, idles.phase]
    exact .waiting i (awaited.mono grows) above others

namespace Away

variable (out : Away base shown s e)

include out

/-- The engine takes its turn. -/
theorem turned (forward : e.script.IsForward) (due : e.phase.isDue = true)
    (top : s.agenda = .turn :: base) (happens : Happens s m s') :
    ∃ e', Nears base shown (s.shownAfter shown m) e m s' e' := by
  obtain rfl : m = .did .turn := happens.of_busy rfl (by rw [top]; rfl)
  obtain ⟨rest, top', rfl⟩ := happens.top
  obtain rfl : rest = base := (List.cons.inj (top'.symm.trans top)).2
  have spends :=
    Engine.turn_spends ({ s with agenda := rest }.surroundings e) forward due out.steady
  have told : s.shownAfter shown (.did .turn) =
      (e.turn ({ s with agenda := rest }.surroundings e)).2.1.shown shown := by
    simp only [shownAfter, reported?, out.engine, top, List.tail_cons, Engine.Request.shown]
  have own := ((Engine.Act.turn (e := e) ({ s with agenda := rest }.surroundings e)).utters rfl).1
  obtain ⟨storage, shape⟩ := turn_shape (s := { s with agenda := rest }) out.engine
  replace shape : ({ s with agenda := rest }.work .turn).1 = _ := shape
  rw [shape, told]
  generalize e.turn ({ s with agenda := rest }.surroundings e) = t at spends own
  obtain ⟨e', r, rs⟩ := t
  have fits := spends.fits
  refine ⟨e', own, spends.less, ?_⟩
  cases r with
  | rest => exact .inl ⟨rfl, fits, rfl⟩
  | again => exact .inr ⟨rfl, spends.steady, .due fits⟩
  | store name v => exact .inr ⟨rfl, spends.steady, .due fits⟩
  | report l event =>
    obtain ⟨use, phase⟩ := fits
    refine .inr ⟨rfl, spends.steady, ?_⟩
    cases l with
    | dialogue => exact .waiting (.hear .engine event) (by rw [phase]; exact id) [] (by simp)
    | host key => exact .waiting (.ask key event) (by rw [phase]; exact id) [] (by simp)
  | invoke key args =>
    obtain ⟨purpose, stack, phase⟩ := fits
    refine .inr ⟨rfl, spends.steady, ?_⟩
    exact .waiting (.invoke key args .engine) (by rw [phase]; exact ⟨key, args, rfl⟩) [] (by simp)

/-- The engine is answered. -/
theorem heard {use : Engine.Use} (phase : e.phase = .reported use) (quiet : s.reported? m = none)
    (unturned : m.isTurn = false) (x : NextAction) (waits : shown = true → x = .wait)
    (engine : s'.engine = .script (e.hear x)) (agenda : s'.agenda = .turn :: base) :
    ∃ e', Nears base shown (s.shownAfter shown m) e m s' e' := by
  obtain ⟨steady, toil⟩ := Engine.hear_steady phase waits out.steady
  rw [shownAfter_of_quiet quiet]
  refine ⟨e.hear x, ((Engine.Act.hear (e := e) x).utters rfl).1, ?_, .inr ⟨engine, steady, ?_⟩⟩
  · rw [unturned]
    exact Nat.le_of_eq toil
  · rw [agenda]
    exact .due (by rw [e.hear_of_reported phase]; rfl)

/-- What is on top of what the engine waits for is done. -/
theorem worked {i j : Item} {above rest : List Item}
    (awaited : IsAwaited shown s.handles.length i e.phase)
    (others : ∀ k ∈ j :: above, k.ofEngine = false) (busy : s.awaitsHost = false)
    (top : s.agenda = j :: rest) (below : rest = above ++ i :: base)
    (obliges : Obliges s shown (.did j)) :
    ∃ e', Nears base shown (s.shownAfter shown (.did j)) e (.did j) s.step.1 e' := by
  have part : j.ofEngine = false := others j List.mem_cons_self
  replace others : ∀ k ∈ above, k.ofEngine = false := (List.forall_mem_cons.1 others).2
  have grows := (Happens.work busy top).length_le
  have waits := isWaiting_of_isAwaited awaited
  have other : j ≠ .turn := by
    rintro rfl
    cases part
  have quiet : s.reported? (.did j) = none := reported?_eq_none other
  have unturned := isTurn_eq_false other
  have own : j.callsHost = false := by
    unfold awaitsHost at busy
    cases j <;> simp [top] at busy <;> rfl
  rw [step_eq_work busy top] at grows ⊢
  obtain ⟨e', items, engine, nudge, new, puts⟩ :=
    work_nudges (s := { s with agenda := rest }) shown out.engine waits own part
      (fun c same => by subst same; exact obliges)
  refine ⟨e', nears_of_idles (items ++ above) awaited quiet unturned
    (nudge.idles waits out.steady) engine grows (List.forall_mem_append.2 ⟨new, others⟩) ?_⟩
  rw [puts, List.append_assoc]
  exact congrArg (items ++ ·) below

/-- An answer goes on to its next part. -/
theorem forwarded {use : Engine.Use} {i j : Item} {items : List Item}
    (phase : e.phase = .reported use) (part : i.answersEngine = true)
    (engine : s.step.1.engine = s.engine)
    (agenda : s.step.1.agenda = items ++ j :: base) (others : ∀ k ∈ items, k.ofEngine = false)
    (replies : j.Replies shown s.step.1.handles.length) :
    ∃ e', Nears base shown (s.shownAfter shown (.did i)) e (.did i) s.step.1 e' := by
  have other : i ≠ .turn := by
    rintro rfl
    cases part
  rw [shownAfter_of_quiet (reported?_eq_none other)]
  refine ⟨e, rfl, ?_, .inr ⟨engine.trans out.engine, out.steady, ?_⟩⟩
  · rw [isTurn_eq_false other]
    exact Nat.le_refl _
  · rw [agenda, phase]
    refine .waiting j ?_ items others
    exact replies

/-- An event that shows nothing is on its way to an answer. -/
theorem led {use : Engine.Use} {i : Item} (phase : e.phase = .reported use)
    (busy : s.awaitsHost = false) (top : s.agenda = i :: base) (part : i.answersEngine = true)
    (other : shown = false) (leads : Leads { s with agenda := base } s.step.1 true) :
    ∃ e', Nears base shown (s.shownAfter shown (.did i)) e (.did i) s.step.1 e' := by
  obtain ⟨items, j, others, -, answers, agenda⟩ := leads.puts
  refine out.forwarded phase part leads.engine agenda others ?_
  have known := (Happens.work busy top).known top
    (show s.step.1.agenda = (items ++ [j]) ++ base by simp [agenda])
  rw [other]
  exact replies_of_answersEngine answers (known j (by simp))

/-- An answer is worked out. -/
theorem replied {use : Engine.Use} {i : Item} (phase : e.phase = .reported use)
    (replies : i.Replies shown s.handles.length) (busy : s.awaitsHost = false)
    (top : s.agenda = i :: base) :
    ∃ e', Nears base shown (s.shownAfter shown (.did i)) e (.did i) s.step.1 e' := by
  have step : s.step.1 = (({ s with agenda := base } : Session).work i).1 :=
    congrArg Prod.fst (step_eq_work busy top)
  have concluded (x : NextAction) (waits : shown = true → x = .wait)
      (quiet : s.reported? (.did i) = none) (unturned : (Mark.did i).isTurn = false)
      (same : s.step.1 = ({ s with agenda := base }.conclude .engine x).1) :
      ∃ e', Nears base shown (s.shownAfter shown (.did i)) e (.did i) s.step.1 e' := by
    refine out.heard phase quiet unturned x waits ?_ ?_ <;> simp [same, conclude, out.engine]
  cases i with
  | ask key event => simp [awaitsHost, top] at busy
  | hear r event =>
    cases r with
    | host => cases replies
    | engine =>
      have shows (shows : event.presents = true) :
          ∃ items, s.step.1.engine = s.engine ∧ (∀ k ∈ items, k.ofEngine = false) ∧
            s.step.1.agenda = items ++ .conclude .engine .wait :: base := by
        rw [step]
        cases event with
        | line line =>
          exact ⟨[.present _ none], rfl, by simp [Item.ofEngine, Item.answersEngine], rfl⟩
        | options set =>
          exact ⟨s.tellViews _, rfl, forall_mem_tellViews fun _ => rfl, List.append_assoc ..⟩
        | _ => cases shows
      cases presents : event.presents with
      | true =>
        obtain ⟨items, engine, others, agenda⟩ := shows presents
        exact out.forwarded phase rfl engine agenda others fun _ => rfl
      | false =>
        refine out.led phase busy top rfl ?_ ?_
        · cases shown with
          | false => rfl
          | true => exact (replies rfl).symm.trans presents
        · rw [step]
          exact hear_leads _ .engine event
  | conclude r x =>
    cases r with
    | host => cases replies
    | engine => exact concluded x replies rfl rfl step
  | afterCall name k use =>
    rcases use with (_ | _) | _
    · obtain ⟨known, other⟩ := replies
      refine out.led phase busy top rfl other ?_
      rw [step]
      exact afterCall_leads _ name k (.event .engine) (by simp [known])
    · cases replies
    · cases replies
  | outcome k o use =>
    rcases use with (_ | _) | _
    · refine concluded _ (fun yes => ?_) rfl rfl step
      exact Bool.noConfusion (yes.symm.trans replies)
    · cases replies
    · cases replies
  | _ => cases replies

/-- The host makes a request. -/
theorem called {i : Item} {above : List Item} {c : Call}
    (awaited : IsAwaited shown s.handles.length i e.phase)
    (others : ∀ k ∈ above, k.ofEngine = false) (word : s.awaitsHost = true)
    (agenda : s.agenda = above ++ i :: base) (unplaced : s.places? c = none) :
    ∃ e', Nears base shown (s.shownAfter shown (.call c)) e (.call c) (s.call c).1 e' := by
  obtain ⟨e', items, engine, nudge, new, puts⟩ :=
    call_nudges shown out.engine unplaced
  refine ⟨e', nears_of_idles (items ++ above) awaited rfl rfl
    (nudge.idles (isWaiting_of_isAwaited awaited) out.steady) engine
    (Happens.call word c).length_le (List.forall_mem_append.2 ⟨new, others⟩) ?_⟩
  rw [puts, agenda, List.append_assoc]

/-- The host answers. -/
theorem answered {i : Item} {above : List Item} {x : Answer}
    (awaited : IsAwaited shown s.handles.length i e.phase)
    (others : ∀ k ∈ above, k.ofEngine = false) (fits : s.accepts x = true)
    (agenda : s.agenda = above ++ i :: base) (obliges : Obliges s shown (.answer x)) :
    ∃ e', Nears base shown (s.shownAfter shown (.answer x)) e (.answer x) (s.answer x).1 e' := by
  have grows := (Happens.answer x fits).length_le
  have answered := answered_of_accepts fits
  generalize (s.answer x).1 = s' at answered grows ⊢
  cases above with
  | cons j above =>
    have part : j.ofEngine = false := others j List.mem_cons_self
    replace others : ∀ k ∈ above, k.ofEngine = false := (List.forall_mem_cons.1 others).2
    -- what is on top is over, and the engine goes on waiting
    have taken : s' = { s with agenda := above ++ i :: base } := by
      cases answered with
      | heard n rest top | replied key args rest v top =>
        obtain ⟨-, rfl⟩ := List.cons.inj (top.symm.trans agenda)
        rfl
      | action key event rest y top | received key args rest v top =>
        obtain ⟨rfl, -⟩ := List.cons.inj (top.symm.trans agenda)
        cases part
    rw [taken]
    exact ⟨e, nears_of_idles above awaited rfl rfl
      ((Nudge.refl e shown).idles (isWaiting_of_isAwaited awaited) out.steady) out.engine
      (Nat.le_refl _) others rfl⟩
  | nil =>
    rcases awaited.cases with ⟨purpose, stack, key, args, phase, rfl⟩ | ⟨use, phase, replies⟩
    · cases answered with
      | heard n rest top | action key' event rest y top | replied key' args' rest v top =>
        cases top.symm.trans agenda
      | received key args rest v top =>
        obtain ⟨-, rfl⟩ := List.cons.inj (top.symm.trans agenda)
        obtain ⟨steady, toil⟩ := Engine.receive_steady phase v out.steady
        simp only [mapEngine, out.engine]
        rw [shownAfter_of_quiet rfl]
        refine ⟨e.receive v, ((Engine.Act.receive (e := e) v).utters rfl).1, Nat.le_of_eq toil,
          .inr ⟨rfl, steady, .due ?_⟩⟩
        rw [e.receive_of_calling phase]
        rfl
    · cases answered with
      | heard n rest top | received key args rest v top | replied key args rest v top =>
        obtain ⟨rfl, -⟩ := List.cons.inj (top.symm.trans agenda)
        cases replies
      | action key event rest y top =>
        obtain ⟨rfl, rfl⟩ := List.cons.inj (top.symm.trans agenda)
        have waits (yes : shown = true) : y = .wait :=
          Answer.action.inj (obliges key event rest agenda (replies yes))
        refine out.heard phase rfl rfl y waits ?_ ?_ <;> simp [conclude, out.engine]

/-- Whatever happens while an engine has not returned, it gets no further from doing so. -/
theorem next (forward : e.script.IsForward) (happens : Happens s m s')
    (obliges : Obliges s shown m) :
    ∃ e', Nears base shown (s.shownAfter shown m) e m s' e' := by
  have bears := out.bears
  generalize agenda : s.agenda = a at bears
  cases bears with
  | due due => exact out.turned forward due agenda happens
  | waiting i awaited above others =>
    cases happens with
    | call word c => exact out.called awaited others word agenda obliges
    | answer x fits => exact out.answered awaited others fits agenda obliges
    | @work busy j rest top =>
      cases above with
      | cons k above =>
        rw [agenda] at top
        obtain ⟨rfl, rfl⟩ := List.cons.inj top
        exact out.worked awaited others busy agenda rfl obliges
      | nil =>
        rw [agenda] at top
        obtain ⟨rfl, rfl⟩ := List.cons.inj top
        rcases awaited.cases with ⟨purpose, stack, key, args, phase, rfl⟩ | ⟨use, phase, replies⟩
        · simp [awaitsHost, agenda] at busy
        · exact out.replied phase replies busy agenda

end Away

end

end Session

end Prompter

import Prompter.Proofs.Session.Narration
import Prompter.Proofs.Session.Play

/-!
# Prompter.Proofs.Session.Recital

The story that the engine of a dialogue tells, whatever the views do meanwhile.

Only a turn of the engine takes the story further (`Drive.outlook`), and only a turn stores
variables (`Happens.library`). So wherever the engine of a dutiful host stands, it recites the play:
`Recites.turn` is the step for a turn and `Recites.next` that for everything else.
-/

namespace Prompter.Session

open Engine (Turned)

variable {s s' : Session} {h : History} {m : Mark} {p : Play}

/-! ### Variables and functions -/

theorem Requests.library {c : Call} {q : Progress} (requests : Requests s c q)
    (ok : Dutiful p s h c) : q.1.library = s.library := by
  cases requests with
  | declined | start | select | complete => rfl
  | resume unpauses => exact unpauses.retains.library
  | resumeWhenDone spawns => exact spawns.retains.library
  | _ => exact ok.elim

/-- Only the engine stores variables. -/
theorem Happens.library (happens : Happens s m s') (ok : ∀ c, m = .call c → Dutiful p s h c)
    (unturned : m ≠ .did .turn) : s'.library = s.library := by
  cases happens with
  | @work busy i rest top =>
    rw [step_eq_work busy top]
    exact ((work_works _ i).retains fun same => unturned (congrArg Mark.did same)).library
  | call word c => exact (call_requests s c).library (ok c rfl)
  | answer x => exact (s.answer_retains x).library

/-- A turn stores what the engine asks it to. -/
theorem turn_library {e : Engine} {vs : Variables} (he : s.engine = .script e)
    (stored : s.storage = some vs) : s.turn.1.library =
      (some ((e.turn (s.surroundings e)).2.1.stored vs), s.functions) := by
  rcases ht : e.turn (s.surroundings e) with ⟨e', request, rs⟩
  simp only [Session.turn, he, ht]
  cases request with
  | again | rest | invoke => exact congrArg (·, s.functions) stored
  | report l event => cases l <;> exact congrArg (·, s.functions) stored
  | store name v =>
    simp only [push, store, stored, Engine.Request.stored, Variables.assign]
    cases vs.set name v <;> rfl

/-! ### Moves of the engine -/

section

variable {w : World} {vs : Variables} {told : List Event} {e e' : Engine} {a a' : List Item}

theorem awaited_cons {i : Item} (other : ∀ key args, i ≠ .invoke key args .engine) (a : List Item) :
    awaited w (i :: a) = awaited w a := by
  unfold awaited
  rw [List.findSome?_cons]
  split
  · next some =>
    split at some
    · next key args => exact absurd rfl (other key args)
    · cases some
  · rfl

/-- Only what is of the engine's run matters to what it waits for. -/
theorem awaited_eq_filter (a : List Item) : awaited w a = awaited w (a.filter Item.ofEngine) := by
  induction a with
  | nil => rfl
  | cons i a ih =>
    by_cases invokes : ∃ key args, i = .invoke key args .engine
    · obtain ⟨key, args, rfl⟩ := invokes
      rfl
    · have other (key : HostKey) (args : List Value) : i ≠ .invoke key args .engine :=
        fun same => invokes ⟨key, args, same⟩
      rw [awaited_cons other, ih]
      cases part : i.ofEngine with
      | true => rw [List.filter_cons_of_pos part, awaited_cons other]
      | false => rw [List.filter_cons_of_neg (by simp [part])]

theorem answered_congr (same : a'.filter Item.ofEngine = a.filter Item.ofEngine) :
    answered w e a' = answered w e a := by
  rw [answered, awaited_eq_filter, same, ← awaited_eq_filter, answered]

theorem answered_cons {i : Item} (other : ∀ key args, i ≠ .invoke key args .engine)
    (a : List Item) : answered w e (i :: a) = answered w e a := by
  rw [answered, awaited_cons other, answered]

theorem not_invoke_of_answers {i : Item} (answers : i.answersEngine = true) (key : HostKey)
    (args : List Value) : i ≠ .invoke key args .engine := by
  rintro rfl
  cases answers

/-- Of an engine that waits for a function, too, only where it stands in the script matters. -/
theorem outlook_answered (a : List Item) (script : e'.script = e.script) (node : e'.node = e.node)
    (index : e'.index = e.index) (started : e'.nodeStarted = e.nodeStarted)
    (choices : e'.choices = e.choices) (phase : e'.phase = e.phase) :
    (answered w e' a).outlook w vs told = (answered w e a).outlook w vs told := by
  rw [answered, answered]
  cases awaited w a with
  | none => exact Engine.outlook_congr script node index started choices phase
  | some v =>
    simp only [Option.elim_some]
    by_cases calling : ∃ purpose stack, e.phase = .calling purpose stack
    · obtain ⟨purpose, stack, calling⟩ := calling
      rw [e.receive_of_calling calling, e'.receive_of_calling (phase.trans calling)]
      exact Engine.outlook_congr (e := { e with phase := _ }) script node index started choices rfl
    · have other (purpose : Engine.Purpose) (stack : List Engine.Frame) :
          e.phase ≠ .calling purpose stack := fun same => calling ⟨purpose, stack, same⟩
      rw [receive_of_phase other, receive_of_phase (phase ▸ other)]
      exact Engine.outlook_congr script node index started choices phase

theorem receive_not_calling (e : Engine) (v : Value) (purpose : Engine.Purpose)
    (stack : List Engine.Frame) : (e.receive v).phase ≠ .calling purpose stack := by
  unfold Engine.receive
  split
  · nofun
  · next other => exact other purpose stack

/-- Whatever happens to an engine but its turn leaves the story where it is. -/
theorem Drive.outlook (d : Drive e m a e' a') (unturned : m ≠ .did .turn)
    (unstarted : ∀ n, m ≠ .call (.start n)) (unstopped : m ≠ .call .stop)
    (computes : ∀ v key args, m = .answer (.value v) →
      a.head? = some (.invoke key args .engine) → v = w.answer key args) :
    (answered w e' a').outlook w vs told = (answered w e a).outlook w vs told := by
  cases d with
  | quiet free same => rw [answered_congr same]
  | turn => exact absurd rfl unturned
  | continue_ c rest =>
    have turns : answered w e.continue?.1 ((if e.continue?.2 then [.turn] else []) ++ rest) =
        answered w e.continue?.1 rest := by
      split
      · exact answered_cons (i := .turn) (by simp) rest
      · rfl
    rw [turns, answered_cons (i := .continueEngine c) (by simp)]
    by_cases idle : e.phase = .idle
    · rw [answered_of_phase (e := e) (by simp [idle]),
        answered_of_phase (e := e.continue?.1) (by simp [e.continue?_of_idle idle]),
        Engine.outlook_continue?]
    · have busy : e.isRunning = true := by
        unfold Engine.isRunning
        split
        · exact absurd ‹_› idle
        · rfl
      rw [Engine.continue?, if_pos busy]
      exact outlook_answered rest rfl rfl rfl rfl rfl rfl
  | choose n id =>
    obtain ⟨choice, same⟩ := e.choose_eq id
    rw [same, answered_cons (i := .chooseOption n id) (by simp)]
    exact outlook_answered _ rfl rfl rfl rfl rfl rfl
  | answering i i' items rest hi hi' others =>
    have same : (items ++ i' :: rest).filter Item.ofEngine =
        (i' :: rest).filter Item.ofEngine := by
      rw [List.filter_append, filter_of_others others, List.nil_append]
    rw [answered_congr same, answered_cons (not_invoke_of_answers hi'),
      answered_cons (not_invoke_of_answers hi)]
  | heard i x rest hi =>
    rw [answered_cons (i := .turn) (by simp), answered_cons (not_invoke_of_answers hi)]
    by_cases reported : ∃ use, e.phase = .reported use
    · obtain ⟨use, phase⟩ := reported
      rw [answered_of_phase (by simp [e.hear_of_reported phase]),
        answered_of_phase (by simp [phase]), Engine.outlook_hear]
    · have deaf : e.hear x = e := by
        unfold Engine.hear
        split
        · next use phase => exact absurd ⟨use, phase⟩ reported
        · rfl
      rw [deaf]
  | place n => exact absurd rfl (unstarted n)
  | bind n => exact absurd rfl (unstarted n)
  | stop => exact absurd rfl unstopped
  | receive v key args rest =>
    obtain rfl := computes v key args rfl rfl
    rw [answered_of_phase (receive_not_calling e _)]
    rfl

theorem Drive.reads {script : Script} (d : Drive e m a e' a')
    (unstarted : ∀ n, m ≠ .call (.start n)) (unstopped : m ≠ .call .stop)
    (reads : e.Reads script .dialogue) : e'.Reads script .dialogue := by
  cases d with
  | quiet | answering => exact reads
  | turn around hl => exact (Engine.turn_turned hl reads.hearer).reads reads
  | continue_ => exact reads.continue?
  | choose n id => exact reads.choose id
  | heard i x => exact reads.hear x
  | place n | bind n => exact absurd rfl (unstarted n)
  | stop => exact absurd rfl unstopped
  | receive v => exact reads.receive v

/-- A choice is noted when the engine is told of it, or has been noted before. -/
theorem Drive.of_selected (d : Drive e m a e' a') (unturned : m ≠ .did .turn)
    (unstarted : ∀ n, m ≠ .call (.start n)) (unstopped : m ≠ .call .stop) {id : OptionId}
    (waiting : e'.choices.isSome = true) (noted : e'.selected = some id) :
    e.choices.isSome = true ∧ e.selected = some id ∨ ∃ n, m = .did (.chooseOption n id) := by
  cases d with
  | quiet | answering => exact .inl ⟨waiting, noted⟩
  | turn => exact absurd rfl unturned
  | continue_ =>
    have kept : e.continue?.1.choices = e.choices ∧ e.continue?.1.selected = e.selected := by
      unfold Engine.continue?
      split <;> exact ⟨rfl, rfl⟩
    exact .inl ⟨kept.1 ▸ waiting, kept.2 ▸ noted⟩
  | choose n id' =>
    by_cases open_ : e.choices.isSome = true
    · rw [Engine.choose, if_pos open_] at noted
      cases noted
      exact .inr ⟨n, rfl⟩
    · rw [Engine.choose, if_neg open_] at waiting
      exact absurd waiting open_
  | heard i x =>
    have kept : (e.hear x).choices = e.choices ∧ (e.hear x).selected = e.selected := by
      unfold Engine.hear
      split <;> exact ⟨rfl, rfl⟩
    exact .inl ⟨kept.1 ▸ waiting, kept.2 ▸ noted⟩
  | place n | bind n => exact absurd rfl (unstarted n)
  | stop => exact absurd rfl unstopped
  | receive v =>
    have kept : (e.receive v).choices = e.choices ∧ (e.receive v).selected = e.selected := by
      unfold Engine.receive
      split <;> exact ⟨rfl, rfl⟩
    exact .inl ⟨kept.1 ▸ waiting, kept.2 ▸ noted⟩

end

/-! ### The play -/

/-- The engine `e` of a session stands somewhere in a play of which `told` has been told, with the
variables `vs`. -/
structure Recites (p : Play) (told : List Event) (s : Session) (e : Engine) (vs : Variables) :
    Prop where
  reads : e.Reads p.script .dialogue
  library : s.library = (some vs, p.world.functions)
  /-- A choice that has been noted is the one that is to be made. -/
  voiced : ∀ id, e.choices.isSome = true → e.selected = some id →
    ∃ o, p.chosen? told = some o ∧ o.id = id
  story : p.Reaches ((answered p.world e s.agenda).outlook p.world vs told)

section

variable {told : List Event} {e e' : Engine} {vs : Variables}

/-- Everything but a turn of the engine leaves the play where it is. -/
theorem Recites.next (recites : Recites p told s e vs) (happens : Happens s m s')
    (unturned : m ≠ .did .turn) (unstarted : ∀ n, m ≠ .call (.start n))
    (ok : ∀ c, m = .call c → Dutiful p s h c)
    (moves : Drive e m s.agenda e' s'.agenda ∨ e' = e ∧ ∃ c, m = .call c ∧ Apart s s')
    (computes : ∀ v key args, m = .answer (.value v) →
      s.agenda.head? = some (.invoke key args .engine) → v = p.world.answer key args)
    (chooses : ∀ n id, m = .did (.chooseOption n id) →
      ∃ o, p.chosen? told = some o ∧ o.id = id) : Recites p told s' e' vs := by
  have unstopped : m ≠ .call .stop := fun same => ok _ same
  have library := (happens.library ok unturned).trans recites.library
  rcases moves with d | ⟨rfl, c, rfl, apart⟩
  · refine ⟨d.reads unstarted unstopped recites.reads, library, fun id waiting noted => ?_, ?_⟩
    · rcases d.of_selected unturned unstarted unstopped waiting noted with
        ⟨waiting, noted⟩ | ⟨n, rfl⟩
      · exact recites.voiced id waiting noted
      · exact chooses n id rfl
    · rw [d.outlook unturned unstarted unstopped computes]
      exact recites.story
  · refine ⟨recites.reads, library, recites.voiced, ?_⟩
    obtain ⟨items, others, agenda⟩ := apart.puts
    rw [answered_congr (a := s.agenda)]
    · exact recites.story
    · rw [agenda, List.filter_append, filter_of_others others, List.nil_append]

/-- Options that wait for a choice that has been noted do not hold up the play. -/
theorem Recites.unstuck (recites : Recites p told s e vs)
    (decided : e.choices.isSome = true → e.selected.isSome = true) :
    p.isStuck ⟨told, vs, e.spot⟩ = false := by
  cases waiting : e.choices with
  | none =>
    unfold Play.isStuck Engine.spot
    cases e.node with
    | none => rfl
    | some node =>
      simp only [waiting]
      cases e.nodeStarted <;> rfl
  | some destinations =>
    rw [waiting] at decided
    obtain ⟨id, noted⟩ := Option.isSome_iff_exists.1 (decided rfl)
    obtain ⟨o, chosen, -⟩ := recites.voiced id (by rw [waiting]; rfl) noted
    unfold Play.isStuck
    split
    · rw [chosen]
      rfl
    · rfl

/-- A turn of the engine takes the play further, or leaves it where it is. -/
theorem Recites.turn (recites : Recites p told s e vs) (at_ : Attended s e)
    (happens : Happens s (.did .turn) s') :
    ∃ e' vs', s'.engine = .script e' ∧
      Recites p (told ++ (s.reported? (.did .turn)).toList) s' e' vs' := by
  obtain ⟨rest, around, top, rfl, listens, engine, -, agenda⟩ := at_.turned happens
  obtain ⟨_, top', same⟩ := happens.top
  obtain rfl := (List.cons.inj (top.symm.trans top')).2
  have clean : rest.filter Item.ofEngine = [] := by
    rcases at_.serves with engages | ⟨-, key, args, only⟩
    · rw [top] at engages
      exact engages.of_turn.1
    · rw [top] at only
      cases only
  have reported : s.reported? (.did .turn) =
      (e.turn ({ s with agenda := rest }.surroundings e)).2.1.event? := by
    simp only [reported?, at_.engine, top, List.tail_cons]
  obtain ⟨storage, functions⟩ : s.storage = some vs ∧ s.functions = p.world.functions :=
    Prod.mk.inj recites.library
  have library : s'.library = _ := (congrArg Session.library same).trans
    (turn_library (s := { s with agenda := rest }) at_.engine storage)
  have bound : ({ s with agenda := rest }.surroundings e).library =
      some ⟨vs, p.story.world.functions⟩ := by
    simp only [surroundings, recites.reads.bound, if_true, storage, functions]
    rfl
  have story := recites.story
  rw [top, answered_cons (i := .turn) (by simp), answered_congr (a := []) clean] at story
  replace story : p.Reaches (e.outlook p.world vs told) := story
  have here : (requested (e.turn ({ s with agenda := rest }.surroundings e)).2.1 ++ rest).filter
      Item.ofEngine =
      (requested (e.turn ({ s with agenda := rest }.surroundings e)).2.1).filter Item.ofEngine := by
    rw [List.filter_append, clean, List.append_nil]
  generalize ({ s with agenda := rest }).surroundings e = around at *
  have turned := Engine.turn_turned listens recites.reads.hearer
  rw [reported]
  refine ⟨_, (e.turn around).2.1.stored vs, engine, turned.reads recites.reads, ?_,
    fun id waiting noted => ?_, ?_⟩
  · rw [library]
    exact congrArg (_, ·) functions
  · obtain ⟨silent, waited, noted⟩ := turned.of_selected recites.reads waiting noted
    rw [silent, Option.toList_none, List.append_nil]
    exact recites.voiced id waited noted
  · rw [agenda, answered_congr here, answered_requested]
    show p.Reaches (Engine.Turn.outlook p.story.world vs told (e.turn around))
    have picks (_ : e.phase = .step) (id : OptionId) (waiting : e.choices.isSome = true)
        (noted : e.selected = some id) : p.story.player told = id := by
      obtain ⟨o, chosen, named⟩ := recites.voiced id waiting noted
      simp [Play.story, chosen, named]
    rcases Engine.turn_outlook_cases told bound listens recites.reads picks with
      same | ⟨phase, decided, step⟩
    · rw [same]
      exact story
    · have here : e.outlook p.world vs told = ⟨told, vs, e.spot⟩ := by rw [Engine.outlook, phase]
      have further : p.step (e.outlook p.world vs told) =
          p.story.step (e.outlook p.world vs told) := by
        rw [Play.step, here, recites.unstuck decided, if_neg (by decide)]
      rw [step]
      exact further ▸ story.step

end

end Prompter.Session

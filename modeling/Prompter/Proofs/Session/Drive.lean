import Prompter.Proofs.Engine.Turn
import Prompter.Proofs.Session.Resumption

/-!
# Prompter.Proofs.Session.Drive

What anything that happens to a session can do to the engine that runs its script.

The host drives the engine through the dialogue only (`Driven`). Then the engine and the part of the
agenda that concerns it change in few ways, which `Drive` lists. `Run.drives` says so of a run: the
laws of the engine start from there.
-/

namespace Prompter

/-- Whether a request leaves the engine to the dialogue. -/
def Call.leavesEngine : Call → Bool
  | .continueEngine | .chooseOption _ | .place _ | .stopEngine | .bind => false
  | .attach _ | .detach _ | .release => false
  | _ => true

namespace Item

/-- Whether an item is part of answering an event of the engine. -/
def answersEngine : Item → Bool
  | .hear .engine _ | .conclude .engine _ => true
  | .afterCall _ _ (.event .engine) | .outcome _ _ (.event .engine) => true
  | _ => false

/-- The answer that an item gives to the engine, if it is the last part of one. -/
def answer? : Item → Option NextAction
  | .conclude .engine answer => some answer
  | .outcome _ o (.event .engine) => some (if o = .pause then .wait else .next)
  | _ => none

/-- Whether the engine's run goes on with an item. -/
def ofEngine : Item → Bool
  | .turn | .ask _ _ | .invoke _ _ .engine => true
  | i => i.answersEngine

/-- Whether an item is the engine's own turn, or a call that the engine has made. -/
def holdsEngine : Item → Bool
  | .turn | .invoke _ _ .engine => true
  | _ => false

end Item

namespace Session

/-- The host leaves the engine to the dialogue, and makes no requests from inside a function that
the engine has called. -/
def Driven (s : Session) (_ : History) (c : Call) : Prop :=
  c.leavesEngine = true ∧ ∀ i ∈ s.agenda.head?, i.holdsEngine = false

/-- A fresh session whose dialogue listens to an engine that runs a script. -/
structure IsAttached (s : Session) : Prop extends IsFresh s where
  engine : ∃ script, s.engine = .script { script := script, listener := some .dialogue }
  held : s.held = true

/-- The items that come before the next part of an answer to the engine. -/
def ahead (a : List Item) : List Item := a.takeWhile (!·.answersEngine)

/-- What can become of the engine `e` and the agenda `a`. -/
inductive Drive (e : Engine) : Mark → List Item → Engine → List Item → Prop
  /-- The engine is not concerned. -/
  | quiet {m : Mark} {a a' : List Item} (free : ∀ i ∈ a.head?, i.holdsEngine = false)
      (same : a'.filter Item.ofEngine = a.filter Item.ofEngine)
      (kept : ∀ c, .continueEngine c ∈ ahead a → .continueEngine c ∈ ahead a')
      (unasked : ∀ c, m ≠ .did (.continueEngine c)) : Drive e m a e a'
  /-- The engine takes its turn. -/
  | turn (around : Engine.Surroundings) (hl : around.listener = some .dialogue)
      (rest : List Item) :
      Drive e (.did .turn) (.turn :: rest) (e.turn around).1
        (requested (e.turn around).2.1 ++ rest)
  /-- The engine is asked to go on. -/
  | continue_ (c : Cause) (rest : List Item) :
      Drive e (.did (.continueEngine c)) (.continueEngine c :: rest) e.continue?.1
        ((if e.continue?.2 then [.turn] else []) ++ rest)
  /-- The engine is told what was chosen. -/
  | choose (n : Nat) (id : OptionId) (rest : List Item) :
      Drive e (.did (.chooseOption n id)) (.chooseOption n id :: rest) (e.choose id).1 rest
  /-- An event of the engine is on its way to an answer. -/
  | answering (i i' : Item) (items rest : List Item) (hi : i.answersEngine = true)
      (hi' : i'.answersEngine = true) (others : ∀ j ∈ items, j.ofEngine = false) :
      Drive e (.did i) (i :: rest) e (items ++ i' :: rest)
  /-- An event of the engine is answered. -/
  | heard (i : Item) (x : NextAction) (rest : List Item) (hi : i.answersEngine = true) :
      Drive e (.did i) (i :: rest) (e.hear x) (.turn :: rest)
  /-- The engine is put at the start of a node, and will be asked to go on. -/
  | place (n : Option String) (node : String) (e' : Engine) (items a : List Item)
      (free : ∀ i ∈ a.head?, i.holdsEngine = false)
      (placed : { e with bound := true }.place node = .ok e')
      (others : ∀ j ∈ items, j.ofEngine = false) (start : .continueEngine .start ∈ items) :
      Drive e (.call (.start n)) a e' (items ++ a)
  /-- The engine is given the variables and functions. -/
  | bind (n : Option String) (a : List Item) (free : ∀ i ∈ a.head?, i.holdsEngine = false) :
      Drive e (.call (.start n)) a { e with bound := true } a
  /-- The engine is stopped. -/
  | stop (items a : List Item) (free : ∀ i ∈ a.head?, i.holdsEngine = false)
      (others : ∀ j ∈ items, j.ofEngine = false) :
      Drive e (.call .stop) a e.stop.1 (items ++ a)
  /-- A function that the engine has called returns. -/
  | receive (v : Value) (key : HostKey) (args : List Value) (rest : List Item) :
      Drive e (.answer (.value v)) (.invoke key args .engine :: rest) (e.receive v) (.turn :: rest)

/-- The engine of a session makes one of these moves. -/
def Drives (e : Engine) (m : Mark) (a : List Item) (s : Session) : Prop :=
  ∃ e', s.engine = .script e' ∧ s.held = true ∧ Drive e m a e' s.agenda

/-! ### Operations that do not concern the engine -/

/-- An operation leaves the engine alone and puts items on the agenda that are not the engine's. -/
structure Apart (s s' : Session) : Prop where
  engine : s'.engine = s.engine
  held : s'.held = s.held
  puts : ∃ items : List Item, (∀ j ∈ items, j.ofEngine = false) ∧ s'.agenda = items ++ s.agenda

/-- An operation leaves the engine alone and puts the next part of an answer on the agenda, which
is one to the engine or not. -/
structure Leads (s s' : Session) (r : Bool) : Prop where
  engine : s'.engine = s.engine
  held : s'.held = s.held
  puts : ∃ (items : List Item) (i : Item), (∀ j ∈ items, j.ofEngine = false) ∧
    i.ofEngine = r ∧ i.answersEngine = r ∧ s'.agenda = items ++ i :: s.agenda

namespace Apart

variable {s s' s'' : Session}

theorem of_items (items : List Item) (others : ∀ j ∈ items, j.ofEngine = false)
    (engine : s'.engine = s.engine) (held : s'.held = s.held)
    (agenda : s'.agenda = items ++ s.agenda) : Apart s s' :=
  ⟨engine, held, items, others, agenda⟩

theorem refl (s : Session) : Apart s s := .of_items [] (by simp) rfl rfl rfl

theorem trans (h : Apart s s') (h' : Apart s' s'') : Apart s s'' := by
  obtain ⟨items, others, agenda⟩ := h.puts
  obtain ⟨items', others', agenda'⟩ := h'.puts
  refine .of_items (items' ++ items) (List.forall_mem_append.2 ⟨others', others⟩)
    (h'.engine.trans h.engine) (h'.held.trans h.held) ?_
  rw [agenda', agenda, List.append_assoc]

theorem push (s : Session) {items : List Item} (others : ∀ j ∈ items, j.ofEngine = false) :
    Apart s (s.push items) := .of_items items others rfl rfl rfl

end Apart

theorem Leads.apart {s s' : Session} (h : Leads s s' false) : Apart s s' := by
  obtain ⟨items, i, others, hi, -, agenda⟩ := h.puts
  refine .of_items (items ++ [i]) ?_ h.engine h.held (by simp [agenda])
  exact List.forall_mem_append.2 ⟨others, by simp [hi]⟩

theorem ofEngine_dismissal (s : Session) (line : LocalizedLine) (n : Nat) :
    ∀ j ∈ s.dismissal line n, j.ofEngine = false :=
  forall_mem_tellViews_append (fun _ => rfl) (by simp [Item.ofEngine, Item.answersEngine])

/-! ### Answers on their way -/

theorem Leads.of_items {s s' : Session} {r : Bool} (items : List Item) (i : Item)
    (others : ∀ j ∈ items, j.ofEngine = false) (part : i.ofEngine = r)
    (answers : i.answersEngine = r) (engine : s'.engine = s.engine) (held : s'.held = s.held)
    (agenda : s'.agenda = items ++ i :: s.agenda) : Leads s s' r :=
  ⟨engine, held, items, i, others, part, answers, agenda⟩

/-- Whether an outcome is part of an answer to the engine. -/
def forEngine (use : OutcomeUse) : Bool := use = .event .engine

theorem answersEngine_outcome (k : Option Nat) (o : DispatchOutcome) (use : OutcomeUse) :
    (Item.outcome k o use).answersEngine = forEngine use ∧
      (Item.outcome k o use).ofEngine = forEngine use := by
  rcases use with (_ | _) | _ <;> exact ⟨rfl, rfl⟩

theorem answersEngine_afterCall (name : String) (k : Nat) (use : OutcomeUse) :
    (Item.afterCall name k use).answersEngine = forEngine use ∧
      (Item.afterCall name k use).ofEngine = forEngine use := by
  rcases use with (_ | _) | _ <;> exact ⟨rfl, rfl⟩

theorem answersEngine_conclude (r : Reporter) (x : NextAction) :
    (Item.conclude r x).answersEngine = (r = .engine : Bool) ∧
      (Item.conclude r x).ofEngine = (r = .engine : Bool) := by
  cases r <;> exact ⟨rfl, rfl⟩

section

attribute [local simp] Item.ofEngine Item.answersEngine

variable {s : Session} {i : Item} {p : Progress}

theorem Dispatches.leads {c : Command} {k : Nat → Continuation} {use : OutcomeUse}
    (dispatches : Dispatches s c k use p) : Leads s p.1 (forEngine use) := by
  -- a command that cannot pause leads to its outcome at once
  have simple (items : List Item) (others : ∀ j ∈ items, j.ofEngine = false)
      (o : DispatchOutcome) :
      Leads s (s.push (items ++ [.outcome none o use])) (forEngine use) := by
    obtain ⟨answers, part⟩ := answersEngine_outcome none o use
    exact .of_items items _ others part answers rfl rfl (by simp)
  -- one that may pause leads to a look at its handle
  have pausing (name : String) (items : List Item) (others : ∀ j ∈ items, j.ofEngine = false)
      (s' : Session) (engine : s'.engine = s.engine) (held : s'.held = s.held)
      (agenda : s'.agenda = items ++ .afterCall name s.handles.length use :: s.agenda) :
      Leads s s' (forEngine use) := by
    obtain ⟨answers, part⟩ := answersEngine_afterCall name s.handles.length use
    exact .of_items items _ others part answers engine held agenda
  cases dispatches with
  | handler | method | unhandled => exact simple [.tell _] (by simp) _
  | refused | unheard => exact simple [] (by simp) _
  | @pausingHandler name => exact pausing name [.tell _] (by simp) _ rfl rfl rfl
  | @pausingMethod m target args =>
    refine pausing m.name (.tell (.method m target args (some s.handles.length)) ::
      if m.kind = .task then [.resumeWhenDone s.handles.length] else []) ?_ _ rfl rfl (by simp)
    rw [List.forall_mem_cons]
    refine ⟨rfl, ?_⟩
    split <;> simp

/-- An event that is heard leads to its answer. -/
theorem hear_leads (s : Session) (r : Reporter) (e : Event) :
    Leads s (s.hear r e).1 (r = .engine : Bool) := by
  have concluded (items : List Item) (others : ∀ j ∈ items, j.ofEngine = false) (x : NextAction)
      (s' : Session) (engine : s'.engine = s.engine) (held : s'.held = s.held)
      (agenda : s'.agenda = items ++ .conclude r x :: s.agenda) :
      Leads s s' (r = .engine : Bool) := by
    obtain ⟨answers, part⟩ := answersEngine_conclude r x
    exact .of_items items _ others part answers engine held agenda
  have works := s.hear_works r e
  generalize s.hear r e = p at works ⊢
  cases works with
  | idle idles => cases idles
  | line | dialogueEnd => exact concluded [_] (by simp) _ _ rfl rfl rfl
  | options | nodeStart | nodeEnd =>
    exact concluded (s.tellViews _) (forall_mem_tellViews fun _ => rfl) _ _ rfl rfl
      (List.append_assoc ..)
  | command dispatches => cases r <;> exact dispatches.leads

theorem afterCall_leads (s : Session) (name : String) (k : Nat) (use : OutcomeUse)
    (known : s.handles[k]?.isSome = true) :
    Leads s (s.afterCall name k use).1 (forEngine use) := by
  have works := s.afterCall_works name k use
  generalize s.afterCall name k use = p at works ⊢
  cases works with
  | idle idles =>
    cases idles with
    | afterCall unknown => simp [unknown] at known
  | @afterCall _ _ _ x =>
    obtain ⟨answers, part⟩ := answersEngine_outcome (some k) (if x.arm.2 then .pause else .done) use
    exact .of_items [] _ (by simp) part answers rfl rfl rfl

/-! ### Work that does not concern the engine -/

theorem Unpauses.apart {k : Nat} (unpauses : Unpauses s k p) : Apart s p.1 := by
  cases unpauses with
  | unknown => exact .refl s
  | resumed => exact .of_items _ (forall_mem_resumption (fun _ => rfl) _) rfl rfl rfl

theorem Spawns.apart {k : Nat} (spawns : Spawns s k p) : Apart s p.1 := by
  cases spawns with
  | spawned => exact .refl s
  | resumes _ unpauses => exact unpauses.apart

theorem Works.apart (works : Works s i p) (part : i.ofEngine = false)
    (unasked : ∀ c, i ≠ .continueEngine c) (unchosen : ∀ n id, i ≠ .chooseOption n id) :
    Apart s p.1 := by
  cases works with
  | idle | reply | outcome => exact .refl s
  | tell | resumeHost | commandDone | stale | callNext => exact .push s (by simp)
  | turn => cases part
  | continueScript | continueHost => exact absurd rfl (unasked _)
  | chooseOption => exact absurd rfl (unchosen _ _)
  | line r | dialogueEnd r =>
    cases r with
    | engine => cases part
    | host => exact .push s (by simp)
  | options r | nodeStart r | nodeEnd r =>
    cases r with
    | engine => cases part
    | host =>
      exact .of_items _ (forall_mem_tellViews_append (fun _ => rfl) (by simp)) rfl rfl rfl
  | @command r _ _ dispatches =>
    cases r with
    | engine => cases part
    | host => exact dispatches.leads.apart
  | conclude concludes | outcomeOf _ concludes =>
    cases concludes with
    | host => exact .refl s
    | engine | nobody => cases part
  | present | immediate | waiting => exact .of_items [_] (by simp) rfl rfl rfl
  | lineShown =>
    refine (Apart.push s (by simp)).trans (.of_items _ ?_ rfl rfl rfl)
    refine forall_mem_tellViews_append (fun _ => rfl) ?_
    split <;> simp
  | lineGone => exact .of_items [_, _] (by simp) rfl rfl rfl
  | closeLine => exact .of_items _ (s.ofEngine_dismissal _ _) rfl rfl rfl
  | finish => exact .of_items _ (forall_mem_tellViews fun _ => rfl) rfl rfl rfl
  | afterCall name use =>
    rcases use with (_ | _) | _
    · cases part
    · exact .of_items [_] (by simp) rfl rfl rfl
    · exact .of_items [_] (by simp) rfl rfl rfl
  | resumeWhenDone spawns => exact spawns.apart

end

/-! ### Every operation drives the engine -/

section

variable {s s' : Session} {e : Engine} {i : Item} {c : Call} {a : List Item}

theorem holdsEngine_of_ofEngine (part : i.ofEngine = false) : i.holdsEngine = false := by
  unfold Item.holdsEngine
  split
  · cases part
  · cases part
  · rfl

theorem filter_of_others {items : List Item} (others : ∀ j ∈ items, j.ofEngine = false) :
    items.filter Item.ofEngine = [] := by
  rw [List.filter_eq_nil_iff]
  intro j hj
  simp [others j hj]

theorem answersEngine_of_ofEngine (part : i.ofEngine = false) : i.answersEngine = false := by
  unfold Item.ofEngine at part
  split at part
  · cases part
  · cases part
  · cases part
  · exact part

@[simp] theorem ahead_cons (part : i.answersEngine = false) (a : List Item) :
    ahead (i :: a) = i :: ahead a := by simp [ahead, part]

@[simp] theorem ahead_cons_of_answers (part : i.answersEngine = true) (a : List Item) :
    ahead (i :: a) = [] := by simp [ahead, part]

@[simp] theorem ahead_append {items : List Item} (others : ∀ j ∈ items, j.ofEngine = false)
    (a : List Item) : ahead (items ++ a) = items ++ ahead a := by
  refine List.takeWhile_append_of_pos fun j hj => ?_
  simp [answersEngine_of_ofEngine (others j hj)]

/-- Doing an item that the engine is not concerned with. -/
theorem Apart.drives (h : Apart s s') (he : s.engine = .script e) (hd : s.held = true)
    (part : i.ofEngine = false) (hc : ∀ c, i ≠ .continueEngine c) :
    Drives e (.did i) (i :: s.agenda) s' := by
  obtain ⟨items, others, agenda⟩ := h.puts
  refine ⟨e, h.engine.trans he, h.held.trans hd, .quiet ?_ ?_ ?_ ?_⟩
  · simpa using holdsEngine_of_ofEngine part
  · simp [agenda, filter_of_others others, part]
  · intro c hm
    rw [ahead_cons (answersEngine_of_ofEngine part)] at hm
    rw [agenda, ahead_append others]
    exact List.mem_append_right items (List.mem_of_ne_of_mem (hc c).symm hm)
  · exact fun c hm => hc c (by simpa using hm)

/-- Making a request that the engine is not concerned with. -/
theorem Apart.drives_call (h : Apart s s') (he : s.engine = .script e) (hd : s.held = true)
    (free : ∀ i ∈ s.agenda.head?, i.holdsEngine = false) :
    Drives e (.call c) s.agenda s' := by
  obtain ⟨items, others, agenda⟩ := h.puts
  refine ⟨e, h.engine.trans he, h.held.trans hd, .quiet free ?_ ?_ (by simp)⟩
  · simp [agenda, filter_of_others others]
  · intro c hm
    rw [agenda, ahead_append others]
    exact List.mem_append_right items hm

/-- Doing a part of an answer, which leads to the next one. -/
theorem Leads.drives {r : Bool} (h : Leads s s' r) (he : s.engine = .script e)
    (hd : s.held = true) (answers : i.answersEngine = r) (part : i.ofEngine = r)
    (hc : ∀ c, i ≠ .continueEngine c) : Drives e (.did i) (i :: s.agenda) s' := by
  cases r with
  | false => exact h.apart.drives he hd part hc
  | true =>
    obtain ⟨items, i', others, -, answers', agenda⟩ := h.puts
    refine ⟨e, h.engine.trans he, h.held.trans hd, ?_⟩
    rw [agenda]
    exact .answering i i' items s.agenda answers answers' others

theorem listener_surroundings (hd : s.held = true) (hl : e.listener = some .dialogue) :
    (s.surroundings e).listener = some .dialogue := by
  simp [surroundings, hl, exists?, hd]

variable {p : Progress}

theorem Concludes.drives {r : Reporter} {x : NextAction} (concludes : Concludes s r x p)
    (he : s.engine = .script e) (hd : s.held = true)
    (answers : i.answersEngine = (r = .engine : Bool))
    (part : i.ofEngine = (r = .engine : Bool)) (hc : ∀ c, i ≠ .continueEngine c) :
    Drives e (.did i) (i :: s.agenda) p.1 := by
  cases concludes with
  | host => exact (Apart.refl s).drives he hd part hc
  | engine seat x =>
    cases he.symm.trans seat
    exact ⟨e.hear x, rfl, hd, .heard i x s.agenda answers⟩
  | nobody other => exact absurd he (other e)

/-- Whatever item a session does, its engine is driven. -/
theorem work_drives (he : s.engine = .script e) (hd : s.held = true)
    (hl : e.listener = some .dialogue) (i : Item) (own : i.callsHost = false)
    (known : ∀ name k use, i = .afterCall name k use → s.handles[k]?.isSome = true) :
    Drives e (.did i) (i :: s.agenda) (s.work i).1 := by
  have works := s.work_works i
  cases i with
  | turn =>
    generalize s.work .turn = p at works ⊢
    cases works with
    | idle idles =>
      cases idles with
      | turn other => exact absurd he (other e)
    | turn seat =>
      cases he.symm.trans seat
      exact ⟨_, rfl, hd, .turn (s.surroundings e) (listener_surroundings hd hl) s.agenda⟩
  | continueEngine c =>
    generalize s.work (.continueEngine c) = p at works ⊢
    cases works with
    | idle idles =>
      cases idles with
      | continueEngine _ nobody => cases he.symm.trans nobody
    | continueScript _ seat =>
      cases he.symm.trans seat
      exact ⟨_, rfl, hd, .continue_ c s.agenda⟩
    | continueHost _ seat => cases he.symm.trans seat
  | chooseOption n id =>
    generalize s.work (.chooseOption n id) = p at works ⊢
    cases works with
    | idle idles => cases idles
    | chooseOption _ chooses =>
      cases chooses with
      | nobody seat | host seat => cases he.symm.trans seat
      | script seat =>
        cases he.symm.trans seat
        exact ⟨_, rfl, hd, .choose n id s.agenda⟩
  | hear r event =>
    exact (s.hear_leads r event).drives he hd (by cases r <;> rfl) (by cases r <;> rfl) (by simp)
  | afterCall name k use =>
    obtain ⟨answers, part⟩ := answersEngine_afterCall name k use
    exact (s.afterCall_leads name k use (known name k use rfl)).drives he hd answers part (by simp)
  | conclude r x =>
    obtain ⟨answers, part⟩ := answersEngine_conclude r x
    exact (s.conclude_concludes r x).drives he hd answers part (by simp)
  | outcome k o use =>
    cases use with
    | reply => exact (Apart.refl s).drives he hd rfl (by simp)
    | event r =>
      exact (s.conclude_concludes r _).drives he hd (by cases r <;> rfl) (by cases r <;> rfl)
        (by simp)
  | telling | ask | invoke => cases own
  | tell | reply | lease | present | broadcast | rest | resume | closeLine | finish
  | resumeWhenDone =>
    exact (works.apart rfl (by simp) (by simp)).drives he hd rfl (by simp)

attribute [local simp] Item.ofEngine Item.answersEngine

/-- A request that neither starts nor stops the dialogue does not concern the engine. -/
theorem Requests.apart (requests : Requests s c p) (left : c.leavesEngine = true)
    (started : ∀ n, c ≠ .start n) (stopped : c ≠ .stop) : Apart s p.1 := by
  have pushed {items : List Item} (others : ∀ j ∈ items, j.ofEngine = false) :
      Apart s (s.push items) := .push s others
  cases requests with
  | declined => exact .refl s
  | start => exact absurd rfl (started _)
  | stopEmpty | stopScript | stopHost => exact absurd rfl stopped
  | continueEngine | chooseOption | place | stopEngine | bind | attach | detach | release =>
    cases left
  | interrupt =>
    exact .of_items _ (forall_mem_tellViews_append (fun _ => rfl) (by simp)) rfl rfl rfl
  | dismiss =>
    exact .of_items _ (List.forall_mem_append.2 ⟨s.ofEngine_dismissal _ _, by simp⟩) rfl rfl rfl
  | deliver | function => exact pushed (by simp)
  | select => exact .of_items _ (by split <;> simp) rfl rfl rfl
  | complete =>
    refine .of_items _ (List.forall_mem_append.2 ⟨?_, by simp⟩) rfl rfl rfl
    exact forall_mem_resumption (fun _ => rfl) _
  | resume unpauses => exact (pushed (by simp)).trans unpauses.apart
  | resumeWhenDone spawns => exact (pushed (by simp)).trans spawns.apart
  | dispatch dispatches => exact (pushed (by simp)).trans dispatches.leads.apart
  | register | unregister | listen | addFunction | removeFunction | setVariable | clearVariables
  | resolveWith => exact .of_items [] (by simp) rfl rfl rfl

/-- Whatever is requested of a session, its engine is driven. -/
theorem call_drives (he : s.engine = .script e) (hd : s.held = true) (c : Call)
    (left : c.leavesEngine = true) (free : ∀ i ∈ s.agenda.head?, i.holdsEngine = false) :
    Drives e (.call c) s.agenda (s.call c).1 := by
  have requests := s.call_requests c
  by_cases ends : (∃ n, c = .start n) ∨ c = .stop
  · generalize s.call c = p at requests ⊢
    cases requests with
    | declined => exact (Apart.refl s).drives_call he hd free
    | @start n name named can seat outputs places =>
      cases places with
      | script seat placed =>
        cases he.symm.trans seat
        refine ⟨_, rfl, hd, .place n name _ _ s.agenda free placed ?_ ?_⟩
        · exact forall_mem_tellViews_append (fun _ => rfl) (by simp)
        · exact List.mem_append_right _ List.mem_cons_self
      | host seat => cases he.symm.trans seat
    | stopEmpty _ seat | stopHost _ seat => cases he.symm.trans seat
    | stopScript _ seat =>
      cases he.symm.trans seat
      exact ⟨e.stop.1, rfl, hd, .stop [.finish, .lease, .reply .done] s.agenda free (by simp)⟩
    | _ => simp at ends
  · exact (requests.apart left (fun n same => ends (.inl ⟨n, same⟩)) fun same =>
      ends (.inr same)).drives_call he hd free

/-- Whatever the host answers a session, its engine is driven. -/
theorem answer_drives (he : s.engine = .script e) (hd : s.held = true) (x : Answer)
    (fits : s.accepts x = true) (unasked : ∀ key event, .ask key event ∉ s.agenda) :
    Drives e (.answer x) s.agenda (s.answer x).1 := by
  have aside {i : Item} {rest : List Item} (top : s.agenda = i :: rest) (part : i.ofEngine = false)
      (own : ∀ c, i ≠ .continueEngine c) :
      Drives e (.answer x) s.agenda { s with agenda := rest } := by
    rw [top]
    refine ⟨e, he, hd, .quiet ?_ (List.filter_cons_of_neg (Bool.eq_false_iff.1 part)).symm ?_
      (by simp)⟩
    · simpa using holdsEngine_of_ofEngine part
    · intro c hm
      rw [ahead_cons (answersEngine_of_ofEngine part)] at hm
      exact List.mem_of_ne_of_mem (own c).symm hm
  have answered := answered_of_accepts fits
  generalize (s.answer x).1 = s' at answered ⊢
  cases answered with
  | heard n rest top => exact aside top rfl (by simp)
  -- the dialogue is the engine's listener, so no listener of the host is ever asked
  | action key event rest x top => exact absurd (top ▸ List.mem_cons_self) (unasked key event)
  | received key args rest v top =>
    simp only [mapEngine, he, top]
    exact ⟨e.receive v, rfl, hd, .receive v key args rest⟩
  | replied key args rest v top => exact aside top rfl (by simp)

end

end Session

end Prompter

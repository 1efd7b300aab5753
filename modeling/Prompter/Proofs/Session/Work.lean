import Prompter.Proofs.Session.Run

/-!
# Prompter.Proofs.Session.Work

What can come of the work of a session.

`Works` has one constructor for each way in which an item can be done, with the session that this
leads to and what comes out of it. What other modules say of all that a session does goes by these
cases: none of them opens the operations again.
-/

namespace Prompter

/-- Whether an item is a call to the host. -/
def Item.callsHost : Item → Bool
  | .telling _ | .ask _ _ | .invoke _ _ _ => true
  | _ => false

namespace Session

/-- The item that runs a continuation, if there is one. -/
def resumption (k : Option Continuation) : List Item := (k.map .resume).toList

theorem mem_resumption {k : Option Continuation} {i : Item} :
    i ∈ resumption k ↔ ∃ c, k = some c ∧ i = .resume c := by
  simp only [resumption, Option.mem_toList, Option.map_eq_some_iff]
  exact exists_congr fun c => and_congr_right fun _ => eq_comm

/-- What holds of every resumption holds of those on an agenda. -/
theorem forall_mem_resumption {P : Item → Prop} (each : ∀ c, P (.resume c))
    (k : Option Continuation) : ∀ i ∈ resumption k, P i := by
  intro i hi
  obtain ⟨c, -, rfl⟩ := mem_resumption.1 hi
  exact each c

/-- What holds of telling any view something holds of telling all of them. -/
theorem forall_mem_tellViews {s : Session} {n : ViewNotice} {P : Item → Prop}
    (each : ∀ v, P (.tell (.view v n))) : ∀ i ∈ s.tellViews n, P i := by
  intro i hi
  obtain ⟨v, -, rfl⟩ := List.mem_map.1 hi
  exact each v

theorem forall_mem_tellViews_append {s : Session} {n : ViewNotice} {P : Item → Prop}
    (each : ∀ v, P (.tell (.view v n))) {items : List Item} (rest : ∀ i ∈ items, P i) :
    ∀ i ∈ s.tellViews n ++ items, P i :=
  List.forall_mem_append.2 ⟨forall_mem_tellViews each, rest⟩

/-- What is left to be done for the engine after a turn. -/
def requested : Engine.Request → List Item
  | .again | .store _ _ => [.turn]
  | .rest => []
  | .report .dialogue event => [.hear .engine event]
  | .report (.host key) event => [.ask key event]
  | .invoke key args => [.invoke key args .engine]

/-! ### Operations that are used in several places -/

/-- What comes of telling the engine which option was chosen. -/
inductive Chooses (s : Session) (id : OptionId) : Progress → Prop
  | nobody (seat : s.engine = .empty) : Chooses s id (s, [])
  | script {e : Engine} (seat : s.engine = .script e) :
      Chooses s id ({ s with engine := .script (e.choose id).1 }, remarks (e.choose id).2)
  | host {x : HostEngine} (seat : s.engine = .host x) :
      Chooses s id (s.push [.tell (.engineSelect id)], [])

/-- What comes of an answer to an event. -/
inductive Concludes (s : Session) : Reporter → NextAction → Progress → Prop
  | host (x : NextAction) : Concludes s .host x (s, [.reply (.action x)])
  | engine {e : Engine} (seat : s.engine = .script e) (x : NextAction) :
      Concludes s .engine x ({ s with engine := .script (e.hear x) }.push [.turn], [])
  | nobody (other : ∀ e, s.engine ≠ .script e) (x : NextAction) : Concludes s .engine x (s, [])

/-- What comes of resuming a handle. -/
inductive Unpauses (s : Session) (k : Nat) : Progress → Prop
  | unknown (no : s.handles[k]? = none) : Unpauses s k (s, [])
  | resumed {x : ResumeHandle Continuation} (hx : s.handles[k]? = some x) :
      Unpauses s k
        ({ s with handles := s.handles.set k x.resume.1 }.push (resumption x.resume.2.1),
          remarks x.resume.2.2)

/-- What comes of resuming a handle when a task ends. -/
inductive Spawns (s : Session) (k : Nat) : Progress → Prop
  | spawned (runs : s.runsTasks = true) : Spawns s k (s, [.spawned k])
  /-- No tasks are run. -/
  | resumes (idle : s.runsTasks = false) {p : Progress} (unpauses : Unpauses s k p)
      (more : List Remark) : Spawns s k (p.1, remarks more ++ p.2)

/-- What comes of a command that is dispatched. -/
inductive Dispatches (s : Session) (c : Command) (k : Nat → Continuation) (use : OutcomeUse) :
    Progress → Prop
  | handler {name : String} {h : Handler} {args : List Argument} {rs : List Remark}
      (means : s.commands.resolve c = (.handler name h args, rs)) (simple : h.pausing = false) :
      Dispatches s c k use
        (s.push [.tell (.handler h.key name args none), .outcome none .done use], remarks rs)
  /-- A handler that may pause the script gets a handle. -/
  | pausingHandler {name : String} {h : Handler} {args : List Argument} {rs : List Remark}
      (means : s.commands.resolve c = (.handler name h args, rs)) (pauses : h.pausing = true) :
      Dispatches s c k use
        ({ s with handles := s.handles ++ [ResumeHandle.fresh name (k s.handles.length)] }.push
          [.tell (.handler h.key name args (some s.handles.length)),
            .afterCall name s.handles.length use], remarks rs)
  | method {m : Method} {target : Component} {args : List Argument} {rs : List Remark}
      (means : s.commands.resolve c = (.method m target args, rs)) (simple : m.mayPause = false) :
      Dispatches s c k use
        (s.push [.tell (.method m target args none), .outcome none .done use], remarks rs)
  /-- A method that may pause the script gets a handle. -/
  | pausingMethod {m : Method} {target : Component} {args : List Argument} {rs : List Remark}
      (means : s.commands.resolve c = (.method m target args, rs)) (pauses : m.mayPause = true) :
      Dispatches s c k use
        ({ s with handles := s.handles ++ [ResumeHandle.fresh m.name (k s.handles.length)] }.push
          (Item.tell (.method m target args (some s.handles.length)) ::
            (if m.kind = MethodKind.task then [Item.resumeWhenDone s.handles.length] else []) ++
            [Item.afterCall m.name s.handles.length use]), remarks rs)
  | refused {e : CommandError} {rs : List Remark}
      (means : s.commands.resolve c = (.refused e, rs)) :
      Dispatches s c k use (s.push [.outcome none (.failed e) use], remarks rs)
  /-- The host is told that nobody handled the command. -/
  | unhandled {key : HostKey} {rs : List Remark} (means : s.commands.resolve c = (.unhandled, rs))
      (listens : s.unhandled = some key) :
      Dispatches s c k use
        (s.push [.tell (.unhandled key c.text), .outcome none .unhandled use], remarks rs)
  | unheard {rs : List Remark} (means : s.commands.resolve c = (.unhandled, rs))
      (nobody : s.unhandled = none) (more : List Remark) :
      Dispatches s c k use (s.push [.outcome none .unhandled use], remarks more)

section

variable (s : Session)

theorem chooseOption_chooses (id : OptionId) : Chooses s id (s.chooseOption id) := by
  unfold chooseOption
  split
  · next seat => exact .nobody seat
  · next seat => exact .script seat
  · next seat => exact .host seat

theorem conclude_concludes (r : Reporter) (x : NextAction) : Concludes s r x (s.conclude r x) := by
  cases r with
  | host => exact .host x
  | engine =>
    unfold conclude
    cases seat : s.engine with
    | script e => exact .engine seat x
    | empty | host => exact .nobody (by simp [seat]) x

theorem resumeHandle_unpauses (k : Nat) : Unpauses s k (s.resumeHandle k) := by
  unfold resumeHandle
  split
  · next no => exact .unknown no
  · next hx => exact .resumed hx

theorem resumeWhenDone_spawns (k : Nat) : Spawns s k (s.resumeWhenDone k) := by
  unfold resumeWhenDone
  split
  · next runs => exact .spawned runs
  · next idle =>
    have idle : s.runsTasks = false := by simpa using idle
    split
    · next no => exact .resumes idle (.unknown no) []
    · exact .resumes idle (s.resumeHandle_unpauses k) [_]

theorem dispatch_dispatches (c : Command) (k : Nat → Continuation) (use : OutcomeUse) :
    Dispatches s c k use (s.dispatch c k use) := by
  unfold dispatch
  rcases means : s.commands.resolve c with ⟨r, rs⟩
  cases r with
  | handler name h args =>
    cases pauses : h.pausing with
    | true =>
      simp only [pauses, if_true]
      exact .pausingHandler means pauses
    | false =>
      simp only [pauses]
      exact .handler means pauses
  | method m target args =>
    cases pauses : m.mayPause with
    | true =>
      simp only [pauses, if_true]
      exact .pausingMethod means pauses
    | false =>
      simp only [pauses]
      exact .method means pauses
  | refused e => exact .refused means
  | unhandled =>
    dsimp only
    split
    · next listens => exact .unhandled means listens
    · next nobody => exact .unheard means nobody _

end

/-! ### Items -/

/-- Why nothing comes of an item. -/
inductive Idles (s : Session) : Item → Prop
  | telling (n : Notice) : Idles s (.telling n)
  | ask (key : HostKey) (e : Event) : Idles s (.ask key e)
  | invoke (key : HostKey) (args : List Value) (caller : Caller) : Idles s (.invoke key args caller)
  | lease : Idles s .lease
  | turn (other : ∀ e, s.engine ≠ .script e) : Idles s .turn
  | continueEngine (c : Cause) (nobody : s.engine = .empty) : Idles s (.continueEngine c)
  /-- Every view has been called, or another broadcast has begun. -/
  | rest {b : LineBroadcast} {n : Nat} {line : LocalizedLine} {g : Nat} {slots : List Nat}
      (passed : slots = [] ∨ s.dialogue.barrier.generation ≠ g) : Idles s (.rest b n line g slots)
  /-- The dialogue no longer exists. -/
  | resume {k : Continuation} (own : ∀ key, k ≠ .host key) (gone : s.exists? = false) :
      Idles s (.resume k)
  | closeLine {n : Nat} (stale : s.dialogue.closeLine? n = none) : Idles s (.closeLine n)
  | finish (ended : s.dialogue.running = false) : Idles s .finish
  | afterCall {name : String} {k : Nat} {use : OutcomeUse} (unknown : s.handles[k]? = none) :
      Idles s (.afterCall name k use)

/-- What comes of an item that is no longer on the agenda. -/
inductive Works (s : Session) : Item → Progress → Prop
  | idle {i : Item} (idles : Idles s i) (rs : List Remark) : Works s i (s, remarks rs)
  | tell (n : Notice) : Works s (.tell n) (s.push [.telling n], [])
  | reply (r : Reply) : Works s (.reply r) (s, [.reply r])
  /-- The engine takes its turn. -/
  | turn {e : Engine} (seat : s.engine = .script e) (storage : Option Variables)
      (rs : List Remark) :
      Works s .turn
        ({ s with
          engine := .script (e.turn (s.surroundings e)).1
          storage := storage
          agenda := requested (e.turn (s.surroundings e)).2.1 ++ s.agenda }, remarks rs)
  | continueScript (c : Cause) {e : Engine} (seat : s.engine = .script e) :
      Works s (.continueEngine c)
        ({ s with engine := .script e.continue?.1 }.push (if e.continue?.2 then [.turn] else []),
          [])
  | continueHost (c : Cause) {x : HostEngine} (seat : s.engine = .host x) :
      Works s (.continueEngine c) (s.push [.tell .engineContinue], [])
  | chooseOption (n : Nat) {id : OptionId} {p : Progress} (chooses : Chooses s id p) :
      Works s (.chooseOption n id) p
  | line (r : Reporter) (line : Line) :
      Works s (.hear r (.line line))
        (s.push [.present (s.dialogue.localize line).1 none, .conclude r .wait],
          remarks (s.dialogue.localize line).2)
  | options (r : Reporter) (set : OptionSet) {d : Dialogue}
      (opens : d = { s.dialogue with
          barrier := ⟨s.dialogue.barrier.generation + 1, [], none⟩ }.openOffer
        (s.dialogue.localizeOptions set.options).1) (rs : List Remark) :
      Works s (.hear r (.options set))
        ((s.withDialogue d).push
          (s.tellViews (.offerOptions (s.dialogue.localizeOptions set.options).1 d.offerSerial) ++
            [.conclude r .wait]), remarks rs)
  | command {r : Reporter} {c : Command} {p : Progress}
      (dispatches : Dispatches s c .commandDone (.event r) p) : Works s (.hear r (.command c)) p
  | nodeStart (r : Reporter) (node : String) (rs : List Remark) :
      Works s (.hear r (.nodeStart node))
        (s.push (s.tellViews (.nodeStart node) ++ [.conclude r .next]), remarks rs)
  | nodeEnd (r : Reporter) (node : String) (rs : List Remark) :
      Works s (.hear r (.nodeEnd node))
        (s.push (s.tellViews (.nodeEnd node) ++ [.conclude r .next]), remarks rs)
  | dialogueEnd (r : Reporter) :
      Works s (.hear r .dialogueEnd) (s.push [.finish, .conclude r .next], [])
  | conclude {r : Reporter} {x : NextAction} {p : Progress} (concludes : Concludes s r x p) :
      Works s (.conclude r x) p
  | present (line : LocalizedLine) (offer : Option Nat) (rs : List Remark) :
      Works s (.present line offer)
        ((s.withDialogue (s.dialogue.present line)).push
          [.broadcast .showing (s.dialogue.lineSerial + 1) { line with status := .running }],
          remarks rs)
  /-- A line is broadcast to nobody. -/
  | immediate (b : LineBroadcast) (n : Nat) (line : LocalizedLine) (empty : s.dialogue.views = [])
      (rs : List Remark) :
      Works s (.broadcast b n line)
        ((s.withDialogue { s.dialogue with
            barrier := ⟨s.dialogue.barrier.generation + 1, [], none⟩ }).push
          [.resume (b.continuation n)], remarks rs)
  | waiting (b : LineBroadcast) (n : Nat) (line : LocalizedLine) (watched : s.dialogue.views ≠ [])
      (rs : List Remark) :
      Works s (.broadcast b n line)
        ((s.withDialogue { s.dialogue with
            barrier := ⟨s.dialogue.barrier.generation + 1, s.dialogue.views,
              some (b.continuation n)⟩ }).push
          [.rest b n line (s.dialogue.barrier.generation + 1) s.dialogue.views], remarks rs)
  /-- The next view of a broadcast gets its token. -/
  | callNext (b : LineBroadcast) (n : Nat) (line : LocalizedLine) (v : Nat) (vs : List Nat) :
      Works s (.rest b n line s.dialogue.barrier.generation (v :: vs))
        (s.push [.tell (.view v (b.notice n line ⟨s.dialogue.barrier.generation, v⟩)),
          .rest b n line s.dialogue.barrier.generation vs], [])
  | resumeHost (key : HostKey) : Works s (.resume (.host key)) (s.push [.tell (.resumed key)], [])
  | lineShown {n : Nat} (here : s.exists? = true) {d : Dialogue} {line : LocalizedLine}
      (delivers : s.dialogue.deliver? n = some (d, line)) (rs : List Remark) :
      Works s (.resume (.lineShown n))
        (((s.push [.lease]).withDialogue d).push (s.tellViews (.lineStatus n line) ++
          if d.settings.autoAdvance then [.closeLine n] else []), remarks rs)
  | lineGone {n : Nat} (here : s.exists? = true) {d : Dialogue}
      (dismisses : s.dialogue.dismiss? n = some d) :
      Works s (.resume (.lineGone n))
        (((s.push [.lease]).withDialogue d).push [.continueEngine (.line n)], [])
  /-- The line is no longer the one that is presented. -/
  | stale {k : Continuation} (here : s.exists? = true)
      (old : (∃ n, k = .lineShown n ∧ s.dialogue.deliver? n = none) ∨
        ∃ n, k = .lineGone n ∧ s.dialogue.dismiss? n = none) :
      Works s (.resume k) (s.push [.lease], [])
  | commandDone (k : Nat) (here : s.exists? = true) :
      Works s (.resume (.commandDone k)) (s.push [.continueEngine (.command k), .lease], [])
  | closeLine {n : Nat} {d : Dialogue} {line : LocalizedLine}
      (closes : s.dialogue.closeLine? n = some (d, line)) (rs : List Remark) :
      Works s (.closeLine n) ((s.withDialogue d).push (s.dismissal line n), remarks rs)
  | finish (running : s.dialogue.running = true) (rs : List Remark) :
      Works s .finish
        ((s.withDialogue { s.dialogue.close with
            barrier := ⟨s.dialogue.barrier.generation + 1, [], none⟩ }).push
          (s.tellViews .dialogueEnd), remarks rs)
  | afterCall (name : String) {k : Nat} (use : OutcomeUse) {x : ResumeHandle Continuation}
      (hx : s.handles[k]? = some x) (rs : List Remark) :
      Works s (.afterCall name k use)
        ({ s with handles := s.handles.set k x.arm.1 }.push
          [.outcome (some k) (if x.arm.2 then .pause else .done) use], remarks rs)
  | resumeWhenDone {k : Nat} {p : Progress} (spawns : Spawns s k p) :
      Works s (.resumeWhenDone k) p
  | outcome (k : Option Nat) (o : DispatchOutcome) :
      Works s (.outcome k o .reply) (s, [.reply (.outcome o)])
  | outcomeOf (k : Option Nat) {o : DispatchOutcome} {r : Reporter} {p : Progress}
      (concludes : Concludes s r (if o = .pause then .wait else .next) p) :
      Works s (.outcome k o (.event r)) p

section

variable (s : Session)

theorem turn_eq {e : Engine} (he : s.engine = .script e) : ∃ storage rs, s.turn = ({ s with
    engine := .script (e.turn (s.surroundings e)).1
    storage := storage
    agenda := requested (e.turn (s.surroundings e)).2.1 ++ s.agenda }, remarks rs) := by
  rcases ht : e.turn (s.surroundings e) with ⟨e', request, rs⟩
  simp only [Session.turn, he, ht]
  cases request with
  | again | rest | invoke => exact ⟨s.storage, rs, by simp [requested, push]⟩
  | report l event => cases l <;> exact ⟨s.storage, rs, by simp [requested, push]⟩
  | store name v =>
    dsimp only [store]
    split
    · exact ⟨s.storage, rs, by simp [requested, push]⟩
    · split
      · exact ⟨_, rs, by simp [requested, push]; rfl⟩
      · exact ⟨s.storage, _, by simp only [remarks, ← List.map_append]; rfl⟩

variable {s} in
/-- What a turn of the engine does to a session. -/
theorem turn_shape {e : Engine} (he : s.engine = .script e) : ∃ storage, s.turn.1 = { s with
    engine := .script (e.turn (s.surroundings e)).1
    storage := storage
    agenda := requested (e.turn (s.surroundings e)).2.1 ++ s.agenda } := by
  obtain ⟨storage, rs, same⟩ := s.turn_eq he
  exact ⟨storage, congrArg Prod.fst same⟩

theorem turn_works : Works s .turn s.turn := by
  cases seat : s.engine with
  | script e =>
    obtain ⟨storage, rs, shape⟩ := s.turn_eq seat
    rw [shape]
    exact .turn seat storage rs
  | empty | host =>
    simp only [turn, seat]
    exact .idle (.turn (by simp [seat])) []

theorem continueEngine_works (c : Cause) : Works s (.continueEngine c) s.continueEngine := by
  unfold continueEngine
  split
  · next seat => exact .idle (.continueEngine c seat) []
  · next seat => exact .continueScript c seat
  · next seat => exact .continueHost c seat

theorem hear_works (r : Reporter) (e : Event) : Works s (.hear r e) (s.hear r e) := by
  cases e with
  | line line => exact .line r line
  | options set => exact .options r set rfl _
  | command c => exact .command (s.dispatch_dispatches c _ _)
  | nodeStart node => exact .nodeStart r node [_]
  | nodeEnd node => exact .nodeEnd r node [_]
  | dialogueEnd => exact .dialogueEnd r

theorem broadcast_works (b : LineBroadcast) (n : Nat) (line : LocalizedLine) :
    Works s (.broadcast b n line) (s.broadcast b n line) := by
  have starts := s.dialogue.barrier.start_cases s.dialogue.slots (b.continuation n)
  unfold broadcast
  generalize s.dialogue.barrier.start s.dialogue.slots (b.continuation n) = start at starts ⊢
  obtain ⟨barrier, opening, rs⟩ := start
  dsimp only at starts ⊢
  rcases starts with ⟨empty, rfl, rfl⟩ | ⟨watched, rfl, rfl⟩
  · exact .immediate b n line empty rs
  · exact .waiting b n line watched rs

theorem broadcastRest_works (b : LineBroadcast) (n : Nat) (line : LocalizedLine) (g : Nat)
    (slots : List Nat) : Works s (.rest b n line g slots) (s.broadcastRest b n line g slots) := by
  unfold broadcastRest Barrier.nextCall
  cases slots with
  | nil => exact .idle (.rest (.inl rfl)) []
  | cons v vs =>
    by_cases current : s.dialogue.barrier.generation = g
    · subst current
      simp only [Barrier.isCurrent, decide_true, if_true]
      exact .callNext b n line v vs
    · simp only [Barrier.isCurrent, current, decide_false, Bool.false_eq_true, if_false]
      exact .idle (.rest (.inr current)) [_]

theorem resume_works (k : Continuation) : Works s (.resume k) (s.resume k) := by
  have gone {k : Continuation} (own : ∀ key, k ≠ .host key) (vanished : ¬ s.exists? = true) :
      Works s (.resume k) (s, []) := .idle (.resume own (by simpa using vanished)) []
  unfold resume
  cases k with
  | host key => exact .resumeHost key
  | lineShown n =>
    dsimp only
    split
    · next here =>
      unfold lineShown
      split
      · next old => exact .stale here (.inl ⟨n, rfl, old⟩)
      · next delivers => exact .lineShown here delivers [_]
    · next vanished => exact gone nofun vanished
  | lineGone n =>
    dsimp only
    split
    · next here =>
      unfold lineGone
      split
      · next old => exact .stale here (.inr ⟨n, rfl, old⟩)
      · next dismisses => exact .lineGone here dismisses
    · next vanished => exact gone nofun vanished
  | commandDone k =>
    dsimp only
    split
    · next here => exact .commandDone k here
    · next vanished => exact gone nofun vanished

theorem closeLine_works (n : Nat) : Works s (.closeLine n) (s.closeLine n) := by
  unfold closeLine
  split
  · next stale => exact .idle (.closeLine stale) []
  · next closes => exact .closeLine closes [_]

theorem finish_works : Works s .finish s.finish := by
  unfold finish
  split
  · next running => exact .finish running _
  · next ended => exact .idle (.finish (by simpa using ended)) [_]

theorem afterCall_works (name : String) (k : Nat) (use : OutcomeUse) :
    Works s (.afterCall name k use) (s.afterCall name k use) := by
  unfold afterCall
  split
  · next unknown => exact .idle (.afterCall unknown) []
  · next x hx =>
    have armed (rs : List Remark) := Works.afterCall name use hx rs
    cases waits : x.arm.2 with
    | true =>
      simp only [waits, if_true] at armed ⊢
      exact armed [_]
    | false =>
      simp only [waits] at armed ⊢
      exact armed [_]

/-- An item comes to one of the things listed. -/
theorem work_works (i : Item) : Works s i (s.work i) := by
  cases i with
  | telling n => exact .idle (.telling n) []
  | ask key e => exact .idle (.ask key e) []
  | invoke key args caller => exact .idle (.invoke key args caller) []
  | lease => exact .idle .lease []
  | tell n => exact .tell n
  | reply r => exact .reply r
  | turn => exact s.turn_works
  | continueEngine c => exact s.continueEngine_works c
  | chooseOption n id => exact .chooseOption n (s.chooseOption_chooses id)
  | hear r e => exact s.hear_works r e
  | conclude r x => exact .conclude (s.conclude_concludes r x)
  | present line offer => exact .present line offer [_]
  | broadcast b n line => exact s.broadcast_works b n line
  | rest b n line g slots => exact s.broadcastRest_works b n line g slots
  | resume k => exact s.resume_works k
  | closeLine n => exact s.closeLine_works n
  | finish => exact s.finish_works
  | afterCall name k use => exact s.afterCall_works name k use
  | resumeWhenDone k => exact .resumeWhenDone (s.resumeWhenDone_spawns k)
  | outcome k o use =>
    cases use with
    | reply => exact .outcome k o
    | event r => exact .outcomeOf k (s.conclude_concludes r _)

end

end Session

end Prompter

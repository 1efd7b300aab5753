import Prompter.Proofs.Session.Agenda
import Prompter.Proofs.Session.Finality

/-!
# Prompter.Proofs.Session.Stillness

Sessions in which there is nothing left to tell the views.

When the dialogue ends, its line, its offer and its tokens are given up, and all views are told.
What they were being told at that time is not given up: the notices that were begun go on to the
views that have not had them yet. So views are left alone after the end if nothing was begun, and
the engine has nothing more to report (`Still`); `Run.still` says that this lasts until the dialogue
is started again. Two more things must not happen for a view to be left alone from the end to its
next beginning: a start while views are still told of the end, and a report of the engine while they
are told of the beginning (`Orderly`). `Run.minded` says what is known of a session that has been
orderly.
-/

namespace Prompter

/-- Whether a view is told something of what happens in a dialogue. -/
def ViewNotice.isScene : ViewNotice → Bool
  | .opened | .dialogueEnd => false
  | _ => true

/-- Whether an event leads to something that views are told of what happens. -/
def Event.isScene : Event → Bool
  | .line _ | .options _ | .nodeStart _ | .nodeEnd _ => true
  | .command _ | .dialogueEnd => false

/-- Whether an item tells a view what happens, or leads to that. -/
def Item.isScene : Item → Bool
  | .tell (.view _ n) => n.isScene
  | .hear _ event => event.isScene
  | .present _ _ | .broadcast _ _ _ => true
  | _ => false

namespace Session

/-- Whether a view hears that the dialogue is over, if it hears that or that the dialogue has
begun. -/
def Mark.ends? (v : Nat) : Mark → Option Bool
  | .did (.tell (.view v' .dialogueEnd)) => if v' = v then some true else none
  | .did (.tell (.view v' .opened)) => if v' = v then some false else none
  | _ => none

/-- Whether the last that a view has heard of the dialogue itself is that it is over. -/
def overFor (v : Nat) : History → Bool
  | [] => false
  | m :: h => (m.ends? v).getD (overFor v h)

/-- From the end of a dialogue to its next beginning, a view is told of nothing that happens. -/
def LeftAlone (v : Nat) (h : History) : Prop :=
  ∀ newer older n, h = newer ++ .did (.tell (.view v n)) :: older → n.isScene = true →
    overFor v older = false

/-- The host leaves it to the engine to go to a node and to report what happens. -/
def Undirected (_ : Session) (_ : History) (c : Call) : Prop :=
  (∀ node, c ≠ .place node) ∧ ∀ event, c ≠ .deliver event

/-- The engine is done. -/
def IsDone (s : Session) : Prop := ∃ e, s.engine = .script e ∧ e.IsDone

/-- Nothing is left to do that would tell a view what happens, or that would lead to it. -/
structure Still (s : Session) : Prop where
  scene : ∀ i ∈ s.agenda, i.isScene = false
  /-- No broadcast is under way. -/
  stale : ∀ b n line g slots, .rest b n line g slots ∈ s.agenda → g < s.dialogue.barrier.generation
  line : s.dialogue.line = none
  offer : s.dialogue.offer = none

/-- The dialogue is going to end next, with what is left to do after that. -/
def Ends (s : Session) (rest : List Item) : Prop :=
  s.agenda = .finish :: rest ∧ s.dialogue.running = true

/-- What has to hold of a session at any time, for its views to be left alone. -/
structure Orderly (s : Session) : Prop where
  /-- When the dialogue ends, views are not being told of anything else, and the engine is done. -/
  finish : ∀ rest, Ends s rest → (∀ i ∈ rest, i.isScene = false) ∧ s.IsDone
  /-- The dialogue has not been started while views are told of the end. -/
  start : s.dialogue.running = true → ∀ v, .tell (.view v .dialogueEnd) ∉ s.agenda
  /-- The engine reports nothing while views are told of the beginning. -/
  opening : ∀ v, .tell (.view v .opened) ∈ s.agenda → ∀ r event, .hear r event ∈ s.agenda →
    event.isScene = false

/-! ### One step -/

section

variable {d d' : Dialogue} {hs : List (ResumeHandle Continuation)} {m : Mark} {a items : List Item}
  {s s' : Session}

theorem isScene_of_isAside {i : Item} (aside : i.isAside = true) : i.isScene = false := by
  unfold Item.isAside at aside
  unfold Item.isScene
  split at aside <;> simp_all

theorem Post.generation_le (post : Post d hs m d' items) :
    d.barrier.generation ≤ d'.barrier.generation := by
  cases post with
  | immediate | waiting | options | finish => exact Nat.le_succ _
  | completed t barrier k same => exact Nat.le_of_eq same.symm
  | advanced quiet shown advances =>
    obtain ⟨line, -, -, rfl⟩ := advances
    exact Nat.le_refl _
  | _ => exact Nat.le_refl _

/-- A dialogue runs from a start to its end. -/
theorem Post.running_cases (post : Post d hs m d' items) :
    d'.running = d.running ∨
      (d.running = false ∧ (∃ node, m = .call (.start node)) ∧ items ≠ [] ∧
        ∀ v ∈ d.views, .tell (.view v .opened) ∈ items) ∨
      (d.running = true ∧ m = .did .finish ∧ d'.running = false) := by
  cases post with
  | opened node free =>
    refine .inr (.inl ⟨free, ⟨node, rfl⟩, by simp, fun v hv => ?_⟩)
    exact List.mem_append_left _ (mem_tells.2 ⟨v, hv, rfl⟩)
  | finish running => exact .inr (.inr ⟨running, rfl, rfl⟩)
  | advanced quiet shown advances =>
    obtain ⟨line, -, -, rfl⟩ := advances
    exact .inl rfl
  | _ => exact .inl rfl

/-- A line and an offer are made by events. -/
theorem Post.stays_blank (post : Post d hs m d' items)
    (unseen : ∀ i, m = .did i → i.isScene = false) (line : d.line = none) (offer : d.offer = none) :
    d'.line = none ∧ d'.offer = none := by
  cases post with
  | options r set => cases unseen _ rfl
  | present line' => cases unseen _ rfl
  | advanced quiet shown advances =>
    obtain ⟨line', hl, -⟩ := advances
    rw [line] at hl
    cases hl
  | finish => exact ⟨rfl, rfl⟩
  | gone => exact ⟨rfl, offer⟩
  | chosen => exact ⟨line, rfl⟩
  | _ => exact ⟨line, offer⟩

/-- Where nothing is left to do, nothing comes of it but what the engine reports. -/
theorem Still.step (still : Still s) (posts : Posts s.dialogue s.handles s.agenda m s')
    (unheard : ∀ r event, .hear r event ∈ s'.agenda → event.isScene = false) : Still s' := by
  have unseen (i : Item) (hm : m = .did i) : i.isScene = false := by
    subst hm
    exact still.scene i posts.mem_did
  -- no item can be one that tells a view what happens
  have origin {i : Item} (origin : Origin s.dialogue s.handles m i)
      (hi : i ∈ s'.agenda) : i.isScene = false := by
    cases origin with
    | deliver event => exact unheard _ event hi
    | report event => exact unheard _ event hi
    | line | options | nodeStart | nodeEnd | present => cases unseen _ rfl
    | callNext b n line v vs => exact absurd (still.stale _ _ _ _ _ posts.mem_did) (Nat.lt_irrefl _)
    | status quiet shown v ongoing => simp [still.line] at ongoing
    | removing quiet shown ongoing => simp [still.line] at ongoing
    | chosen o id line open_ =>
      rw [still.offer] at open_
      cases open_
    | _ => rfl
  obtain ⟨line, offer⟩ : s'.dialogue.line = none ∧ s'.dialogue.offer = none := by
    obtain ⟨_, _, -, post, -⟩ := id posts
    exact post.stays_blank unseen still.line still.offer
  refine ⟨fun i hi => ?_, fun b n line g slots hi => ?_, line, offer⟩
  · rcases posts.origin hi with old | aside | new
    · exact still.scene i old
    · exact isScene_of_isAside aside
    · exact origin new hi
  · rcases posts.origin hi with old | aside | new
    · obtain ⟨_, _, -, post, -⟩ := posts
      exact Nat.lt_of_lt_of_le (still.stale b n line g slots old) post.generation_le
    · cases aside
    · cases new with
      | waiting => cases unseen _ rfl
      | callRest => exact absurd (still.stale _ _ _ _ _ posts.mem_did) (Nat.lt_irrefl _)

/-- The end of a dialogue gives up what it has. -/
theorem Post.gives_up (post : Post d hs (.did .finish) d' items) (running : d.running = true) :
    d'.running = false ∧ d.barrier.generation < d'.barrier.generation ∧ d'.line = none ∧
      d'.offer = none := by
  cases post with
  | finish => exact ⟨rfl, Nat.lt_succ_self _, rfl, rfl⟩
  | aside quiet | forwarded quiet | advanced quiet => simp [Mark.isAside, running] at quiet

/-- When the dialogue ends, nothing is left to do if nothing was. -/
theorem Still.of_finish {rest : List Item} (posts : Posts s.dialogue s.handles s.agenda m s')
    (hm : m = .did .finish) (running : s.dialogue.running = true) (top : s.agenda = .finish :: rest)
    (clear : ∀ i ∈ rest, i.isScene = false)
    (bounded : ∀ b n line g slots, .rest b n line g slots ∈ s.agenda →
      g ≤ s.dialogue.barrier.generation) : Still s' := by
  subst hm
  have scene (i : Item) (hi : i ∈ s'.agenda) : i.isScene = false := by
    rcases posts.origin hi with old | aside | new
    · rw [top] at old
      rcases List.mem_cons.1 old with rfl | old
      · rfl
      · exact clear i old
    · exact isScene_of_isAside aside
    · cases new with
      | finish => rfl
      | forwarded quiet | status quiet | closing quiet | removing quiet =>
        simp [Mark.isAside, running] at quiet
  have origin {b : LineBroadcast} {n : Nat} {line : LocalizedLine} {g : Nat} {slots : List Nat} :
      ¬ Origin s.dialogue s.handles (.did .finish) (.rest b n line g slots) := nofun
  obtain ⟨_, _, -, post, -⟩ := id posts
  obtain ⟨-, generation, line, offer⟩ := post.gives_up running
  refine ⟨scene, fun b n line g slots hi => ?_, line, offer⟩
  rcases posts.origin hi with old | aside | new
  · exact Nat.lt_of_le_of_lt (bounded b n line g slots old) generation
  · cases aside
  · exact absurd new origin

/-- An event that the dialogue is to hear from the engine has just been reported. -/
theorem event?_of_hear {e : Engine} (he : s.engine = .script e) {r : Reporter} {event : Event}
    (hi : .hear r event ∈ s.turn.1.agenda) :
    .hear r event ∈ s.agenda ∨ (e.turn (s.surroundings e)).2.1.event? = some event := by
  have put (items : List Item) (hi : .hear r event ∈ items ++ s.agenda)
      (other : .hear r event ∉ items) : .hear r event ∈ s.agenda :=
    (List.mem_append.1 hi).resolve_left other
  rcases ht : e.turn (s.surroundings e) with ⟨e', request, rs⟩
  simp only [turn, he, ht] at hi
  cases request with
  | report l event' =>
    cases l with
    | dialogue =>
      rcases List.mem_cons.1 hi with same | old
      · cases same
        exact .inr rfl
      · exact .inl old
    | host key => exact .inl (put [.ask key event'] hi (by simp))
  | again => exact .inl (put [.turn] hi (by simp))
  | invoke key args => exact .inl (put [.invoke key args .engine] hi (by simp))
  | rest => exact .inl hi
  | store name v =>
    refine .inl (put [.turn] ?_ (by simp))
    simp only [store] at hi
    split at hi
    · exact hi
    · split at hi <;> exact hi

theorem reported?_of_hear {e : Engine} (he : s.engine = .script e) (busy : s.awaitsHost = false)
    {rest : List Item} (top : s.agenda = .turn :: rest) {r : Reporter} {event : Event}
    (hi : .hear r event ∈ s.step.1.agenda) :
    .hear r event ∈ s.agenda ∨ s.reported? (.did .turn) = some event := by
  have told : s.reported? (.did .turn) =
      (e.turn ({ s with agenda := rest }.surroundings e)).2.1.event? := by
    simp only [reported?, he, top, List.tail_cons]
  rw [step_eq_work busy top] at hi
  rw [told, top]
  exact (event?_of_hear (s := { s with agenda := rest }) he hi).imp_left (List.mem_cons_of_mem _)

end

/-! ### Runs -/

section

variable {allowed : Session → History → Call → Prop} {s₀ s s' : Session} {h : History} {m : Mark}

theorem Run.bounded (start : s₀.agenda = []) (r : Run allowed s₀ s h) :
    ∀ b n line g slots, .rest b n line g slots ∈ s.agenda →
      g ≤ s.dialogue.barrier.generation := by
  refine r.posts (motive := fun s _ => ∀ b n line g slots, .rest b n line g slots ∈ s.agenda →
    g ≤ s.dialogue.barrier.generation) ?_ ?_
  · simp [start]
  · intro s s' h m _ _ posts known b n line g slots hi
    obtain ⟨_, _, -, post, -⟩ := id posts
    rcases posts.origin hi with old | aside | new
    · exact Nat.le_trans (known b n line g slots old) post.generation_le
    · cases aside
    · cases new with
      | waiting =>
        generalize s'.dialogue = d' at post
        cases post with
        | immediate | waiting => exact Nat.le_refl _
        | aside quiet | forwarded quiet | advanced quiet => cases quiet
      | callRest => exact post.generation_le

/-- An engine that is done reports at most that the dialogue is over, unless it is put at a node. -/
theorem Run.isDone_step (r : Run allowed s₀ s h) (r' : Run allowed s₀ s' (m :: h))
    (attentive : ∃ e, s.engine = .script e ∧ e.Attentive) (done : s.IsDone)
    (unplaced : ∀ c, m = .call c → s.places? c = none ∧ ∀ event, c ≠ .deliver event) :
    s'.IsDone ∧ ∀ r event, .hear r event ∈ s'.agenda →
      .hear r event ∈ s.agenda ∨ event = .dialogueEnd := by
  obtain ⟨e, he, done⟩ := done
  obtain ⟨e', he', a⟩ := attentive
  obtain rfl : e = e' := EngineSeat.script.inj (he.symm.trans he')
  cases r' with
  | @work s _ r' busy i rest top =>
    obtain rfl := r.unique r'
    obtain ⟨e', he', act⟩ := step_acts s busy top e he
    obtain ⟨done', ending⟩ := (act.outcome a).isDone done
    refine ⟨⟨e', he', done'⟩, fun r event hi => ?_⟩
    rcases (step_posts busy top).origin hi with old | aside | new
    · exact .inl old
    · cases aside
    · cases new with
      | report => exact (reported?_of_hear he busy top hi).imp_right (ending event)
  | @call s _ r' word c ok =>
    obtain rfl := r.unique r'
    obtain ⟨unplaced, undelivered⟩ := unplaced c rfl
    refine ⟨?_, fun r event hi => ?_⟩
    · cases stopped : s.stops c with
      | true => exact ⟨e.stop.1, call_stops he stopped, rfl, done.prospect⟩
      | false =>
        obtain ⟨e', he', act⟩ := call_acts unplaced stopped e he
        exact ⟨e', he', ((act.outcome a).isDone done).1⟩
    · rcases (call_posts c (.call c _ (callsHost_of_awaitsHost word))).origin hi with
        old | aside | new
      · exact .inl old
      · cases aside
      · cases new with
        | deliver event => exact absurd rfl (undelivered event)
  | @answer s _ r' x fits =>
    obtain rfl := r.unique r'
    obtain ⟨e', he', act⟩ := answer_acts s x e he
    refine ⟨⟨e', he', ((act.outcome a).isDone done).1⟩, fun r event hi => ?_⟩
    rcases (answer_posts x fits).origin hi with old | aside | new
    · exact .inl old
    · cases aside
    · cases new

theorem places?_eq_none {c : Call} (unplaced : ∀ node, c ≠ .place node)
    (unstarted : ∀ node, c ≠ .start node) : s.places? c = none := by
  cases c with
  | place node => exact absurd rfl (unplaced node)
  | start node => exact absurd rfl (unstarted node)
  | _ => rfl

/-- A start that puts the engine at a node succeeds. -/
theorem running_of_places? {e : Engine} (he : s.engine = .script e) {node? : Option String}
    {node : String} (places : s.places? (.start node?) = some node) :
    (s.call (.start node?)).1.dialogue.running = true := by
  obtain ⟨named, free⟩ := Option.filter_eq_some_iff.1 places
  rw [s.call_start_eq he named (Option.isNone_iff_eq_none.1 free)]

/-- When nothing is left to do after the end, views are told of nothing that happens until the
dialogue is started. -/
theorem Run.still (undirected : ∀ {s h c}, allowed s h c → Undirected s h c)
    (attentive : ∃ e, s₀.engine = .script e ∧ e.Attentive) (ended : s₀.dialogue.running = false)
    (start : Still s₀) (done : s₀.IsDone) (r : Run allowed s₀ s h)
    (unstarted : ∀ node, .call (.start node) ∉ h) :
    (s.dialogue.running = false ∧ Still s ∧ s.IsDone) ∧
      ∀ v n, .did (.tell (.view v n)) ∈ h → n.isScene = false := by
  refine r.posts (motive := fun s h => (∀ node, .call (.start node) ∉ h) →
    (s.dialogue.running = false ∧ Still s ∧ s.IsDone) ∧
      ∀ v n, .did (.tell (.view v n)) ∈ h → n.isScene = false) ?_ ?_ unstarted
  · exact fun _ => ⟨⟨ended, start, done⟩, fun _ _ hm => by cases hm⟩
  · intro s s' h m r r' posts known unstarted
    obtain ⟨⟨ended, still, done⟩, told⟩ := known fun node hm => unstarted node (.tail m hm)
    obtain ⟨e, he, a⟩ := attentive
    obtain ⟨done', heard⟩ := r.isDone_step r' (r.attentive he a) done fun c hm => by
      subst hm
      obtain ⟨unplaced, undelivered⟩ := undirected (r.allowed_of_call r')
      refine ⟨places?_eq_none unplaced fun node hc => ?_, undelivered⟩
      exact unstarted node (hc ▸ List.mem_cons_self)
    have still' := still.step posts fun r event hi => by
      rcases heard r event hi with old | rfl
      · exact still.scene _ old
      · rfl
    refine ⟨⟨?_, still', done'⟩, fun v n hm => ?_⟩
    · obtain ⟨_, _, -, post, -⟩ := posts
      rcases post.running_cases with same | ⟨-, ⟨node, rfl⟩, -⟩ | ⟨-, -, ended'⟩
      · exact same.trans ended
      · exact absurd List.mem_cons_self (unstarted node)
      · exact ended'
    · rcases List.mem_cons.1 hm with rfl | hm
      · exact still.scene _ posts.mem_did
      · exact told v n hm

theorem ends?_eq_true {v : Nat} (ends : m.ends? v = some true) :
    m = .did (.tell (.view v .dialogueEnd)) := by
  unfold Mark.ends? at ends
  split at ends
  · split at ends
    · next same => rw [same]
    · cases ends
  · split at ends <;> cases ends
  · cases ends

theorem overFor_of_cons {v : Nat} (past : overFor v (m :: h) = true) :
    m ≠ .did (.tell (.view v .opened)) ∧
      (m = .did (.tell (.view v .dialogueEnd)) ∨ overFor v h = true) := by
  refine ⟨?_, ?_⟩
  · rintro rfl
    simp [overFor, Mark.ends?] at past
  · rw [overFor] at past
    cases ends : m.ends? v with
    | none =>
      rw [ends] at past
      exact .inr past
    | some ended =>
      rw [ends] at past
      cases past
      exact .inl (ends?_eq_true ends)

/-- What is known of what views are told, while a session has been orderly. -/
structure Minded (s : Session) (h : History) : Prop where
  quiet : s.dialogue.running = false → Still s ∧ s.IsDone
  opening : ∀ v, .tell (.view v .opened) ∈ s.agenda → Still s
  /-- While the dialogue is running, the views that do not know of it are going to be told. -/
  unaware : s.dialogue.running = true → ∀ v, overFor v h = true → .tell (.view v .opened) ∈ s.agenda
  listed : ∀ v, overFor v h = true ∨ .tell (.view v .dialogueEnd) ∈ s.agenda →
    v ∈ s.dialogue.views
  alone : ∀ v, LeftAlone v h

section

variable (known : Minded s h) (posts : Posts s.dialogue s.handles s.agenda m s')

include known posts

theorem Minded.step_unaware (orderly : Orderly s) (running : s'.dialogue.running = true) (v : Nat)
    (past : overFor v (m :: h) = true) : .tell (.view v .opened) ∈ s'.agenda := by
  obtain ⟨unopened, past⟩ := overFor_of_cons past
  have waited (before : s.dialogue.running = true) : .tell (.view v .opened) ∈ s'.agenda := by
    refine (posts.pending rfl ?_).resolve_right unopened
    rcases past with rfl | past
    · exact absurd posts.mem_did (orderly.start before v)
    · exact known.unaware before v past
  obtain ⟨items, rest, -, post, agenda⟩ := id posts
  rcases post.running_cases with same | ⟨-, ⟨node, rfl⟩, -, opened⟩ | ⟨before, -⟩
  · exact waited (same ▸ running)
  · -- the dialogue has just been started
    rw [agenda]
    refine List.mem_append_left rest (opened v (known.listed v (.inl ?_)))
    exact past.resolve_left nofun
  · exact waited before

theorem Minded.step_listed (views : s'.dialogue.views = s.dialogue.views) (v : Nat)
    (hv : overFor v (m :: h) = true ∨ .tell (.view v .dialogueEnd) ∈ s'.agenda) :
    v ∈ s'.dialogue.views := by
  rw [views]
  rcases hv with past | waits
  · rcases (overFor_of_cons past).2 with rfl | past
    · exact known.listed v (.inr posts.mem_did)
    · exact known.listed v (.inl past)
  · rcases posts.origin waits with old | aside | new
    · exact known.listed v (.inr old)
    · cases aside
    · generalize hn : ViewNotice.dialogueEnd = notice at new
      cases new with
      | finish _ hv => exact hv
      | callNext b => cases b <;> cases hn
      | _ => cases hn

theorem Minded.step_alone (v : Nat) : LeftAlone v (m :: h) := by
  intro newer older n split scene
  cases newer with
  | cons m' newer =>
    cases split
    exact known.alone v newer older n rfl scene
  | nil =>
    cases split
    -- a view is told of something, so the dialogue is running and the view has been told so
    have stirs : ¬ Still s := fun still => by
      have unseen := still.scene _ posts.mem_did
      rw [Item.isScene, scene] at unseen
      cases unseen
    cases running : s.dialogue.running with
    | false => exact absurd (known.quiet running).1 stirs
    | true =>
      cases past : overFor v h with
      | false => rfl
      | true => exact absurd (known.opening v (known.unaware running v past)) stirs

end

/-- When the dialogue is over, nothing is left to do. -/
theorem Minded.step_quiet (known : Minded s h) (start : s₀.agenda = [])
    (undirected : ∀ {s h c}, allowed s h c → Undirected s h c)
    (attentive : ∃ e, s.engine = .script e ∧ e.Attentive) (r : Run allowed s₀ s h)
    (r' : Run allowed s₀ s' (m :: h)) (posts : Posts s.dialogue s.handles s.agenda m s')
    (orderly : Orderly s) (ended : s'.dialogue.running = false) : Still s' ∧ s'.IsDone := by
  cases running : s.dialogue.running with
  | true =>
    -- it ends now
    obtain ⟨_, _, -, post, -⟩ := id posts
    obtain rfl : m = .did .finish := by
      rcases post.running_cases with same | ⟨free, -⟩ | ⟨-, past, -⟩
      · rw [same, running] at ended
        cases ended
      · rw [running] at free
        cases free
      · exact past
    cases r' with
    | work r₁ busy top =>
      obtain rfl := r.unique r₁
      obtain ⟨clear, done⟩ := orderly.finish _ ⟨top, running⟩
      obtain ⟨done, -⟩ := r.isDone_step (r.work busy top) attentive done nofun
      exact ⟨.of_finish posts rfl running top clear (r.bounded start), done⟩
  | false =>
    obtain ⟨still, done⟩ := known.quiet running
    obtain ⟨done', heard⟩ := r.isDone_step r' attentive done fun c hm => by
      subst hm
      obtain ⟨unplaced, undelivered⟩ := undirected (r.allowed_of_call r')
      refine ⟨?_, undelivered⟩
      cases placed : s.places? c with
      | none => rfl
      | some node =>
        cases c with
        | start node? =>
          obtain ⟨e, he, -⟩ := attentive
          rw [← r'.after_eq, after, r.after_eq, running_of_places? he placed] at ended
          cases ended
        | place node' => exact absurd rfl (unplaced node')
        | _ => cases placed
    refine ⟨still.step posts fun r event hi => ?_, done'⟩
    rcases heard r event hi with old | rfl
    · exact still.scene _ old
    · rfl

theorem Minded.step (known : Minded s h) (start : s₀.agenda = [])
    (undirected : ∀ {s h c}, allowed s h c → Undirected s h c)
    (attentive : ∃ e, s.engine = .script e ∧ e.Attentive) (r : Run allowed s₀ s h)
    (r' : Run allowed s₀ s' (m :: h)) (posts : Posts s.dialogue s.handles s.agenda m s')
    (orderly : Orderly s) (orderly' : Orderly s') : Minded s' (m :: h) where
  quiet ended := known.step_quiet start undirected attentive r r' posts orderly ended
  opening v waits := by
    have unheard (r : Reporter) (event : Event) (hi : .hear r event ∈ s'.agenda) :
        event.isScene = false := orderly'.opening v waits r event hi
    rcases posts.origin waits with old | aside | new
    · exact (known.opening v old).step posts unheard
    · cases aside
    · generalize hn : ViewNotice.opened = notice at new
      cases new with
      | opened node _ free => exact (known.quiet free).1.step posts unheard
      | callNext b => cases b <;> cases hn
      | _ => cases hn
  unaware := known.step_unaware posts orderly
  listed := known.step_listed posts (r'.views.trans r.views.symm)
  alone := known.step_alone posts

theorem Run.minded {e₀ : Engine} (fresh : s₀.IsFresh) (he : s₀.engine = .script e₀)
    (idle : e₀.phase = .idle) (out : e₀.node = none)
    (undirected : ∀ {s h c}, allowed s h c → Undirected s h c) (r : Run allowed s₀ s h)
    (orderly : ∀ newer older, h = newer ++ older → Orderly (after s₀ older)) : Minded s h := by
  have a : e₀.Attentive := Engine.attentive_of_idle idle
  have done : e₀.IsDone := ⟨out, .inl (by rw [idle]; rfl)⟩
  refine r.posts (motive := fun s h => (∀ newer older, h = newer ++ older →
    Orderly (after s₀ older)) → Minded s h) ?_ ?_ orderly
  · intro
    have still : Still s₀ := by
      refine ⟨?_, ?_, ?_, ?_⟩
      · simp [fresh.agenda]
      · simp [fresh.agenda]
      · rw [fresh.dialogue]
      · rw [fresh.dialogue]
    refine ⟨fun _ => ⟨still, e₀, he, done⟩, ?_, ?_, ?_, ?_⟩
    · simp [fresh.agenda]
    · simp [overFor]
    · simp [overFor, fresh.agenda]
    · intro v newer older n split
      simp at split
  · intro s s' h m r r' posts known orderly
    have now : Orderly s' := r'.after_eq ▸ orderly [] _ rfl
    have before : Orderly s := r.after_eq ▸ orderly [m] _ rfl
    exact (known fun newer older split => orderly (m :: newer) older (by rw [split]; rfl)).step
      fresh.agenda undirected (r.attentive he a) r r' posts before now

end

end Session

end Prompter

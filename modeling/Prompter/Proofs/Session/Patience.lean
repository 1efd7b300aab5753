import Prompter.Proofs.Session.Stillness

/-!
# Prompter.Proofs.Session.Patience

A host that lets its views be told everything before it goes on.

Views may make requests from inside everything that they are told, and most of what goes wrong at
the end of a dialogue comes of requests that one view makes while others have still to be told the
same. A patient host makes none that leaves anything to do, until nobody waits to be told anything,
and it does not stop the dialogue while the engine is on its way to a report. Its sessions are
orderly (`Run.orderly`).
-/

namespace Prompter

namespace Item

/-- Whether an item tells a view something, or leads to something that happens. -/
def isLoud : Item → Bool
  | .tell (.view _ _) => true
  | i => i.isScene

/-- Whether an item does no more than call the host. -/
def isMute : Item → Bool
  | .tell _ | .telling _ | .chooseOption _ _ => true
  | _ => false

/-- Whether an item leads to the end of the dialogue. -/
def isEnding : Item → Bool
  | .finish | .hear _ .dialogueEnd => true
  | _ => false

end Item

namespace Session

/-- What is above a loud item on an agenda does no more than call the host. -/
def Hushed (a : List Item) : Prop :=
  a.Pairwise fun i j => j.isLoud = true → i.isMute = true

/-- A request of a patient host. -/
structure Patient (s : Session) (c : Call) : Prop where
  /-- It leaves nothing to do while somebody waits to be told something. -/
  hushed : (s.call c).1.agenda ≠ s.agenda → ∀ i ∈ s.agenda, i.isLoud = false
  /-- It does not stop the dialogue while the engine is on its way to a report. -/
  settled : c = .stop → ∀ e, s.engine = .script e →
    e.phase.prospect = .nothing ∨ e.phase.prospect = .dialogueEnd

/-! ### Hushed agendas -/

section

variable {d d' : Dialogue} {hs : List (ResumeHandle Continuation)} {m : Mark}
  {a b items : List Item}

theorem isScene_of_not_isLoud {i : Item} (quiet : i.isLoud = false) : i.isScene = false := by
  unfold Item.isLoud at quiet
  split at quiet
  · cases quiet
  · exact quiet

theorem isLoud_of_isAside {i : Item} (aside : i.isAside = true) : i.isLoud = false := by
  unfold Item.isLoud
  split
  · cases aside
  · exact isScene_of_isAside aside

theorem isEnding_of_isAside {i : Item} (aside : i.isAside = true) : i.isEnding = false := by
  unfold Item.isEnding
  split
  · cases aside
  · cases aside
  · rfl

theorem hushed_of_quiet (quiet : ∀ i ∈ a, i.isLoud = false) : Hushed a := by
  refine List.pairwise_of_forall_mem_list fun i _ j hj loud => ?_
  rw [quiet j hj] at loud
  cases loud

theorem hushed_of_mute (mute : ∀ i ∈ a, i.isMute = true) : Hushed a :=
  List.pairwise_of_forall_mem_list fun i hi _ _ _ => mute i hi

theorem Hushed.append (above : Hushed a) (below : Hushed b)
    (apart : (∀ i ∈ a, i.isMute = true) ∨ ∀ i ∈ b, i.isLoud = false) : Hushed (a ++ b) := by
  refine List.pairwise_append.2 ⟨above, below, fun i hi j hj loud => ?_⟩
  rcases apart with mute | quiet
  · exact mute i hi
  · rw [quiet j hj] at loud
    cases loud

theorem isMute_of_mem_tells {views : List Nat} {n : ViewNotice} :
    ∀ i ∈ tells views n, i.isMute = true := by
  intro i hi
  obtain ⟨v, -, rfl⟩ := mem_tells.1 hi
  rfl

/-- Whatever is put on the agenda is hushed. -/
theorem Post.hushed (post : Post d hs m d' items) : Hushed items := by
  have told (n : ViewNotice) {last : List Item} (below : Hushed last) :
      Hushed (tells d.views n ++ last) :=
    (hushed_of_mute isMute_of_mem_tells).append below (.inl isMute_of_mem_tells)
  have aside {items : List Item} (others : ∀ i ∈ items, i.isAside = true) :
      ∀ i ∈ items, i.isLoud = false := fun i hi => isLoud_of_isAside (others i hi)
  cases post with
  | aside quiet items others => exact hushed_of_quiet (aside others)
  | opened | options | nodeStart | nodeEnd =>
    exact told _ (hushed_of_quiet (by simp [Item.isLoud, Item.isScene]))
  | finish => exact hushed_of_mute isMute_of_mem_tells
  | stopping running first others =>
    refine hushed_of_quiet (List.forall_mem_append.2 ⟨aside others, ?_⟩)
    simp [Item.isLoud, Item.isScene]
  | advanced quiet shown advances next goesOn last others =>
    refine told _ (Hushed.append ?_ (hushed_of_quiet (aside others)) (.inr (aside others)))
    cases next <;> simp [Hushed]
  | forwarded quiet x hx last others =>
    exact hushed_of_quiet (List.forall_mem_cons.2 ⟨rfl, aside others⟩)
  | completed t barrier k =>
    cases k <;> exact hushed_of_quiet (by simp [resumption, Item.isLoud, Item.isScene])
  | chosen o id open_ next goesOn =>
    simp [Hushed, Item.isLoud, Item.isScene, Item.isMute]
  | callNext b n line v vs => simp [Hushed, Item.isLoud, Item.isScene, Item.isMute]
  | deliver | report | line | dialogueEnd | present | immediate | waiting | gone =>
    simp [Hushed, Item.isLoud, Item.isScene]

end

/-! ### Sessions of a patient host -/

/-- What holds in every session of a patient host. -/
structure Hush (s : Session) : Prop where
  hushed : Hushed s.agenda
  /-- The end of the dialogue does not wait. -/
  prompt : ∀ i ∈ s.agenda.tail, i ≠ .finish
  /-- When it comes, the engine is done. -/
  ending : ∀ i ∈ s.agenda, i.isEnding = true → s.IsDone
  /-- Until it has been told, the dialogue is not started again. -/
  started : s.dialogue.running = true → ∀ v, .tell (.view v .dialogueEnd) ∉ s.agenda

section

variable {allowed : Session → History → Call → Prop} {s₀ s s' : Session} {h : History} {m : Mark}

theorem Hush.orderly (hush : Hush s) (prompt : ∀ i ∈ s.agenda.tail, i.isPrompt = false) :
    Orderly s where
  finish rest ends := by
    obtain ⟨top, -⟩ := ends
    have hushed := hush.hushed
    rw [top] at hushed
    refine ⟨fun i hi => isScene_of_not_isLoud ?_, hush.ending .finish (by simp [top]) rfl⟩
    cases loud : i.isLoud with
    | false => rfl
    | true => cases List.rel_of_pairwise_cons hushed hi loud
  start := hush.started
  opening v waits r event hears := by
    -- an event is heard at once, so that it is above the notice
    cases top : s.agenda with
    | nil => simp [top] at waits
    | cons i rest =>
      rw [top] at waits hears prompt
      have hushed := hush.hushed
      rw [top] at hushed
      rcases List.mem_cons.1 hears with rfl | hears
      · rcases List.mem_cons.1 waits with same | waits
        · cases same
        · cases List.rel_of_pairwise_cons hushed waits rfl
      · cases prompt _ hears

theorem Hushed.quiet {i : Item} {rest : List Item} (known : Hushed (i :: rest))
    (speaks : i.isMute = false) : ∀ j ∈ rest, j.isLoud = false := by
  intro j hj
  cases loud : j.isLoud with
  | false => rfl
  | true =>
    rw [List.rel_of_pairwise_cons known hj loud] at speaks
    cases speaks

/-- Work keeps an agenda hushed. -/
theorem hushed_step (known : Hushed s.agenda) (busy : s.awaitsHost = false) {i : Item}
    {rest : List Item} (top : s.agenda = i :: rest) : Hushed s.step.1.agenda := by
  have posts := step_posts busy top
  rw [top] at known posts
  have below : Hushed rest := known.of_cons
  cases mute : i.isMute with
  | false =>
    obtain ⟨items, _, takes, post, agenda⟩ := posts
    cases takes
    rw [agenda]
    exact post.hushed.append below (.inr (known.quiet mute))
  | true =>
    -- nothing comes of the item but a call of the host
    have put (items : List Item) (others : ∀ i ∈ items, i.isMute = true)
        (agenda : s.step.1.agenda = items ++ rest) : Hushed s.step.1.agenda := by
      rw [agenda]
      exact (hushed_of_mute others).append below (.inl others)
    have does := step_eq_work busy top
    cases i with
    | tell n => exact put [.telling n] (by simp [Item.isMute]) (by rw [does]; rfl)
    | telling n => simp [awaitsHost, top] at busy
    | chooseOption n id =>
      cases he : s.engine with
      | empty | script => exact put [] (by simp) (by simp [does, work, chooseOption, he])
      | host =>
        refine put [.tell (.engineSelect id)] (by simp [Item.isMute]) ?_
        simp [does, work, chooseOption, he]
    | _ => cases mute

/-- So does an answer of the host. -/
theorem hushed_answer (known : Hushed s.agenda) {x : Answer} (fits : s.accepts x = true) :
    Hushed (s.answer x).1.agenda := by
  have posts := answer_posts x fits
  cases top : s.agenda with
  | nil => simp [accepts, top] at fits
  | cons i rest =>
    rw [top] at known posts
    have below : Hushed rest := known.of_cons
    cases mute : i.isMute with
    | false =>
      obtain ⟨items, _, takes, post, agenda⟩ := posts
      cases takes
      rw [agenda]
      exact post.hushed.append below (.inr (known.quiet mute))
    | true =>
      cases i with
      | telling n =>
        cases x with
        | heard => simpa [answer, top] using below
        | _ => simp [accepts, top] at fits
      | tell | chooseOption => simp [accepts, top] at fits
      | _ => cases mute

/-- So does a request of a patient host. -/
theorem hushed_call (known : Hushed s.agenda) {c : Call} (word : s.awaitsHost = true)
    (patient : Patient s c) : Hushed (s.call c).1.agenda := by
  by_cases same : (s.call c).1.agenda = s.agenda
  · rwa [same]
  · obtain ⟨items, _, takes, post, agenda⟩ :=
      call_posts c (.call c s.agenda (callsHost_of_awaitsHost word))
    cases takes
    rw [agenda]
    exact post.hushed.append known (.inr (patient.hushed same))

theorem isDone_of_reports {e : Engine} (he : s.engine = .script e) (busy : s.awaitsHost = false)
    {rest : List Item} (top : s.agenda = .turn :: rest)
    (ends : s.reported? (.did .turn) = some .dialogueEnd) : s.step.1.IsDone := by
  rw [step_eq_work busy top]
  obtain ⟨storage, shape⟩ := turn_shape (s := { s with agenda := rest }) he
  refine ⟨_, congrArg Session.engine shape, Engine.isDone_of_turn _ ?_⟩
  simpa only [reported?, he, top, List.tail_cons] using ends

theorem Post.unfinished {d d' : Dialogue} {hs : List (ResumeHandle Continuation)}
    {items : List Item} (post : Post d hs m d' items) (goesOn : m ≠ .call .stop) :
    ∀ i ∈ items.tail, i ≠ .finish := by
  rintro i hi rfl
  rcases post.origin _ (List.mem_of_mem_tail hi) with aside | origin
  · cases aside
  · cases origin with
    | stopping => exact goesOn rfl
    | dialogueEnd r =>
      cases post with
      | dialogueEnd => simp at hi
      | aside quiet | forwarded quiet | advanced quiet => cases quiet

section

variable (known : Hush s) (r : Run allowed s₀ s h) (r' : Run allowed s₀ s' (m :: h))
  (posts : Posts s.dialogue s.handles s.agenda m s')
  (patient : ∀ c, m = .call c → Patient s c)

include known r r' patient

theorem Hush.step_hushed : Hushed s'.agenda := by
  cases r' with
  | work r' busy top =>
    obtain rfl := r.unique r'
    exact hushed_step known.hushed busy top
  | call r' word c =>
    obtain rfl := r.unique r'
    exact hushed_call known.hushed word (patient c rfl)
  | answer r' x fits =>
    obtain rfl := r.unique r'
    exact hushed_answer known.hushed fits

omit patient in
include posts in
theorem Hush.step_prompt {e : Engine} (he : s.engine = .script e) :
    ∀ i ∈ s'.agenda.tail, i ≠ .finish := by
  by_cases stops : m = .call .stop
  · subst stops
    cases r' with
    | call r' word =>
      obtain rfl := r.unique r'
      have below : ∀ i ∈ s.agenda, i ≠ .finish := by
        have takes := Takes.call .stop s.agenda (callsHost_of_awaitsHost word)
        exact takes.forall_rest (fun i calls same => by rw [same] at calls; cases calls)
          known.prompt
      cases running : s.dialogue.running with
      | false =>
        simp only [call, stop, running]
        exact fun i hi => below i (List.mem_of_mem_tail hi)
      | true =>
        simp only [call, stop, running, he, if_true]
        simpa using below
  · obtain ⟨items, rest, takes, post, agenda⟩ := posts
    have below : ∀ i ∈ rest, i ≠ .finish :=
      takes.forall_rest (fun i calls same => by rw [same] at calls; cases calls) known.prompt
    rw [agenda]
    cases items with
    | nil => exact fun i hi => below i (List.mem_of_mem_tail hi)
    | cons j items => exact List.forall_mem_append.2 ⟨post.unfinished stops, below⟩

include posts in
theorem Hush.step_ending (start : s₀.agenda = [])
    (undelivered : ∀ event, m ≠ .call (.deliver event)) {e : Engine} (he : s.engine = .script e)
    (a : e.Attentive) :
    ∀ i ∈ s'.agenda, i.isEnding = true → s'.IsDone := by
  intro i hi ends
  have done (known : s.IsDone) (works : ∃ i, m = .did i) : s'.IsDone := by
    obtain ⟨i, rfl⟩ := works
    exact (r.isDone_step r' ⟨e, he, a⟩ known nofun).1
  obtain ⟨items, rest, takes, post, agenda⟩ := id posts
  rw [agenda] at hi
  rcases List.mem_append.1 hi with hi | hi
  · rcases post.origin i hi with aside | origin
    · rw [isEnding_of_isAside aside] at ends
      cases ends
    · cases origin with
      | stopping running =>
        cases r' with
        | call r' word =>
          obtain rfl := r.unique r'
          exact ⟨e.stop.1, call_stops he running, rfl, (patient _ rfl).settled rfl e he⟩
      | dialogueEnd r => exact done (known.ending _ posts.mem_did rfl) ⟨_, rfl⟩
      | deliver event => exact absurd rfl (undelivered event)
      | report event =>
        obtain rfl : event = .dialogueEnd := by cases event <;> first | rfl | cases ends
        cases r' with
        | work r₁ busy top =>
          obtain rfl := r.unique r₁
          rcases reported?_of_hear he busy top (agenda ▸ List.mem_append_left rest hi) with
            old | told
          · exact done (known.ending _ old rfl) ⟨_, rfl⟩
          · exact isDone_of_reports he busy top told
      | _ => cases ends
  · -- what leads to the end of the dialogue is not left waiting
    have quiet : ∀ i ∈ rest, i.isEnding = false := by
      refine takes.forall_rest (fun i calls => ?_) fun i hi => ?_
      · cases i <;> first | rfl | cases calls
      · have unheard := r.prompt start i hi
        have unfinished := known.prompt i hi
        unfold Item.isEnding
        split
        · exact absurd rfl unfinished
        · cases unheard
        · rfl
    rw [quiet i hi] at ends
    cases ends

include posts in
theorem Hush.step_started (running : s'.dialogue.running = true) (v : Nat) :
    .tell (.view v .dialogueEnd) ∉ s'.agenda := by
  intro hi
  have unfinished (before : s.dialogue.running = true) (m' : m = .did .finish) : False := by
    subst m'
    obtain ⟨_, _, -, post, -⟩ := posts
    rw [(post.gives_up before).1] at running
    cases running
  have origin (origin : Origin s.dialogue s.handles m (.tell (.view v .dialogueEnd))) :
      s.dialogue.running = true ∧ m = .did .finish := by
    generalize hn : ViewNotice.dialogueEnd = notice at origin
    cases origin with
    | finish v hv before => exact ⟨before, rfl⟩
    | callNext b => cases b <;> cases hn
    | _ => cases hn
  have old : .tell (.view v .dialogueEnd) ∈ s.agenda := by
    rcases posts.origin hi with old | aside | new
    · exact old
    · cases aside
    · exact (unfinished (origin new).1 (origin new).2).elim
  obtain ⟨items, rest, takes, post, agenda⟩ := posts
  rcases post.running_cases with same | ⟨-, ⟨node, rfl⟩, work, -⟩ | ⟨before, ends, -⟩
  · exact known.started (same ▸ running) v old
  · -- a patient host does not start the dialogue before all views have been told of its end
    cases takes
    have changed : (s.call (.start node)).1.agenda ≠ s.agenda := by
      rw [← r.after_eq, ← after, r'.after_eq, r.after_eq, agenda]
      simpa using work
    cases (patient _ rfl).hushed changed _ old
  · exact unfinished before ends

end

/-- The sessions of a patient host stay hushed. -/
theorem Run.hush {e₀ : Engine} (fresh : s₀.IsFresh) (he : s₀.engine = .script e₀)
    (idle : e₀.phase = .idle)
    (undirected : ∀ {s h c}, allowed s h c → Undirected s h c) (r : Run allowed s₀ s h)
    (patient : ∀ newer c older, h = newer ++ .call c :: older → Patient (after s₀ older) c) :
    Hush s := by
  refine r.posts (motive := fun s h => (∀ newer c older, h = newer ++ .call c :: older →
    Patient (after s₀ older) c) → Hush s) ?_ ?_ patient
  · intro
    refine ⟨?_, ?_, ?_, ?_⟩
    · simp [fresh.agenda, Hushed]
    · simp [fresh.agenda]
    · simp [fresh.agenda]
    · simp [fresh.agenda]
  · intro s s' h m r r' posts known patient
    have known := known fun newer c older split => patient (m :: newer) c older (by rw [split]; rfl)
    have patient (c : Call) (hm : m = .call c) : Patient s c := by
      rw [← r.after_eq]
      exact patient [] c h (by rw [hm]; rfl)
    obtain ⟨e, he, a⟩ := r.attentive he (Engine.attentive_of_idle idle)
    refine ⟨known.step_hushed r r' patient, known.step_prompt r r' posts he, ?_,
      known.step_started r r' posts patient⟩
    refine known.step_ending r r' posts patient fresh.agenda ?_ he a
    rintro event rfl
    exact (undirected (r.allowed_of_call r')).2 event rfl

/-- The sessions of a patient host are orderly. -/
theorem Run.orderly {e₀ : Engine} (fresh : s₀.IsFresh) (he : s₀.engine = .script e₀)
    (idle : e₀.phase = .idle)
    (undirected : ∀ {s h c}, allowed s h c → Undirected s h c) (r : Run allowed s₀ s h)
    (patient : ∀ newer c older, h = newer ++ .call c :: older → Patient (after s₀ older) c) :
    ∀ newer older, h = newer ++ older → Orderly (after s₀ older) := by
  rintro newer older rfl
  obtain ⟨s', r'⟩ := r.earlier
  rw [r'.after_eq]
  refine (r'.hush fresh he idle undirected fun first c last split => ?_).orderly
    (r'.prompt fresh.agenda)
  exact patient (newer ++ first) c last (by rw [split, List.append_assoc])

end

end Session

end Prompter

import Prompter.Proofs.Session.Resumption

/-!
# Prompter.Proofs.Session.Posting

What anything that happens to a session puts on its agenda, item by item and in order.

`Post` has one constructor for each way in which the dialogue, its line, its offer or its broadcasts
can go on; everything else puts items *aside*. `Works.posts` and `Requests.posts` say so of one item
and of one request, and `Run.posts` of a run: the laws of what the views are told start from there.
-/

namespace Prompter

namespace Item

/-- Whether an item has no part in what the views are told, or in how it goes on after a line. -/
def isAside : Item → Bool
  | .tell (.view _ _) | .hear _ _ | .present _ _ | .broadcast _ _ _ | .rest _ _ _ _ _ => false
  | .resume _ | .closeLine _ | .finish | .continueEngine (.line _) => false
  | _ => true

end Item

namespace Session

/-- Whether something that happens can leave the dialogue `d` as it is. -/
def Mark.isAside (d : Dialogue) : Mark → Bool
  | .did (.hear _ (.command _)) => true
  | .did (.hear _ _) | .did (.present _ _) | .did (.broadcast _ _ _) => false
  | .did .finish => !d.running
  | _ => true

/-- The work of telling views something. -/
def tells (views : List Nat) (n : ViewNotice) : List Item :=
  views.map fun slot => .tell (.view slot n)

/-- A line moves on to a later status. -/
def Advances (d d' : Dialogue) (shown : LocalizedLine) : Prop :=
  ∃ line, d.line = some line ∧ line.status < shown.status ∧ d' = { d with line := some shown }

/-- What can become of the dialogue `d`, with the handles `hs`, and the items that are put on the
agenda. -/
inductive Post (d : Dialogue) (hs : List (ResumeHandle Continuation)) :
    Mark → Dialogue → List Item → Prop
  /-- The dialogue is not concerned. -/
  | aside {m : Mark} (quiet : m.isAside d = true) (items : List Item)
      (others : ∀ i ∈ items, i.isAside = true) : Post d hs m d items
  /-- The dialogue starts. -/
  | opened (node : Option String) (free : d.running = false) (watched : d.views ≠ []) :
      Post d hs (.call (.start node)) { d with running := true }
        (tells d.views .opened ++ [.continueEngine .start, .lease, .reply .done])
  /-- The dialogue is going to end. -/
  | stopping (running : d.running = true) (first : List Item)
      (others : ∀ i ∈ first, i.isAside = true) :
      Post d hs (.call .stop) d (first ++ [.finish, .lease, .reply .done])
  /-- The host reports an event. -/
  | deliver (event : Event) : Post d hs (.call (.deliver event)) d [.hear .host event, .lease]
  /-- The engine reports an event. -/
  | report (event : Event) : Post d hs (.did .turn) d [.hear .engine event]
  | line (r : Reporter) (line : Line) (shown : LocalizedLine) :
      Post d hs (.did (.hear r (.line line))) d [.present shown none, .conclude r .wait]
  | options (r : Reporter) (set : OptionSet) (options : List LocalizedOption) :
      Post d hs (.did (.hear r (.options set)))
        ({ d with barrier := ⟨d.barrier.generation + 1, [], none⟩ }.openOffer options)
        (tells d.views (.offerOptions options (d.offerSerial + 1)) ++ [.conclude r .wait])
  | nodeStart (r : Reporter) (node : String) :
      Post d hs (.did (.hear r (.nodeStart node))) d
        (tells d.views (.nodeStart node) ++ [.conclude r .next])
  | nodeEnd (r : Reporter) (node : String) :
      Post d hs (.did (.hear r (.nodeEnd node))) d
        (tells d.views (.nodeEnd node) ++ [.conclude r .next])
  | dialogueEnd (r : Reporter) :
      Post d hs (.did (.hear r .dialogueEnd)) d [.finish, .conclude r .next]
  /-- The dialogue ends. -/
  | finish (running : d.running = true) :
      Post d hs (.did .finish)
        { d.close with barrier := ⟨d.barrier.generation + 1, [], none⟩ }
        (tells d.views .dialogueEnd)
  | present (line shown : LocalizedLine) (offer : Option Nat) :
      Post d hs (.did (.present line offer)) (d.present line)
        [.broadcast .showing (d.lineSerial + 1) shown]
  /-- A line is broadcast to nobody. -/
  | immediate (b : LineBroadcast) (n : Nat) (line : LocalizedLine) (empty : d.views = []) :
      Post d hs (.did (.broadcast b n line))
        { d with barrier := ⟨d.barrier.generation + 1, [], none⟩ } [.resume (b.continuation n)]
  /-- A line is broadcast to the views. -/
  | waiting (b : LineBroadcast) (n : Nat) (line : LocalizedLine) (watched : d.views ≠ []) :
      Post d hs (.did (.broadcast b n line))
        { d with barrier := ⟨d.barrier.generation + 1, d.views, some (b.continuation n)⟩ }
        [.rest b n line (d.barrier.generation + 1) d.views]
  /-- The next view of a broadcast gets its token. -/
  | callNext (b : LineBroadcast) (n : Nat) (line : LocalizedLine) (v : Nat) (vs : List Nat) :
      Post d hs (.did (.rest b n line d.barrier.generation (v :: vs))) d
        [.tell (.view v (b.notice n line ⟨d.barrier.generation, v⟩)),
          .rest b n line d.barrier.generation vs]
  /-- A token is completed, and perhaps what the broadcast was for is due. -/
  | completed (t : Token) (barrier : Barrier Continuation) (k : Option Continuation)
      (same : barrier.generation = d.barrier.generation)
      (due : k = none ∧ barrier.stored = d.barrier.stored ∨
        k = d.barrier.stored ∧ barrier.stored = none) :
      Post d hs (.call (.complete t)) { d with barrier := barrier }
        (resumption k ++ [.reply .done])
  /-- A handle lets go on what waits for it. -/
  | forwarded {m : Mark} (quiet : m.isAside d = true) (x : ResumeHandle Continuation) (hx : x ∈ hs)
      (last : List Item) (others : ∀ i ∈ last, i.isAside = true) :
      Post d hs m d (.resume x.continuation :: last)
  /-- A line moves on, and may be taken away. -/
  | advanced {m : Mark} {d' : Dialogue} (quiet : m.isAside d = true) (shown : LocalizedLine)
      (advances : Advances d d' shown) (next : Option Item)
      (goesOn : ∀ i ∈ next, i = .closeLine d.lineSerial ∨
        i = .broadcast .removing d.lineSerial shown)
      (last : List Item) (others : ∀ i ∈ last, i.isAside = true) :
      Post d hs m d' (tells d.views (.lineStatus d.lineSerial shown) ++ (next.toList ++ last))
  /-- The line that is presented is gone. -/
  | gone :
      Post d hs (.did (.resume (.lineGone d.lineSerial))) { d with line := none }
        [.continueEngine (.line d.lineSerial), .lease]
  /-- An option is chosen. -/
  | chosen (o : Offer) (id : OptionId) (open_ : d.offer = some o) (next : Item)
      (goesOn : next = .continueEngine (.offer o.serial) ∨
        ∃ line, next = .present line (some o.serial)) :
      Post d hs (.call (.select o.serial id)) { d with offer := none }
        [.chooseOption o.serial id, next, .lease, .reply .done]

/-- What happens puts items on what is left of the agenda `a`. -/
structure Posts (d : Dialogue) (hs : List (ResumeHandle Continuation)) (a : List Item) (m : Mark)
    (s' : Session) : Prop where
  intro ::
  exists_items : ∃ items rest, Takes m a rest ∧ Post d hs m s'.dialogue items ∧
    s'.agenda = items ++ rest

theorem Post.lineSerial_le {d d' : Dialogue} {hs : List (ResumeHandle Continuation)} {m : Mark}
    {items : List Item} (post : Post d hs m d' items) : d.lineSerial ≤ d'.lineSerial := by
  cases post with
  | present => exact Nat.le_succ _
  | advanced quiet shown advances =>
    obtain ⟨line, -, -, rfl⟩ := advances
    exact Nat.le_refl _
  | _ => exact Nat.le_refl _

/-- A continuation is kept for the broadcast that has been begun. -/
theorem Post.stored {d d' : Dialogue} {hs : List (ResumeHandle Continuation)} {m : Mark}
    {items : List Item} (post : Post d hs m d' items) {k : Continuation}
    (hk : d'.barrier.stored = some k) :
    d.barrier.stored = some k ∨
      ∃ b n line, m = .did (.broadcast b n line) ∧ k = b.continuation n := by
  cases post with
  | waiting b n line =>
    obtain rfl : b.continuation n = k := Option.some.inj hk
    exact .inr ⟨b, n, line, rfl, rfl⟩
  | options | finish | immediate => cases hk
  | completed t barrier k' same due =>
    rcases due with ⟨-, kept⟩ | ⟨-, none⟩
    · exact .inl (kept ▸ hk)
    · rw [none] at hk
      cases hk
  | advanced quiet shown advances =>
    obtain ⟨line, -, -, rfl⟩ := advances
    exact .inl hk
  | _ => exact .inl hk

/-! ### Every operation posts -/

section

variable {d : Dialogue} {hs : List (ResumeHandle Continuation)} {a rest : List Item} {m : Mark}
  {s s' : Session}

theorem Posts.of_items (takes : Takes m a rest) (items : List Item)
    (post : Post d hs m s'.dialogue items) (agenda : s'.agenda = items ++ rest) :
    Posts d hs a m s' :=
  ⟨items, rest, takes, post, agenda⟩

theorem Posts.aside (takes : Takes m a rest) (quiet : m.isAside d = true) (items : List Item)
    (others : ∀ i ∈ items, i.isAside = true) (same : s'.dialogue = d)
    (agenda : s'.agenda = items ++ rest) : Posts d hs a m s' := by
  refine .of_items takes items ?_ agenda
  rw [same]
  exact .aside quiet items others

theorem advances_of_deliver? {d' : Dialogue} {n : Nat} {shown : LocalizedLine}
    (h : d.deliver? n = some (d', shown)) : n = d.lineSerial ∧ Advances d d' shown := by
  obtain ⟨line, hl, h⟩ := Option.bind_eq_some_iff.1 h
  obtain ⟨status, hs, h⟩ := Option.map_eq_some_iff.1 h
  obtain ⟨hn, hline⟩ := Dialogue.lineAt?_eq_some.1 hl
  cases h
  exact ⟨hn.symm, line, hline, LineStatus.lt_of_deliver? hs, rfl⟩

theorem advances_of_closeLine? {d' : Dialogue} {n : Nat} {shown : LocalizedLine}
    (h : d.closeLine? n = some (d', shown)) : n = d.lineSerial ∧ Advances d d' shown := by
  obtain ⟨line, hl, h⟩ := Option.bind_eq_some_iff.1 h
  obtain ⟨status, hs, h⟩ := Option.map_eq_some_iff.1 h
  obtain ⟨hn, hline⟩ := Dialogue.lineAt?_eq_some.1 hl
  cases h
  refine ⟨hn.symm, line, hline, ?_, rfl⟩
  unfold LineStatus.moveTo? at hs
  split at hs
  · next before =>
    cases hs
    simpa [LineStatus.isBefore] using before
  · cases hs

theorem proceed_cases (s : LineStatus) :
    s.proceed = (s, .ignored) ∨ s < s.proceed.1 ∧ s.proceed.2 ≠ .ignored := by
  cases s <;> decide

theorem advances_of_proceed? {d' : Dialogue} {shown : LocalizedLine} {effect : ProceedEffect}
    (h : d.proceed? = some (d', shown, effect)) :
    d'.lineSerial = d.lineSerial ∧ (effect = .ignored → d' = d) ∧
      (effect ≠ .ignored → Advances d d' shown) := by
  obtain ⟨line, hline, h⟩ := Option.map_eq_some_iff.1 h
  have cases := proceed_cases line.status
  rcases hp : line.status.proceed with ⟨status, effect'⟩
  rw [hp] at cases
  simp only [hp, Prod.mk.injEq] at h
  obtain ⟨rfl, rfl, rfl⟩ := h
  refine ⟨rfl, ?_⟩
  rcases cases with same | ⟨later, noted⟩
  · cases same
    refine ⟨fun _ => ?_, fun noted => absurd rfl noted⟩
    rw [← hline]
  · exact ⟨fun ignored => absurd ignored noted, fun _ => ⟨line, hline, later, rfl⟩⟩

attribute [local simp] Item.isAside Mark.isAside

variable {p : Progress}

/-! Operations that are used in several places, with items put aside below what they post. -/

theorem Chooses.posts {l : List Item} {id : OptionId} (chooses : Chooses (s.push l) id p)
    (takes : Takes m a s.agenda) (quiet : m.isAside s.dialogue = true)
    (others : ∀ i ∈ l, i.isAside = true) : Posts s.dialogue s.handles a m p.1 := by
  cases chooses with
  | nobody | script => exact .aside takes quiet l others rfl rfl
  | host =>
    exact .aside takes quiet (.tell (.engineSelect id) :: l)
      (List.forall_mem_cons.2 ⟨rfl, others⟩) rfl rfl

theorem Concludes.posts {r : Reporter} {x : NextAction} (concludes : Concludes s r x p)
    (takes : Takes m a s.agenda) (quiet : m.isAside s.dialogue = true) :
    Posts s.dialogue s.handles a m p.1 := by
  cases concludes with
  | host | nobody => exact .aside takes quiet [] (by simp) rfl rfl
  | engine => exact .aside takes quiet [.turn] (by simp) rfl rfl

theorem Unpauses.posts {l : List Item} {k : Nat} (unpauses : Unpauses (s.push l) k p)
    (takes : Takes m a s.agenda) (quiet : m.isAside s.dialogue = true)
    (others : ∀ i ∈ l, i.isAside = true) : Posts s.dialogue s.handles a m p.1 := by
  cases unpauses with
  | unknown => exact .aside takes quiet l others rfl rfl
  | @resumed x hx =>
    obtain ⟨-, -, forwarded⟩ | ⟨-, nothing⟩ := x.resume_cases
    · have owned : x ∈ s.handles := List.mem_of_getElem? hx
      exact .of_items takes _ (.forwarded quiet x owned l others)
        (by simp [forwarded, resumption])
    · exact .aside takes quiet l others rfl (by simp [nothing, resumption])

theorem Spawns.posts {l : List Item} {k : Nat} (spawns : Spawns (s.push l) k p)
    (takes : Takes m a s.agenda) (quiet : m.isAside s.dialogue = true)
    (others : ∀ i ∈ l, i.isAside = true) : Posts s.dialogue s.handles a m p.1 := by
  cases spawns with
  | spawned => exact .aside takes quiet l others rfl rfl
  | resumes _ unpauses => exact unpauses.posts takes quiet others

theorem Dispatches.posts {l : List Item} {c : Command} {k : Nat → Continuation}
    {use : OutcomeUse} (dispatches : Dispatches (s.push l) c k use p)
    (takes : Takes m a s.agenda) (quiet : m.isAside s.dialogue = true)
    (others : ∀ i ∈ l, i.isAside = true) : Posts s.dialogue s.handles a m p.1 := by
  -- whatever comes of a command is put aside, on top of what was
  have put (items : List Item) (more : ∀ i ∈ items, i.isAside = true) (s' : Session)
      (same : s'.dialogue = s.dialogue) (agenda : s'.agenda = items ++ (l ++ s.agenda)) :
      Posts s.dialogue s.handles a m s' :=
    .aside takes quiet (items ++ l) (List.forall_mem_append.2 ⟨more, others⟩) same
      (by rw [agenda, List.append_assoc])
  cases dispatches with
  | handler | pausingHandler | method | refused | unhandled | unheard =>
    exact put _ (by simp) _ rfl rfl
  | pausingMethod =>
    refine put _ ?_ _ rfl rfl
    split <;> simp

/-- Whatever comes of an item, it posts. -/
theorem Works.posts {i : Item} (works : Works s i p) :
    Posts s.dialogue s.handles (i :: s.agenda) (.did i) p.1 := by
  have takes := Takes.did i s.agenda
  cases works with
  | idle idles =>
    cases idles with
    | finish ended => exact .aside takes (by simp [ended]) [] (by simp) rfl rfl
    | _ => exact .aside takes rfl [] (by simp) rfl rfl
  | reply | outcome => exact .aside takes rfl [] (by simp) rfl rfl
  | tell | continueHost | resumeHost | stale | commandDone | afterCall =>
    exact .aside takes rfl _ (by simp) rfl rfl
  | continueScript => exact .aside takes rfl _ (by split <;> simp) rfl rfl
  | @turn e seat =>
    generalize e.turn (s.surroundings e) = turned
    obtain ⟨e', request, -⟩ := turned
    cases request with
    | again | rest | store | invoke => exact .aside takes rfl _ (by simp [requested]) rfl rfl
    | report l event =>
      cases l with
      | dialogue => exact .of_items takes _ (.report event) rfl
      | host key => exact .aside takes rfl [.ask key event] (by simp) rfl rfl
  | chooseOption n chooses => exact Chooses.posts (l := []) chooses takes rfl (by simp)
  | line r line => exact .of_items takes _ (.line r line _) rfl
  | options r set opens =>
    subst opens
    exact .of_items takes _ (.options r set _) rfl
  | command dispatches => exact Dispatches.posts (l := []) dispatches takes rfl (by simp)
  | nodeStart r node => exact .of_items takes _ (.nodeStart r node) rfl
  | nodeEnd r node => exact .of_items takes _ (.nodeEnd r node) rfl
  | dialogueEnd r => exact .of_items takes _ (.dialogueEnd r) rfl
  | conclude concludes | outcomeOf k concludes => exact concludes.posts takes rfl
  | present line offer => exact .of_items takes _ (.present line _ offer) rfl
  | immediate b n line empty => exact .of_items takes _ (.immediate b n line empty) rfl
  | waiting b n line watched => exact .of_items takes _ (.waiting b n line watched) rfl
  | callNext b n line v vs => exact .of_items takes _ (.callNext b n line v vs) rfl
  | @lineShown n here d shown delivers =>
    obtain ⟨rfl, advances⟩ := advances_of_deliver? delivers
    refine .of_items takes _ (.advanced rfl shown advances
      (if d.settings.autoAdvance then some (.closeLine s.dialogue.lineSerial) else none) ?_
      [.lease] (by simp)) ?_
    · split <;> simp
    · obtain ⟨line, -, -, rfl⟩ := advances
      split <;> simp [tellViews, tells, Dialogue.views]
  | lineGone here dismisses =>
    obtain ⟨rfl, rfl⟩ := Dialogue.dismiss?_eq_some dismisses
    exact .of_items takes _ .gone rfl
  | @closeLine n d shown closes =>
    obtain ⟨rfl, advances⟩ := advances_of_closeLine? closes
    exact .of_items takes _ (.advanced rfl shown advances
      (some (.broadcast .removing s.dialogue.lineSerial shown)) (by simp) [] (by simp)) rfl
  | finish running => exact .of_items takes _ (.finish running) rfl
  | resumeWhenDone spawns => exact Spawns.posts (l := []) spawns takes rfl (by simp)

/-- Whatever comes of a request, it posts. -/
theorem Requests.posts {c : Call} (requests : Requests s c p)
    (takes : Takes (.call c) a s.agenda) : Posts s.dialogue s.handles a (.call c) p.1 := by
  cases requests with
  | declined | place | stopEngine | bind | attach | detach | release | register | unregister
  | listen | addFunction | removeFunction | setVariable | clearVariables | resolveWith =>
    exact .aside takes rfl [] (by simp) rfl rfl
  | function | continueEngine => exact .aside takes rfl _ (by simp) rfl rfl
  | @start node name named can =>
    obtain ⟨watched, -, free, -⟩ := Dialogue.startError?_eq_none.1 can
    exact .of_items takes _ (.opened node free watched) rfl
  | stopEmpty running | stopScript running =>
    exact .of_items takes _ (.stopping running [] (by simp)) rfl
  | stopHost running =>
    exact .of_items takes _ (.stopping running [.tell .engineStop] (by simp)) rfl
  | @interrupt d shown proceeds =>
    obtain ⟨serial, -, advances⟩ := advances_of_proceed? proceeds
    refine .of_items takes _ (.advanced rfl shown (advances nofun) none (by simp)
      [.lease, .reply .done] (by simp)) ?_
    simp [tellViews, tells, serial]
  | @dismiss d shown proceeds =>
    obtain ⟨serial, -, advances⟩ := advances_of_proceed? proceeds
    refine .of_items takes _ (.advanced rfl shown (advances nofun)
      (some (.broadcast .removing s.dialogue.lineSerial shown)) (by simp)
      [.lease, .reply .done] (by simp)) ?_
    simp [dismissal, tellViews, tells, serial]
  | deliver event => exact .of_items takes _ (.deliver event) rfl
  | @select n id here d o chooses =>
    obtain ⟨offer, ho, rfl, -, -, rfl⟩ := Dialogue.choose_eq_ok.1 chooses
    refine .of_items takes _ (.chosen offer id ho _ ?_) rfl
    split
    · exact .inr ⟨o.line, rfl⟩
    · exact .inl rfl
  | @complete t here barrier k rs completes =>
    have cases := s.dialogue.barrier.complete_cases t
    rw [completes] at cases
    refine .of_items takes (resumption k ++ [.reply .done]) (.completed t barrier k ?_ ?_) rfl
    · obtain ⟨-, rfl, -⟩ | ⟨-, -, rfl, -⟩ | ⟨-, -, rfl, -⟩ := cases <;> rfl
    · obtain ⟨-, rfl, rfl⟩ | ⟨-, -, rfl, rfl⟩ | ⟨-, -, rfl, rfl⟩ := cases
      · exact .inl ⟨rfl, rfl⟩
      · exact .inl ⟨rfl, rfl⟩
      · exact .inr ⟨rfl, rfl⟩
  | resume unpauses => exact unpauses.posts takes rfl (by simp)
  | resumeWhenDone spawns => exact spawns.posts takes rfl (by simp)
  | dispatch dispatches => exact dispatches.posts takes rfl (by simp)
  | chooseOption chooses => exact chooses.posts takes rfl (by simp)

theorem call_posts (c : Call) (takes : Takes (.call c) a s.agenda) :
    Posts s.dialogue s.handles a (.call c) (s.call c).1 :=
  (call_requests s c).posts takes

theorem answer_posts (x : Answer) (fits : s.accepts x = true) :
    Posts s.dialogue s.handles s.agenda (.answer x) (s.answer x).1 := by
  have answered := answered_of_accepts fits
  generalize (s.answer x).1 = s' at answered ⊢
  cases answered with
  | heard n rest top =>
    rw [top]
    exact .aside (.answer _ (.telling n) rest rfl) rfl [] (by simp) rfl rfl
  | action key event rest x top =>
    rw [top]
    exact (conclude_concludes { s with agenda := rest } .engine x).posts
      (.answer _ (.ask key event) rest rfl) rfl
  | received key args rest v top =>
    rw [top]
    unfold mapEngine
    split <;>
      exact .aside (.answer _ (.invoke key args .engine) rest rfl) rfl [.turn] (by simp) rfl rfl
  | replied key args rest v top =>
    rw [top]
    exact .aside (.answer _ (.invoke key args .host) rest rfl) rfl [] (by simp) rfl rfl

end

variable {allowed : Session → History → Call → Prop} {s₀ s : Session} {h : History}

theorem step_posts (busy : s.awaitsHost = false) {i : Item} {rest : List Item}
    (top : s.agenda = i :: rest) : Posts s.dialogue s.handles s.agenda (.did i) s.step.1 := by
  rw [step_eq_work busy top, top]
  exact (work_works { s with agenda := rest } i).posts

/-- In a run of a session everything that happens posts. -/
theorem Run.posts {motive : Session → History → Prop} (start : motive s₀ [])
    (post : ∀ {s s' : Session} {h : History} {m : Mark}, Run allowed s₀ s h →
      Run allowed s₀ s' (m :: h) → Posts s.dialogue s.handles s.agenda m s' → motive s h →
      motive s' (m :: h))
    (r : Run allowed s₀ s h) : motive s h := by
  induction r with
  | refl => exact start
  | work r busy top ih => exact post r (r.work busy top) (step_posts busy top) ih
  | call r word c ok ih =>
    exact post r (r.call word c ok) (call_posts c (.call c _ (callsHost_of_awaitsHost word))) ih
  | answer r x fits ih => exact post r (r.answer x fits) (answer_posts x fits) ih

end Session

end Prompter

import Prompter.Proofs.Session.Request

/-!
# Prompter.Proofs.Session.Ledger

What anything that happens to a session can do to its dialogue, its handles and its agenda.

`Move` lists the possibilities, one constructor for each kind of change of the books. Most of what
a session does changes none of them: it puts *plain* items on the agenda, such that no line, offer,
command or token is at stake in them. `Works.move` and `Requests.move` say so of one item and of one
request, and `Run.moves` of a run: the laws of resumption start from there.
-/

namespace Prompter

namespace Item

/-- Whether no line, offer, command or token is at stake in an item. -/
def isPlain : Item → Bool
  | .tell (.view _ (.showLine _ _ _)) | .tell (.view _ (.removeLine _ _ _)) => false
  | .continueEngine (.line _) | .continueEngine (.offer _) | .continueEngine (.command _) => false
  | .chooseOption _ _ | .present _ (some _) => false
  | .broadcast _ _ _ | .rest _ _ _ _ _ | .resume _ => false
  | .afterCall _ _ _ | .outcome (some _) _ _ => false
  | _ => true

end Item

namespace Session

/-! ### The agenda -/

/-- What is left of an agenda when something happens, before it puts new items on top. -/
inductive Takes : Mark → List Item → List Item → Prop
  | did (i : Item) (a : List Item) : Takes (.did i) (i :: a) a
  | call (c : Call) (a : List Item) (word : ∀ i ∈ a.head?, i.callsHost = true) :
      Takes (.call c) a a
  | answer (x : Answer) (i : Item) (a : List Item) (called : i.callsHost = true) :
      Takes (.answer x) (i :: a) a

theorem filter_of_plain {items : List Item} (hp : ∀ i ∈ items, i.isPlain = true) :
    items.filter (!·.isPlain) = [] := by
  rw [List.filter_eq_nil_iff]
  intro i hi
  simp [hp i hi]

/-- Apart from plain items, the special ones are put on top of an agenda. -/
def Puts (special a a' : List Item) : Prop :=
  ∃ items, items.filter (!·.isPlain) = special ∧ a' = items ++ a

namespace Puts

variable {special a a' : List Item}

/-- Items that are all plain are put on top. -/
theorem plain {items : List Item} (hp : ∀ i ∈ items, i.isPlain = true) (a : List Item) :
    Puts [] a (items ++ a) := ⟨items, filter_of_plain hp, rfl⟩

/-- An item that is not plain is a special one, or was on the agenda before. -/
theorem mem_iff (p : Puts special a a') {i : Item} (hi : i.isPlain = false) :
    i ∈ a' ↔ i ∈ special ∨ i ∈ a := by
  obtain ⟨items, rfl, rfl⟩ := p
  simp [hi]

end Puts

attribute [local simp] Item.isPlain

/-! ### Moves -/

/-- What the laws of resumption see of a session. -/
structure Ledger where
  dialogue : Dialogue
  handles : List (ResumeHandle Continuation)
  agenda : List Item

/-- The ledger of a session. -/
def ledger (s : Session) : Ledger := ⟨s.dialogue, s.handles, s.agenda⟩

theorem filter_resumption (k : Option Continuation) {last : List Item}
    (hl : ∀ i ∈ last, i.isPlain = true) :
    (resumption k ++ last).filter (!·.isPlain) = resumption k := by
  rw [List.filter_append, filter_of_plain hl, List.append_nil]
  cases k <;> rfl

/-- What can become of the dialogue `d` and the handles `hs`, and the items that are not plain among
those that are put on the agenda. -/
inductive Change (d : Dialogue) (hs : List (ResumeHandle Continuation)) :
    Mark → Dialogue → List (ResumeHandle Continuation) → List Item → Prop
  /-- Nothing is at stake. -/
  | plain {m : Mark} (quiet : m.presents = false) : Change d hs m d hs []
  /-- The dialogue starts. -/
  | opened (node : Option String) :
      Change d hs (.call (.start node)) { d with running := true } hs []
  /-- A line is presented. -/
  | present (line shown : LocalizedLine) (offer : Option Nat) :
      Change d hs (.did (.present line offer)) (d.present line) hs
        [.broadcast .showing (d.lineSerial + 1) shown]
  /-- A line is broadcast to nobody. -/
  | immediate (b : LineBroadcast) (n : Nat) (line : LocalizedLine) (empty : d.views = []) :
      Change d hs (.did (.broadcast b n line))
        { d with barrier := ⟨d.barrier.generation + 1, [], none⟩ } hs
        [.resume (b.continuation n)]
  /-- A line is broadcast to the views. -/
  | waiting (b : LineBroadcast) (n : Nat) (line : LocalizedLine) :
      Change d hs (.did (.broadcast b n line))
        { d with barrier := ⟨d.barrier.generation + 1, d.views, some (b.continuation n)⟩ } hs
        [.rest b n line (d.barrier.generation + 1) d.views]
  /-- The next view of a broadcast gets its token. -/
  | callNext (b : LineBroadcast) (n : Nat) (line : LocalizedLine) (v : Nat) (vs : List Nat) :
      Change d hs (.did (.rest b n line d.barrier.generation (v :: vs))) d hs
        [.tell (.view v (b.notice n line ⟨d.barrier.generation, v⟩)),
          .rest b n line d.barrier.generation vs]
  /-- Every view has shown the line. -/
  | lineShown (line : LocalizedLine) (hl : d.line = some line) (ongoing : line.status ≠ .ended) :
      Change d hs (.did (.resume (.lineShown d.lineSerial)))
        { d with line := some { line with status := .delivered } } hs []
  /-- The line ends, by itself or because the player wants to go on. -/
  | dismiss {m : Mark} (quiet : m.presents = false) (line shown : LocalizedLine)
      (hl : d.line = some line) (ongoing : line.status ≠ .ended) :
      Change d hs m { d with line := some { line with status := .ended } } hs
        [.broadcast .removing d.lineSerial shown]
  /-- The player is in a hurry. -/
  | interrupt (line : LocalizedLine) (hl : d.line = some line) (running : line.status = .running) :
      Change d hs (.call .proceed)
        { d with line := some { line with status := .interrupted } } hs []
  /-- Every view has taken the line away. -/
  | lineGone :
      Change d hs (.did (.resume (.lineGone d.lineSerial))) { d with line := none } hs
        [.continueEngine (.line d.lineSerial)]
  /-- The dialogue ends. -/
  | finish :
      Change d hs (.did .finish)
        { d.close with barrier := ⟨d.barrier.generation + 1, [], none⟩ } hs []
  /-- Options are offered. -/
  | offer (r : Reporter) (set : OptionSet) (options : List LocalizedOption) :
      Change d hs (.did (.hear r (.options set)))
        ({ d with barrier := ⟨d.barrier.generation + 1, [], none⟩ }.openOffer options) hs []
  /-- An option is chosen, and the engine goes on. -/
  | choose (o : Offer) (id : OptionId) (ho : d.offer = some o) :
      Change d hs (.call (.select o.serial id)) { d with offer := none } hs
        [.chooseOption o.serial id, .continueEngine (.offer o.serial)]
  /-- An option is chosen, and presented as a line. -/
  | echo (o : Offer) (id : OptionId) (line : LocalizedLine) (ho : d.offer = some o) :
      Change d hs (.call (.select o.serial id)) { d with offer := none } hs
        [.chooseOption o.serial id, .present line (some o.serial)]
  /-- A token is completed, and others are still owed. -/
  | owed (t : Token) (hg : t.generation = d.barrier.generation) :
      Change d hs (.call (.complete t))
        { d with barrier := { d.barrier with pending := d.barrier.pending.erase t.slot } } hs []
  /-- The last token is completed. -/
  | last (t : Token) (hg : t.generation = d.barrier.generation)
      (ht : d.barrier.pending = [t.slot]) :
      Change d hs (.call (.complete t))
        { d with barrier := { d.barrier with pending := [], stored := none } } hs
        (resumption d.barrier.stored)
  /-- A handle is used. -/
  | resumed {m : Mark} (quiet : m.presents = false) (k : Nat) (x : ResumeHandle Continuation)
      (hx : hs[k]? = some x) :
      Change d hs m d (hs.set k x.resume.1) (resumption x.resume.2.1)
  /-- A command lets the engine go on. -/
  | commandDone (k : Nat) :
      Change d hs (.did (.resume (.commandDone k))) d hs [.continueEngine (.command k)]
  /-- A command that may pause gets a handle. -/
  | newHandle {m : Mark} (quiet : m.presents = false) (name : String) (k : Continuation)
      (use : OutcomeUse) (own : k = .commandDone hs.length ∨ use = .reply ∧ ∃ key, k = .host key) :
      Change d hs m d (hs ++ [.fresh name k]) [.afterCall name hs.length use]
  /-- A command that may pause has returned. -/
  | armed (name : String) (k : Nat) (use : OutcomeUse) (x : ResumeHandle Continuation)
      (hx : hs[k]? = some x) :
      Change d hs (.did (.afterCall name k use)) d (hs.set k x.arm.1)
        [.outcome (some k) (if x.arm.2 then .pause else .done) use]

/-- What can become of a ledger when something happens. A request to the engine on behalf of a line
is the very next thing to be done. -/
inductive Move (l : Ledger) (m : Mark) (l' : Ledger) : Prop
  | intro (rest special : List Item) (takes : Takes m l.agenda rest)
      (change : Change l.dialogue l.handles m l'.dialogue l'.handles special)
      (puts : Puts special rest l'.agenda)
      (prompt : ∀ n, .continueEngine (.line n) ∈ special →
        l'.agenda.head? = some (.continueEngine (.line n)))

namespace Move

variable {l l' : Ledger} {m : Mark} {rest : List Item}

/-- A move by the items that it puts on the agenda. -/
theorem of_items (takes : Takes m l.agenda rest) (items : List Item)
    (change : Change l.dialogue l.handles m l'.dialogue l'.handles
      (items.filter (!·.isPlain)))
    (ha : l'.agenda = items ++ rest)
    (prompt : ∀ n, .continueEngine (.line n) ∉ items) : Move l m l' := by
  refine ⟨rest, _, takes, change, ⟨items, rfl, ha⟩, fun n hn => ?_⟩
  exact absurd (List.mem_filter.1 hn).1 (prompt n)

/-- A move that leaves the books alone. -/
theorem of_plain (takes : Takes m l.agenda rest) (quiet : m.presents = false) (items : List Item)
    (hp : ∀ i ∈ items, i.isPlain = true) (hd : l'.dialogue = l.dialogue)
    (hh : l'.handles = l.handles) (ha : l'.agenda = items ++ rest) : Move l m l' := by
  refine .of_items takes items ?_ ha fun n hn => ?_
  · rw [filter_of_plain hp, hd, hh]
    exact .plain quiet
  · exact absurd (hp _ hn) (by simp)

end Move

/-! ### Every operation is a move -/

/-- The ledger of a session that is about to do an item. -/
def ledgerBefore (s : Session) (i : Item) : Ledger := ⟨s.dialogue, s.handles, i :: s.agenda⟩

/-- A line is taken away by a broadcast, after all views were told its status. -/
theorem puts_dismissal (s : Session) (line : LocalizedLine) (n : Nat) (last : List Item)
    (hl : ∀ i ∈ last, i.isPlain = true) (a : List Item) :
    Puts [.broadcast .removing n line] a (s.dismissal line n ++ last ++ a) := by
  refine ⟨_, ?_, rfl⟩
  rw [dismissal, List.filter_append, List.filter_append,
    filter_of_plain (forall_mem_tellViews fun _ => rfl), filter_of_plain hl]
  rfl

theorem plain_requested (request : Engine.Request) :
    ∀ i ∈ requested request, i.isPlain = true := by
  unfold requested
  split <;> simp

section

variable {s : Session} {m : Mark} {a l : List Item} {p : Progress} {i : Item} {c : Call}

/-! Operations that are used in several places, with plain items below what they put on the
agenda. -/

theorem Chooses.move {id : OptionId} (chooses : Chooses (s.push l) id p)
    (takes : Takes m a s.agenda) (quiet : m.presents = false) (hl : ∀ i ∈ l, i.isPlain = true) :
    Move ⟨s.dialogue, s.handles, a⟩ m p.1.ledger := by
  cases chooses with
  | nobody | script => exact .of_plain takes quiet l hl rfl rfl rfl
  | host =>
    exact .of_plain takes quiet (.tell (.engineSelect id) :: l)
      (List.forall_mem_cons.2 ⟨rfl, hl⟩) rfl rfl rfl

theorem Concludes.move {r : Reporter} {x : NextAction} (concludes : Concludes s r x p)
    (takes : Takes m a s.agenda) (quiet : m.presents = false) :
    Move ⟨s.dialogue, s.handles, a⟩ m p.1.ledger := by
  cases concludes with
  | host | nobody => exact .of_plain takes quiet [] (by simp) rfl rfl rfl
  | engine => exact .of_plain takes quiet [.turn] (by simp) rfl rfl rfl

theorem Unpauses.move {k : Nat} (unpauses : Unpauses (s.push l) k p) (takes : Takes m a s.agenda)
    (quiet : m.presents = false) (hl : ∀ i ∈ l, i.isPlain = true) :
    Move ⟨s.dialogue, s.handles, a⟩ m p.1.ledger := by
  cases unpauses with
  | unknown => exact .of_plain takes quiet l hl rfl rfl rfl
  | @resumed x hx =>
    refine ⟨_, _, takes, .resumed quiet k x hx, ?_, by simp [resumption]⟩
    exact ⟨resumption x.resume.2.1 ++ l, filter_resumption _ hl, by simp [ledger]⟩

theorem Spawns.move {k : Nat} (spawns : Spawns (s.push l) k p) (takes : Takes m a s.agenda)
    (quiet : m.presents = false) (hl : ∀ i ∈ l, i.isPlain = true) :
    Move ⟨s.dialogue, s.handles, a⟩ m p.1.ledger := by
  cases spawns with
  | spawned => exact .of_plain takes quiet l hl rfl rfl rfl
  | resumes _ unpauses => exact unpauses.move takes quiet hl

theorem Dispatches.move {command : Command} {k : Nat → Continuation} {use : OutcomeUse}
    (dispatches : Dispatches (s.push l) command k use p) (takes : Takes m a s.agenda)
    (quiet : m.presents = false) (hl : ∀ i ∈ l, i.isPlain = true)
    (hk : ∀ n, k n = .commandDone n ∨ use = .reply ∧ ∃ key, k n = .host key) :
    Move ⟨s.dialogue, s.handles, a⟩ m p.1.ledger := by
  -- a command that may pause: what is called, and perhaps a task, comes before the look at it
  have pausing (name : String) (items : List Item) (hp : ∀ i ∈ items, i.isPlain = true)
      (s' : Session) (hd : s'.dialogue = s.dialogue)
      (hh : s'.handles = s.handles ++ [.fresh name (k s.handles.length)])
      (ha : s'.agenda = items ++ .afterCall name s.handles.length use :: (l ++ s.agenda)) :
      Move ⟨s.dialogue, s.handles, a⟩ m s'.ledger := by
    refine .intro s.agenda [.afterCall name s.handles.length use] takes ?_
      ⟨items ++ .afterCall name s.handles.length use :: l, ?_, by simp [ledger, ha]⟩ (by simp)
    · simp only [ledger, hd, hh]
      exact .newHandle quiet name _ use (hk _)
    · rw [List.filter_append, filter_of_plain hp, List.filter_cons_of_pos rfl, filter_of_plain hl]
      rfl
  -- any other one leaves its outcome
  have simple (items : List Item) (hp : ∀ i ∈ items, i.isPlain = true) :
      Move ⟨s.dialogue, s.handles, a⟩ m ((s.push l).push items).ledger := by
    refine .of_plain takes quiet (items ++ l) ?_ rfl rfl (by simp [ledger])
    exact List.forall_mem_append.2 ⟨hp, hl⟩
  cases dispatches with
  | handler | method | refused | unhandled | unheard => exact simple _ (by simp)
  | @pausingHandler name h args => exact pausing name [.tell _] (by simp) _ rfl rfl rfl
  | @pausingMethod x target args =>
    refine pausing x.name (.tell (.method x target args (some s.handles.length)) ::
      if x.kind = .task then [.resumeWhenDone s.handles.length] else []) ?_ _ rfl rfl (by simp)
    rw [List.forall_mem_cons]
    refine ⟨rfl, ?_⟩
    split <;> simp

/-- Whatever comes of an item, the books move. -/
theorem Works.move (works : Works s i p) : Move (s.ledgerBefore i) (.did i) p.1.ledger := by
  have takes := Takes.did i s.agenda
  cases works with
  | idle idles => cases idles <;> exact .of_plain takes rfl [] (by simp) rfl rfl rfl
  | reply | outcome => exact .of_plain takes rfl [] (by simp) rfl rfl rfl
  | tell | continueHost | line | dialogueEnd | resumeHost =>
    exact .of_plain takes rfl _ (by simp) rfl rfl rfl
  | turn => exact .of_plain takes rfl _ (plain_requested _) rfl rfl rfl
  | continueScript => exact .of_plain takes rfl _ (by split <;> simp) rfl rfl rfl
  | chooseOption n chooses => exact Chooses.move (l := []) chooses takes rfl (by simp)
  | options r set opens =>
    subst opens
    refine ⟨_, [], takes, .offer r set _, .plain ?_ s.agenda, by simp⟩
    exact forall_mem_tellViews_append (fun _ => rfl) (by simp)
  | command dispatches =>
    exact Dispatches.move (l := []) dispatches takes rfl (by simp) fun _ => .inl rfl
  | nodeStart | nodeEnd =>
    refine .of_plain takes rfl _ ?_ rfl rfl rfl
    exact forall_mem_tellViews_append (fun _ => rfl) (by simp)
  | conclude concludes | outcomeOf k concludes => exact concludes.move takes rfl
  | present line offer => exact .of_items takes [_] (.present line _ offer) rfl (by simp)
  | immediate b n line empty =>
    exact .of_items takes [.resume (b.continuation n)] (.immediate b n line empty) rfl (by simp)
  | waiting b n line => exact .of_items takes [_] (.waiting b n line) rfl (by simp)
  | callNext b n line v vs =>
    refine .of_items takes [_, _] ?_ rfl (by simp)
    cases b <;> exact .callNext _ n line v vs
  | stale => exact .of_plain takes rfl [.lease] (by simp) rfl rfl rfl
  | lineShown here delivers =>
    obtain ⟨rfl, line, hl, ongoing, rfl⟩ := Dialogue.deliver?_eq_some delivers
    refine ⟨_, [], takes, .lineShown line hl ongoing, ?_, by simp⟩
    simp only [ledger, push_agenda, withDialogue_agenda, ← List.append_assoc]
    refine .plain ?_ s.agenda
    simp only [List.forall_mem_append]
    refine ⟨⟨forall_mem_tellViews fun _ => rfl, ?_⟩, by simp⟩
    split <;> simp
  | lineGone here dismisses =>
    obtain ⟨rfl, rfl⟩ := Dialogue.dismiss?_eq_some dismisses
    refine ⟨_, _, takes, .lineGone,
      ⟨[.continueEngine (.line s.dialogue.lineSerial), .lease], rfl, rfl⟩, fun n hn => ?_⟩
    rw [List.mem_singleton.1 hn]
    rfl
  | commandDone k => exact .of_items takes [_, _] (.commandDone k) rfl (by simp)
  | @closeLine n d shown closes =>
    obtain ⟨rfl, line, hl, ongoing, rfl⟩ := Dialogue.closeLine?_eq_some closes
    refine ⟨_, _, takes, .dismiss rfl line shown hl ongoing, ?_, by simp⟩
    have puts := s.puts_dismissal shown s.dialogue.lineSerial [] (by simp) s.agenda
    rwa [List.append_nil] at puts
  | finish =>
    exact ⟨_, [], takes, .finish, .plain (forall_mem_tellViews fun _ => rfl) s.agenda, by simp⟩
  | @afterCall name k use x hx =>
    exact .of_items takes [.outcome (some k) _ use] (.armed name k use x hx) rfl (by simp)
  | resumeWhenDone spawns => exact Spawns.move (l := []) spawns takes rfl (by simp)

theorem mapEngine_ledger (f : Engine → Engine) : (s.mapEngine f).ledger = s.ledger := by
  unfold mapEngine
  split <;> rfl

/-- Whatever comes of a request, the books move. -/
theorem Requests.move (requests : Requests s c p) (takes : Takes (.call c) a s.agenda) :
    Move ⟨s.dialogue, s.handles, a⟩ (.call c) p.1.ledger := by
  cases requests with
  | declined | place | stopEngine | bind | attach | detach | release | register | unregister
  | listen | addFunction | removeFunction | setVariable | clearVariables | resolveWith =>
    exact .of_plain takes rfl [] (by simp) rfl rfl rfl
  | stopEmpty | stopScript | stopHost | deliver | function | continueEngine =>
    exact .of_plain takes rfl _ (by simp) rfl rfl rfl
  | start =>
    refine .intro s.agenda [] takes (.opened _) ⟨_, filter_of_plain ?_, rfl⟩ (by simp)
    exact forall_mem_tellViews_append (fun _ => rfl) (by simp)
  | interrupt proceeds =>
    obtain ⟨hn, line, hl, interrupt, -, -⟩ := Dialogue.proceed?_eq_some proceeds
    obtain ⟨running, rfl⟩ := interrupt rfl
    refine ⟨_, [], takes, .interrupt line hl running, .plain ?_ s.agenda, by simp⟩
    exact forall_mem_tellViews_append (fun _ => rfl) (by simp)
  | @dismiss d shown proceeds =>
    obtain ⟨hn, line, hl, -, dismiss, -⟩ := Dialogue.proceed?_eq_some proceeds
    obtain ⟨ongoing, rfl⟩ := dismiss rfl
    refine ⟨_, _, takes, .dismiss rfl line shown hl ongoing, ?_, by simp⟩
    exact s.puts_dismissal shown _ [.lease, .reply .done] (by simp) s.agenda
  | @select n id here d o chooses =>
    obtain ⟨offer, ho, rfl, -, -, rfl⟩ := Dialogue.choose_eq_ok.1 chooses
    refine .of_items takes [.chooseOption offer.serial id, _, .lease, .reply .done] ?_ rfl ?_
    · split
      · exact .echo offer id o.line ho
      · exact .choose offer id ho
    · split <;> simp
  | @complete t here barrier k rs completes =>
    have cases := s.dialogue.barrier.complete_cases t
    rw [completes] at cases
    obtain ⟨-, rfl, rfl⟩ | ⟨⟨hg, -⟩, -, rfl, rfl⟩ | ⟨⟨hg, ht⟩, he, rfl, rfl⟩ := cases
    · exact .of_plain takes rfl [.reply .done] (by simp) rfl rfl rfl
    · exact .of_items takes [.reply .done] (.owed t hg) rfl (by simp)
    · -- the token was the only one that was owed
      have hp : s.dialogue.barrier.pending = [t.slot] := by
        have hp := List.perm_cons_erase ht
        rw [he] at hp
        exact List.perm_singleton.1 hp
      let special := resumption s.dialogue.barrier.stored
      exact .intro s.agenda special takes (.last t hg hp) ⟨special ++ [.reply .done],
        filter_resumption _ (by simp), rfl⟩ (by simp [special, resumption])
  | resume unpauses => exact unpauses.move takes rfl (by simp)
  | resumeWhenDone spawns => exact spawns.move takes rfl (by simp)
  | @dispatch command key p dispatches =>
    exact dispatches.move takes rfl (by simp) fun _ => .inr ⟨rfl, key, rfl⟩
  | chooseOption chooses => exact chooses.move takes rfl (by simp)

/-- Whatever the host answers a session, its books move. -/
theorem answer_move (x : Answer) (fits : s.accepts x = true) :
    Move s.ledger (.answer x) (s.answer x).1.ledger := by
  have hl {i : Item} {rest : List Item} (ha : s.agenda = i :: rest) :
      s.ledger = ⟨s.dialogue, s.handles, i :: rest⟩ := by rw [ledger, ha]
  have answered := answered_of_accepts fits
  generalize (s.answer x).1 = s' at answered ⊢
  cases answered with
  | heard n rest top =>
    -- the host returns, and nothing else happens
    rw [hl top]
    exact .of_plain (.answer _ (.telling n) rest rfl) rfl [] (by simp) rfl rfl rfl
  | action key event rest x top =>
    rw [hl top]
    exact (conclude_concludes { s with agenda := rest } .engine x).move
      (.answer _ (.ask key event) rest rfl) rfl
  | received key args rest v top =>
    rw [hl top, mapEngine_ledger]
    exact .of_plain (.answer _ (.invoke key args .engine) rest rfl) rfl [.turn]
      (by simp) rfl rfl rfl
  | replied key args rest v top =>
    rw [hl top]
    exact .of_plain (.answer _ (.invoke key args .host) rest rfl) rfl [] (by simp) rfl rfl rfl

end

variable {allowed : Session → History → Call → Prop} {s₀ s : Session} {h : History}

/-- While the host has the word, the agenda begins with a call to it, if with anything. -/
theorem callsHost_of_awaitsHost (word : s.awaitsHost = true) :
    ∀ i ∈ s.agenda.head?, i.callsHost = true := by
  intro i hi
  obtain ⟨rest, ha⟩ : ∃ rest, s.agenda = i :: rest := by
    cases ha : s.agenda with
    | nil => simp [ha] at hi
    | cons j rest => exact ⟨rest, by simpa [ha] using hi⟩
  unfold awaitsHost at word
  cases i <;> simp [ha] at word <;> rfl

theorem step_eq_work (busy : s.awaitsHost = false) {i : Item} {rest : List Item}
    (top : s.agenda = i :: rest) : s.step = { s with agenda := rest }.work i := by
  simp [step, busy, top]

/-- In a run of a session its books only make moves. -/
theorem Run.moves {motive : Ledger → History → Prop} (start : motive s₀.ledger [])
    (move : ∀ {s : Session} {h : History} {m : Mark} {l : Ledger}, Run allowed s₀ s h →
      Move s.ledger m l → (∀ c, m = .call c → allowed s h c) → motive s.ledger h →
      motive l (m :: h))
    (r : Run allowed s₀ s h) : motive s.ledger h := by
  induction r with
  | refl => exact start
  | @work s h r busy i rest top ih =>
    refine move r ?_ (fun c hc => by cases hc) ih
    rw [step_eq_work busy top, ledger, top]
    exact (work_works { s with agenda := rest } i).move
  | call r word c ok ih =>
    refine move r ?_ (fun c' hc => by cases hc; exact ok) ih
    exact (call_requests _ c).move (.call c _ (callsHost_of_awaitsHost word))
  | answer r x fits ih =>
    exact move r (answer_move x fits) (fun c hc => by cases hc) ih

end Session

end Prompter

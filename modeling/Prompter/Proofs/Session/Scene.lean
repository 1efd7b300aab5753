import Prompter.Proofs.Session.Play

/-!
# Prompter.Proofs.Session.Scene

How an event of the engine is presented, step by step.

Between two events the dialogue is in one scene after another: it hears the event, offers options
and waits for a choice, or broadcasts a line twice and waits for the views each time. A `Scene` says
what is on the agenda for that, what the books and the barrier say, and what each view is still to
be asked. There is a lemma for each item that takes a scene further; whatever else happens leaves
it as it is.
-/

namespace Prompter

/-- Whether an item is a part of presenting an event. -/
def Item.isScenic : Item → Bool
  | .hear _ _ | .chooseOption _ _ | .present _ _ | .broadcast _ _ _ | .closeLine _ | .finish => true
  | .rest _ _ _ _ (_ :: _) => true
  | .resume (.lineShown _) | .resume (.lineGone _) => true
  | .tell (.view _ (.showLine _ _ _)) | .tell (.view _ (.removeLine _ _ _)) => true
  | _ => false

namespace Session

/-- What is on an agenda for the event that is being presented. -/
def scenic (a : List Item) : List Item := a.filter Item.isScenic

/-- What is left to be done of a broadcast. -/
def uncalled (b : LineBroadcast) (serial : Nat) (line : LocalizedLine) (generation : Nat) :
    List Nat → List Item
  | [] => []
  | slots => [.rest b serial line generation slots]

/-- Nothing is presented, and nobody owes anything. -/
structure Rests (d : Dialogue) : Prop where
  line : d.line = none
  offer : d.offer = none
  settled : d.barrier.pending = []

/-- A line is presented with a status. -/
structure Shows (d : Dialogue) (l : LocalizedLine) (status : LineStatus) : Prop where
  line : d.line = some { l with status := status }
  offer : d.offer = none

/-- A broadcast waits for the views that are pending. Those in `slots` have not been given their
tokens yet. -/
structure Owes (d : Dialogue) (h : History) (b : LineBroadcast) (slots : List Nat) : Prop where
  stored : d.barrier.stored = some (b.continuation d.lineSerial)
  pending : d.barrier.pending ≠ []
  nodup : d.barrier.pending.Nodup
  distinct : slots.Nodup
  among : ∀ v ∈ slots, v ∈ d.barrier.pending
  told : ∀ v ∈ d.barrier.pending, v ∉ slots → Told b d.lineSerial ⟨d.barrier.generation, v⟩ h
  untold : ∀ v ∈ slots, ∀ b serial, ¬ Told b serial ⟨d.barrier.generation, v⟩ h
  owed : ∀ v ∈ d.barrier.pending, .call (.complete ⟨d.barrier.generation, v⟩) ∉ h

/-- What a view is to be asked from a broadcast on, which has still to call the views in `slots`. -/
def asksFrom (b : LineBroadcast) (l : LocalizedLine) (slots : List Nat) (v : Nat) : List Ask :=
  (if v ∈ slots then b :: b.following else b.following).map (·.ask l)

/-- How far the presentation of the last event has come that has been `told`, what is on the agenda
for it, and what each view is still to be asked. -/
inductive Scene (p : Play) (d : Dialogue) (h : History) (told : List Event) (a : List Item)
    (coming : Nat → List Ask) : Prop
  | clear (rests : Rests d) (items : a = []) (asks : ∀ v ∈ d.views, coming v = [])
  /-- The dialogue is going to hear the event. -/
  | hearing (event : Event) (last : told.getLast? = some event) (rests : Rests d)
      (items : a = [.hear .engine event]) (asks : ∀ v ∈ d.views, coming v = p.asks event)
  /-- The options wait for a choice. -/
  | offering (set : OptionSet) (last : told.getLast? = some (.options set)) (line : d.line = none)
      (offer : d.offer = some ⟨d.offerSerial, p.localized set.options⟩)
      (settled : d.barrier.pending = []) (items : a = [])
      (asks : ∀ v ∈ d.views, coming v = p.asks (.options set))
  /-- The engine is going to be told what was chosen. -/
  | choosing (serial : Nat) (o : LocalizedOption) (chosen : p.chosen? told = some o)
      (rests : Rests d)
      (items : a = .chooseOption serial o.id ::
        if p.echo then [.present o.line (some serial)] else [])
      (asks : ∀ v ∈ d.views, coming v = if p.echo then o.line.scene else [])
  | presenting (l : LocalizedLine) (offer : Option Nat) (rests : Rests d)
      (items : a = [.present l offer]) (asks : ∀ v ∈ d.views, coming v = l.scene)
  /-- The line is going to be broadcast. -/
  | due (b : LineBroadcast) (l : LocalizedLine) (shows : Shows d l b.status)
      (settled : d.barrier.pending = [])
      (items : a = [.broadcast b d.lineSerial { l with status := b.status }])
      (asks : ∀ v ∈ d.views, coming v = (b :: b.following).map (·.ask l))
  /-- The views are called and complete their tokens. -/
  | calling (b : LineBroadcast) (l : LocalizedLine) (slots : List Nat) (shows : Shows d l b.status)
      (owes : Owes d h b slots)
      (items : a = uncalled b d.lineSerial { l with status := b.status } d.barrier.generation slots)
      (asks : ∀ v ∈ d.views, coming v = asksFrom b l slots v)
  /-- A view is going to be given its token. -/
  | telling (b : LineBroadcast) (l : LocalizedLine) (v : Nat) (slots : List Nat)
      (shows : Shows d l b.status) (owes : Owes d h b (v :: slots))
      (items : a = .tell (.view v (b.notice d.lineSerial { l with status := b.status }
          ⟨d.barrier.generation, v⟩)) ::
        uncalled b d.lineSerial { l with status := b.status } d.barrier.generation slots)
      (asks : ∀ w ∈ d.views, coming w = asksFrom b l (v :: slots) w)
  /-- Every view has completed its token. -/
  | gathered (b : LineBroadcast) (l : LocalizedLine) (shows : Shows d l b.status)
      (settled : d.barrier.pending = []) (items : a = [.resume (b.continuation d.lineSerial)])
      (asks : ∀ v ∈ d.views, coming v = b.following.map (·.ask l))
  /-- The line is going to be closed. -/
  | shown (l : LocalizedLine) (shows : Shows d l .delivered) (settled : d.barrier.pending = [])
      (items : a = [.closeLine d.lineSerial])
      (asks : ∀ v ∈ d.views, coming v = LineBroadcast.showing.following.map (·.ask l))
  | ending (rests : Rests d) (items : a = [.finish]) (asks : ∀ v ∈ d.views, coming v = [])

section

variable {p : Play} {d : Dialogue} {h : History} {m : Mark} {told : List Event} {a : List Item}
  {coming : Nat → List Ask} {b : LineBroadcast} {slots : List Nat}

@[simp] theorem scenic_append (a a' : List Item) : scenic (a ++ a') = scenic a ++ scenic a' :=
  List.filter_append ..

theorem scenic_cons {i : Item} (part : i.isScenic = true) (a : List Item) :
    scenic (i :: a) = i :: scenic a := List.filter_cons_of_pos part

theorem scenic_cons_of_other {i : Item} (other : i.isScenic = false) (a : List Item) :
    scenic (i :: a) = scenic a := List.filter_cons_of_neg (by simp [other])

theorem scenic_of_others {items : List Item} (others : ∀ i ∈ items, i.isScenic = false) :
    scenic items = [] := List.filter_eq_nil_iff.2 (by simpa using others)

theorem isScenic_resume (b : LineBroadcast) (serial : Nat) :
    (Item.resume (b.continuation serial)).isScenic = true := by
  cases b <;> rfl

theorem isScenic_notice (b : LineBroadcast) (v serial : Nat) (line : LocalizedLine) (t : Token) :
    (Item.tell (.view v (b.notice serial line t))).isScenic = true := by
  cases b <;> rfl

theorem scenic_rest (b : LineBroadcast) (serial : Nat) (line : LocalizedLine) (generation : Nat)
    (slots : List Nat) (a : List Item) :
    scenic (.rest b serial line generation slots :: a) =
      uncalled b serial line generation slots ++ scenic a := by
  cases slots <;> rfl

theorem mem_of_mem_scenic {i : Item} (hi : i ∈ scenic a) : i ∈ a := (List.mem_filter.1 hi).1

/-! ### What leaves a scene as it is -/

/-- Whether a mark is that of a view being given a token. -/
def Mark.hands : Mark → Bool
  | .did (.tell (.view _ (.showLine _ _ _))) | .did (.tell (.view _ (.removeLine _ _ _))) => true
  | _ => false

theorem told_of_not_hands {serial : Nat} {t : Token} (quiet : m.hands = false)
    (given : Told b serial t (m :: h)) : Told b serial t h := by
  obtain ⟨line, given⟩ := given
  rcases List.mem_cons.1 given with rfl | given
  · cases b <;> cases quiet
  · exact ⟨line, given⟩

/-- Nobody is given a token, nor does anybody complete one that is owed. -/
theorem Owes.cons (owes : Owes d h b slots) (quiet : m.hands = false)
    (other : ∀ v ∈ d.barrier.pending, m ≠ .call (.complete ⟨d.barrier.generation, v⟩)) :
    Owes d (m :: h) b slots where
  stored := owes.stored
  pending := owes.pending
  nodup := owes.nodup
  distinct := owes.distinct
  among := owes.among
  told v hv uncalled := (owes.told v hv uncalled).mono [m]
  untold v hv b serial given := owes.untold v hv b serial (told_of_not_hands quiet given)
  owed v hv done := (List.mem_cons.1 done).elim (fun same => other v hv same.symm) (owes.owed v hv)

/-- A token that completes nothing is not one that is owed. -/
theorem Scene.cons (scene : Scene p d h told a coming) (quiet : m.hands = false)
    (other : ∀ v ∈ d.barrier.pending, m ≠ .call (.complete ⟨d.barrier.generation, v⟩)) :
    Scene p d (m :: h) told a coming := by
  cases scene with
  | clear rests items asks => exact .clear rests items asks
  | hearing event last rests items asks => exact .hearing event last rests items asks
  | offering set last line offer settled items asks =>
    exact .offering set last line offer settled items asks
  | choosing serial o chosen rests items asks => exact .choosing serial o chosen rests items asks
  | presenting l offer rests items asks => exact .presenting l offer rests items asks
  | due b l shows settled items asks => exact .due b l shows settled items asks
  | calling b l slots shows owes items asks =>
    exact .calling b l slots shows (owes.cons quiet other) items asks
  | telling b l v slots shows owes items asks =>
    exact .telling b l v slots shows (owes.cons quiet other) items asks
  | gathered b l shows settled items asks => exact .gathered b l shows settled items asks
  | shown l shows settled items asks => exact .shown l shows settled items asks
  | ending rests items asks => exact .ending rests items asks

variable {s s' : Session}

/-- Something leaves the books as they are, and all that is on the agenda for the event that is
presented. -/
structure Spares (s s' : Session) : Prop where
  dialogue : s'.dialogue = s.dialogue
  items : scenic s'.agenda = scenic s.agenda

theorem Spares.refl (s : Session) : Spares s s := ⟨rfl, rfl⟩

theorem Spares.of_items (items : List Item) (others : ∀ i ∈ items, i.isScenic = false)
    (dialogue : s'.dialogue = s.dialogue) (agenda : s'.agenda = items ++ s.agenda) :
    Spares s s' :=
  ⟨dialogue, by rw [agenda, scenic_append, scenic_of_others others, List.nil_append]⟩

theorem Spares.trans {s'' : Session} (spares : Spares s s') (spares' : Spares s' s'') :
    Spares s s'' :=
  ⟨spares'.dialogue.trans spares.dialogue, spares'.items.trans spares.items⟩

theorem isScenic_tellViews (s : Session) {n : ViewNotice}
    (other : (Item.tell (.view 0 n)).isScenic = false) :
    ∀ i ∈ s.tellViews n, i.isScenic = false :=
  forall_mem_tellViews fun _ => by cases n <;> exact other

attribute [local simp] Item.isScenic

variable {q : Progress}

theorem Chooses.spares {id : OptionId} (chooses : Chooses s id q) : Spares s q.1 := by
  cases chooses with
  | nobody | script => exact .of_items [] (by simp) rfl rfl
  | host => exact .of_items [_] (by simp) rfl rfl

theorem Concludes.spares {r : Reporter} {x : NextAction} (concludes : Concludes s r x q) :
    Spares s q.1 := by
  cases concludes with
  | host | nobody => exact .refl s
  | engine => exact .of_items [.turn] (by simp) rfl rfl

/-- What a handle forwards is no part of presenting a line. -/
theorem Unpauses.spares {k : Nat} (unpauses : Unpauses s k q) (own : OwnHandles s.handles) :
    Spares s q.1 := by
  cases unpauses with
  | unknown => exact .refl s
  | @resumed x hx =>
    refine .of_items (resumption x.resume.2.1) (fun i hi => ?_) rfl rfl
    obtain ⟨c, forwarded, rfl⟩ := mem_resumption.1 hi
    rcases x.resume_cases with ⟨-, -, same⟩ | ⟨-, none⟩
    · obtain rfl : x.continuation = c := Option.some.inj (same.symm.trans forwarded)
      rcases own k x hx with own | ⟨key, own⟩ <;> rw [own] <;> rfl
    · cases none.symm.trans forwarded

theorem Spawns.spares {k : Nat} (spawns : Spawns s k q) (own : OwnHandles s.handles) :
    Spares s q.1 := by
  cases spawns with
  | spawned => exact .refl s
  | resumes _ unpauses => exact unpauses.spares own

theorem Dispatches.spares {c : Command} {kont : Nat → Continuation} {use : OutcomeUse}
    (dispatches : Dispatches s c kont use q) : Spares s q.1 := by
  cases dispatches with
  | handler | pausingHandler | method | refused | unhandled | unheard =>
    exact .of_items _ (by simp) rfl rfl
  | pausingMethod =>
    refine .of_items _ ?_ rfl rfl
    split <;> simp

/-- Whatever else a session does leaves the scene as it is. -/
theorem Works.spares {i : Item} (works : Works s i q) (own : OwnHandles s.handles)
    (other : i.isScenic = false) (unturned : i ≠ .turn) : Spares s q.1 := by
  cases works with
  | idle | reply | outcome => exact .refl s
  | tell | continueHost | resumeHost | commandDone | afterCall =>
    exact .of_items _ (by simp) rfl rfl
  | turn => exact absurd rfl unturned
  | continueScript =>
    refine .of_items _ ?_ rfl rfl
    split <;> simp
  | conclude concludes | outcomeOf k concludes => exact concludes.spares
  | stale here old => rcases old with ⟨n, rfl, -⟩ | ⟨n, rfl, -⟩ <;> cases other
  | resumeWhenDone spawns => exact spawns.spares own
  | chooseOption | line | options | command | nodeStart | nodeEnd | dialogueEnd | present
  | immediate | waiting | callNext | lineShown | lineGone | closeLine | finish => cases other

end

/-! ### What takes a scene further -/

section

variable {p : Play} {d : Dialogue} {h h' : History} {told : List Event} {a : List Item}
  {coming : Nat → List Ask} {s : Session}

namespace Scene

theorem of_hear {r : Reporter} {event : Event}
    (scene : Scene p d h told (.hear r event :: a) coming) :
    Rests d ∧ a = [] ∧ told.getLast? = some event ∧ ∀ v ∈ d.views, coming v = p.asks event := by
  cases scene with
  | hearing event' last rests items asks =>
    cases items
    exact ⟨rests, rfl, last, asks⟩
  | calling b l slots _ _ items => cases slots <;> cases items
  | _ => cases ‹_ :: _ = _›

theorem of_chooseOption {serial : Nat} {id : OptionId}
    (scene : Scene p d h told (.chooseOption serial id :: a) coming) :
    ∃ o, p.chosen? told = some o ∧ o.id = id ∧ Rests d ∧
      a = (if p.echo then [.present o.line (some serial)] else []) ∧
      ∀ v ∈ d.views, coming v = if p.echo then o.line.scene else [] := by
  cases scene with
  | choosing serial' o chosen rests items asks =>
    obtain ⟨same, below⟩ := List.cons.inj items
    cases same
    exact ⟨o, chosen, rfl, rests, below, asks⟩
  | calling b l slots _ _ items => cases slots <;> cases items
  | _ => cases ‹_ :: _ = _›

theorem of_present {l : LocalizedLine} {offer : Option Nat}
    (scene : Scene p d h told (.present l offer :: a) coming) :
    Rests d ∧ a = [] ∧ ∀ v ∈ d.views, coming v = l.scene := by
  cases scene with
  | presenting l' offer' rests items asks =>
    cases items
    exact ⟨rests, rfl, asks⟩
  | calling b l slots _ _ items => cases slots <;> cases items
  | _ => cases ‹_ :: _ = _›

theorem of_broadcast {b : LineBroadcast} {serial : Nat} {line : LocalizedLine}
    (scene : Scene p d h told (.broadcast b serial line :: a) coming) :
    ∃ l, serial = d.lineSerial ∧ line = { l with status := b.status } ∧ Shows d l b.status ∧
      d.barrier.pending = [] ∧ a = [] ∧
      ∀ v ∈ d.views, coming v = (b :: b.following).map (·.ask l) := by
  cases scene with
  | due b' l shows settled items asks =>
    cases items
    exact ⟨l, rfl, rfl, shows, settled, rfl, asks⟩
  | calling b l slots _ _ items => cases slots <;> cases items
  | _ => cases ‹_ :: _ = _›

theorem of_rest {b : LineBroadcast} {serial generation v : Nat} {line : LocalizedLine}
    {slots : List Nat}
    (scene : Scene p d h told (.rest b serial line generation (v :: slots) :: a) coming) :
    ∃ l, serial = d.lineSerial ∧ generation = d.barrier.generation ∧
      line = { l with status := b.status } ∧ Shows d l b.status ∧ Owes d h b (v :: slots) ∧
      a = [] ∧ ∀ w ∈ d.views, coming w = asksFrom b l (v :: slots) w := by
  cases scene with
  | calling b' l slots' shows owes items asks =>
    cases slots' with
    | nil => cases items
    | cons =>
      cases items
      exact ⟨l, rfl, rfl, rfl, shows, owes, rfl, asks⟩
  | _ => cases ‹_ :: _ = _›

theorem of_tell {b : LineBroadcast} {serial v : Nat} {line : LocalizedLine} {t : Token}
    (scene : Scene p d h told (.tell (.view v (b.notice serial line t)) :: a) coming) :
    ∃ l slots, serial = d.lineSerial ∧ t = ⟨d.barrier.generation, v⟩ ∧
      line = { l with status := b.status } ∧ Shows d l b.status ∧ Owes d h b (v :: slots) ∧
      a = uncalled b serial line d.barrier.generation slots ∧
      ∀ w ∈ d.views, coming w = asksFrom b l (v :: slots) w := by
  cases scene with
  | telling b' l v' slots shows owes items asks =>
    obtain ⟨same, below⟩ := List.cons.inj items
    obtain ⟨rfl, rfl, rfl, rfl, rfl⟩ : v = v' ∧ b = b' ∧ serial = d.lineSerial ∧
        line = { l with status := b'.status } ∧ t = ⟨d.barrier.generation, v'⟩ := by
      cases b <;> cases b' <;> cases same <;> exact ⟨rfl, rfl, rfl, rfl, rfl⟩
    exact ⟨l, slots, rfl, rfl, rfl, shows, owes, below, asks⟩
  | calling b l slots _ _ items => cases slots <;> cases items
  | _ => cases ‹_ :: _ = _›

theorem of_resume {b : LineBroadcast} {serial : Nat}
    (scene : Scene p d h told (.resume (b.continuation serial) :: a) coming) :
    ∃ l, serial = d.lineSerial ∧ Shows d l b.status ∧ d.barrier.pending = [] ∧ a = [] ∧
      ∀ v ∈ d.views, coming v = b.following.map (·.ask l) := by
  cases scene with
  | gathered b' l shows settled items asks =>
    obtain ⟨same, rfl⟩ := List.cons.inj items
    obtain ⟨rfl, rfl⟩ := continuation_inj (Item.resume.inj same)
    exact ⟨l, rfl, shows, settled, rfl, asks⟩
  | calling b l slots _ _ items => cases slots <;> cases items
  | _ => cases ‹_ :: _ = _›

theorem of_closeLine {serial : Nat} (scene : Scene p d h told (.closeLine serial :: a) coming) :
    ∃ l, serial = d.lineSerial ∧ Shows d l .delivered ∧ d.barrier.pending = [] ∧ a = [] ∧
      ∀ v ∈ d.views, coming v = [LineBroadcast.removing.ask l] := by
  cases scene with
  | shown l shows settled items asks =>
    cases items
    exact ⟨l, rfl, shows, settled, rfl, asks⟩
  | calling b l slots _ _ items => cases slots <;> cases items
  | _ => cases ‹_ :: _ = _›

theorem of_finish (scene : Scene p d h told (.finish :: a) coming) :
    Rests d ∧ a = [] ∧ ∀ v ∈ d.views, coming v = [] := by
  cases scene with
  | ending rests items asks =>
    cases items
    exact ⟨rests, rfl, asks⟩
  | calling b l slots _ _ items => cases slots <;> cases items
  | _ => cases ‹_ :: _ = _›

end Scene

/-- Options are offered in their order. -/
theorem localizeOptions_eq (strings : d.strings = p.strings) (os : List DialogueOption) :
    (d.localizeOptions os).1 = p.localized os := by
  induction os with
  | nil => rfl
  | cons o os ih =>
    rw [Play.localized] at ih ⊢
    rw [Dialogue.localizeOptions, List.map_cons, ← ih, ← strings]
    rfl

/-- The dialogue hears an event. -/
theorem Scene.hear {r : Reporter} {event : Event}
    (scene : Scene p s.dialogue h told (.hear r event :: scenic s.agenda) coming)
    (strings : s.dialogue.strings = p.strings) :
    Scene p (s.hear r event).1.dialogue h' told (scenic (s.hear r event).1.agenda) coming := by
  obtain ⟨rests, alone, last, asks⟩ := scene.of_hear
  have plain (n : ViewNotice) (x : NextAction) (other : (Item.tell (.view 0 n)).isScenic = false) :
      scenic (s.tellViews n ++ [.conclude r x] ++ s.agenda) = [] := by
    rw [scenic_append, scenic_append, scenic_of_others (isScenic_tellViews s other), alone]
    rfl
  cases event with
  | line l =>
    refine .presenting (p.strings.localize l) none rests ?_ asks
    rw [← strings]
    exact congrArg (List.cons _) alone
  | options set =>
    have options := localizeOptions_eq strings set.options
    refine .offering set last rfl ?_ rfl (plain _ _ rfl) asks
    simp only [Session.hear, push_dialogue, withDialogue_dialogue, Dialogue.openOffer]
    exact congrArg (fun os => some (Offer.mk _ os)) options
  | command c =>
    have spares := (s.dispatch_dispatches c .commandDone (.event r)).spares
    rw [Session.hear, spares.dialogue, spares.items]
    exact .clear rests alone asks
  | nodeStart node => exact .clear rests (plain _ _ rfl) asks
  | nodeEnd node => exact .clear rests (plain _ _ rfl) asks
  | dialogueEnd => exact .ending rests (congrArg (List.cons _) alone) asks

/-- The engine is told what was chosen. -/
theorem Scene.chooseOption {serial : Nat} {id : OptionId}
    (scene : Scene p s.dialogue h told (.chooseOption serial id :: scenic s.agenda) coming) :
    Scene p (s.chooseOption id).1.dialogue h' told (scenic (s.chooseOption id).1.agenda)
      coming := by
  obtain ⟨o, -, -, rests, items, asks⟩ := scene.of_chooseOption
  have spares := (s.chooseOption_chooses id).spares
  rw [spares.dialogue, spares.items, items]
  cases echo : p.echo with
  | true =>
    rw [echo] at asks
    exact .presenting o.line (some serial) rests rfl asks
  | false =>
    rw [echo] at asks
    exact .clear rests rfl asks

/-- A line is presented. -/
theorem Scene.present {l : LocalizedLine} {offer : Option Nat}
    (scene : Scene p s.dialogue h told (.present l offer :: scenic s.agenda) coming) :
    Scene p (s.present l).1.dialogue h' told (scenic (s.present l).1.agenda) coming := by
  obtain ⟨rests, alone, asks⟩ := scene.of_present
  exact .due .showing l ⟨rfl, rests.offer⟩ rests.settled (congrArg (List.cons _) alone) asks

/-- A line is broadcast. -/
theorem Scene.broadcast {b : LineBroadcast} {serial : Nat} {line : LocalizedLine}
    (scene : Scene p s.dialogue h told (.broadcast b serial line :: scenic s.agenda) coming)
    (fresh : ∀ b serial v, ¬ Told b serial ⟨s.dialogue.barrier.generation + 1, v⟩ h')
    (uncompleted : ∀ v, .call (.complete ⟨s.dialogue.barrier.generation + 1, v⟩) ∉ h') :
    Scene p (s.broadcast b serial line).1.dialogue h' told
      (scenic (s.broadcast b serial line).1.agenda) coming := by
  obtain ⟨l, rfl, rfl, shows, settled, alone, asks⟩ := scene.of_broadcast
  rcases s.dialogue.barrier.start_cases s.dialogue.slots (b.continuation s.dialogue.lineSerial) with
    ⟨unwatched, barrier, opening⟩ | ⟨watched, barrier, opening⟩
  · simp only [Session.broadcast, opening, barrier]
    refine .gathered b l ⟨shows.line, shows.offer⟩ rfl ?_
      fun v (hv : v ∈ presentFrom 0 s.dialogue.slots) => ?_
    · rw [push_agenda, List.singleton_append, scenic_cons (isScenic_resume b _)]
      exact congrArg (List.cons _) alone
    · rw [unwatched] at hv
      cases hv
  · simp only [Session.broadcast, opening, barrier]
    have distinct := nodup_presentFrom 0 s.dialogue.slots
    refine .calling b l s.dialogue.views ⟨shows.line, shows.offer⟩
      { stored := rfl
        pending := watched
        nodup := distinct
        distinct := distinct
        among := fun v hv => hv
        told := fun v hv uncalled => absurd hv uncalled
        untold := fun v _ b serial => fresh b serial v
        owed := fun v _ => uncompleted v } ?_ fun v (hv : v ∈ s.dialogue.views) => ?_
    · rw [push_agenda, List.singleton_append, scenic_rest, withDialogue_agenda, alone,
        List.append_nil]
      rfl
    · rw [asks v hv, asksFrom, if_pos hv]

/-- The next view is called. -/
theorem Scene.rest {b : LineBroadcast} {serial generation v : Nat} {line : LocalizedLine}
    {slots : List Nat} (scene : Scene p s.dialogue h told
      (.rest b serial line generation (v :: slots) :: scenic s.agenda) coming) :
    Scene p (s.broadcastRest b serial line generation (v :: slots)).1.dialogue
      (.did (.rest b serial line generation (v :: slots)) :: h) told
      (scenic (s.broadcastRest b serial line generation (v :: slots)).1.agenda) coming := by
  obtain ⟨l, rfl, rfl, rfl, shows, owes, alone, asks⟩ := scene.of_rest
  have next : s.dialogue.barrier.nextCall s.dialogue.barrier.generation (v :: slots) =
      .call ⟨s.dialogue.barrier.generation, v⟩ slots := by
    simp [Barrier.nextCall, Barrier.isCurrent]
  simp only [broadcastRest, next]
  refine .telling b l v slots shows (owes.cons rfl (by simp)) ?_ asks
  rw [push_agenda, List.cons_append, scenic_cons (isScenic_notice b v _ _ _), List.singleton_append,
    scenic_rest, alone, List.append_nil]
  rfl

/-- A view is given its token. -/
theorem Scene.tell {b : LineBroadcast} {serial v : Nat} {line : LocalizedLine} {t : Token}
    (scene : Scene p s.dialogue h told
      (.tell (.view v (b.notice serial line t)) :: scenic s.agenda) coming) :
    ∃ coming', Scene p s.dialogue (.did (.tell (.view v (b.notice serial line t))) :: h) told
        (scenic s.agenda) coming' ∧
      ∀ w ∈ s.dialogue.views, coming w = (if v = w then [(b, line)] else []) ++ coming' w := by
  obtain ⟨l, slots, rfl, rfl, rfl, shows, owes, items, asks⟩ := scene.of_tell
  obtain ⟨called, distinct⟩ := List.nodup_cons.1 owes.distinct
  refine ⟨asksFrom b l slots, .calling b l slots shows ?_ items fun w _ => rfl, fun w hw => ?_⟩
  · have given : Told b s.dialogue.lineSerial ⟨s.dialogue.barrier.generation, v⟩
        (.did (.tell (.view v (b.notice s.dialogue.lineSerial { l with status := b.status }
          ⟨s.dialogue.barrier.generation, v⟩))) :: h) := ⟨_, List.mem_cons_self⟩
    refine { owes with
      distinct := distinct
      among := fun w hw => owes.among w (List.mem_cons_of_mem v hw)
      told := fun w hw uncalled => ?_
      untold := fun w hw b' serial ⟨line, given'⟩ => ?_
      owed := fun w hw => by simpa using owes.owed w hw }
    · by_cases same : w = v
      · exact same ▸ given
      · exact (owes.told w hw (List.not_mem_cons_of_ne_of_not_mem same uncalled)).mono [_]
    · rcases List.mem_cons.1 given' with same | given'
      · obtain ⟨rfl, -⟩ := Notice.view.inj (Item.tell.inj (Mark.did.inj same))
        exact called hw
      · exact owes.untold w (List.mem_cons_of_mem v hw) b' serial ⟨line, given'⟩
  · rw [asks w hw, asksFrom, asksFrom]
    by_cases same : v = w
    · subst same
      rw [if_pos List.mem_cons_self, if_pos rfl, if_neg called]
      rfl
    · rw [if_neg same]
      simp only [List.mem_cons, Ne.symm same, false_or]
      rfl

/-- Every view has done what it was asked to do. -/
theorem Scene.resume {b : LineBroadcast} {serial : Nat} (held : s.held = true)
    (advances : s.dialogue.settings.autoAdvance = true)
    (scene : Scene p s.dialogue h told (.resume (b.continuation serial) :: scenic s.agenda)
      coming) :
    Scene p (s.resume (b.continuation serial)).1.dialogue h' told
      (scenic (s.resume (b.continuation serial)).1.agenda) coming := by
  obtain ⟨l, rfl, shows, settled, alone, asks⟩ := scene.of_resume
  have exist : s.exists? = true := by simp [exists?, held]
  cases b with
  | showing =>
    have delivered : s.dialogue.deliver? s.dialogue.lineSerial =
        some ({ s.dialogue with line := some { l with status := .delivered } },
          { l with status := .delivered }) := by
      simp only [Dialogue.deliver?, Dialogue.lineAt?, if_pos, shows.line]
      rfl
    simp only [LineBroadcast.continuation, Session.resume, exist, if_true, lineShown, push_dialogue,
      delivered, advances]
    refine .shown l ⟨rfl, shows.offer⟩ settled ?_ asks
    rw [push_agenda, scenic_append, scenic_append, scenic_of_others (isScenic_tellViews _ rfl)]
    exact congrArg (List.cons _) alone
  | removing =>
    have dismissed : s.dialogue.dismiss? s.dialogue.lineSerial =
        some { s.dialogue with line := none } := if_pos rfl
    simp only [LineBroadcast.continuation, Session.resume, exist, if_true, lineGone, push_dialogue,
      dismissed]
    exact .clear ⟨rfl, shows.offer, settled⟩ alone asks

/-- The line is closed. -/
theorem Scene.closeLine {serial : Nat}
    (scene : Scene p s.dialogue h told (.closeLine serial :: scenic s.agenda) coming) :
    Scene p (s.closeLine serial).1.dialogue h' told (scenic (s.closeLine serial).1.agenda)
      coming := by
  obtain ⟨l, rfl, shows, settled, alone, asks⟩ := scene.of_closeLine
  have closed : s.dialogue.closeLine? s.dialogue.lineSerial =
      some ({ s.dialogue with line := some { l with status := .ended } },
        { l with status := .ended }) := by
    simp only [Dialogue.closeLine?, Dialogue.lineAt?, if_pos, shows.line]
    rfl
  simp only [Session.closeLine, closed]
  refine .due .removing l ⟨rfl, shows.offer⟩ settled ?_ asks
  rw [push_agenda, dismissal, scenic_append, scenic_append,
    scenic_of_others (isScenic_tellViews _ rfl)]
  exact congrArg (List.cons _) alone

/-- The dialogue ends. -/
theorem Scene.finish (scene : Scene p s.dialogue h told (.finish :: scenic s.agenda) coming) :
    Scene p s.finish.1.dialogue h' told (scenic s.finish.1.agenda) coming := by
  obtain ⟨rests, alone, asks⟩ := scene.of_finish
  unfold Session.finish
  split
  · refine .clear ⟨rfl, rfl, rfl⟩ ?_ asks
    rw [push_agenda, scenic_append, scenic_of_others (isScenic_tellViews _ rfl)]
    exact alone
  · exact .clear rests alone asks

/-- While a token is owed, a broadcast is under way. -/
theorem Scene.of_owed (scene : Scene p d h told a coming) (owed : d.barrier.pending ≠ []) :
    (∃ b l slots, Shows d l b.status ∧ Owes d h b slots ∧
      a = uncalled b d.lineSerial { l with status := b.status } d.barrier.generation slots ∧
      ∀ v ∈ d.views, coming v = asksFrom b l slots v) ∨
    ∃ b l v slots, Shows d l b.status ∧ Owes d h b (v :: slots) ∧
      a = .tell (.view v (b.notice d.lineSerial { l with status := b.status }
          ⟨d.barrier.generation, v⟩)) ::
        uncalled b d.lineSerial { l with status := b.status } d.barrier.generation slots ∧
      ∀ w ∈ d.views, coming w = asksFrom b l (v :: slots) w := by
  cases scene with
  | calling b l slots shows owes items asks => exact .inl ⟨b, l, slots, shows, owes, items, asks⟩
  | telling b l v slots shows owes items asks =>
    exact .inr ⟨b, l, v, slots, shows, owes, items, asks⟩
  | offering _ _ _ _ settled | due _ _ _ settled | gathered _ _ _ settled | shown _ _ settled =>
    exact absurd settled owed
  | clear rests | hearing _ _ rests | choosing _ _ _ rests | presenting _ _ rests | ending rests =>
    exact absurd rests.settled owed

/-- One of several views that owe their tokens completes its own. -/
theorem Owes.complete {b : LineBroadcast} {slots : List Nat} {t : Token} (owes : Owes d h b slots)
    (given : ∃ b serial, Told b serial t h) (current : t.generation = d.barrier.generation)
    (more : d.barrier.pending.erase t.slot ≠ []) :
    Owes { d with barrier := { d.barrier with pending := d.barrier.pending.erase t.slot } }
      (.call (.complete t) :: h) b slots where
  stored := owes.stored
  pending := more
  nodup := owes.nodup.erase t.slot
  distinct := owes.distinct
  among v hv := by
    refine (List.mem_erase_of_ne ?_).2 (owes.among v hv)
    rintro rfl
    obtain ⟨b', serial, given⟩ := given
    exact owes.untold _ hv b' serial (current ▸ given)
  told v hv uncalled := (owes.told v (List.mem_of_mem_erase hv) uncalled).mono [_]
  untold v hv b' serial given := owes.untold v hv b' serial (told_of_not_hands rfl given)
  owed v hv done := by
    rcases List.mem_cons.1 done with same | done
    · obtain rfl : t = ⟨d.barrier.generation, v⟩ := (Call.complete.inj (Mark.call.inj same)).symm
      exact owes.nodup.not_mem_erase hv
    · exact owes.owed v (List.mem_of_mem_erase hv) done

/-- When the last token is completed, every view has been called. -/
theorem Owes.called {b : LineBroadcast} {slots : List Nat} {t : Token} (owes : Owes d h b slots)
    (given : ∃ b serial, Told b serial t h) (current : t.generation = d.barrier.generation)
    (last : d.barrier.pending.erase t.slot = []) : slots = [] := by
  refine List.eq_nil_iff_forall_not_mem.2 fun v hv => ?_
  obtain ⟨b', serial, given⟩ := given
  by_cases same : v = t.slot
  · subst same
    exact owes.untold _ hv b' serial (current ▸ given)
  · have left := (List.mem_erase_of_ne same).2 (owes.among v hv)
    rw [last] at left
    cases left

/-- A view completes a token. -/
theorem Scene.complete {t : Token} (held : s.held = true) (given : ∃ b serial, Told b serial t h)
    (scene : Scene p s.dialogue h told (scenic s.agenda) coming) :
    Scene p (s.complete t).1.dialogue (.call (.complete t) :: h) told
      (scenic (s.complete t).1.agenda) coming := by
  have exist : s.exists? = true := by simp [exists?, held]
  have shape : (s.complete t).1 = (s.withDialogue
      { s.dialogue with barrier := (s.dialogue.barrier.complete t).1 }).push
        (resumption (s.dialogue.barrier.complete t).2.1 ++ [.reply .done]) := by
    simp only [Session.complete, exist]
    rfl
  have agenda (k : Option Continuation) : scenic (resumption k ++ [.reply .done] ++ s.agenda) =
      scenic (resumption k) ++ scenic s.agenda := by
    rw [scenic_append, scenic_append]
    exact congrArg (· ++ scenic s.agenda) (List.append_nil _)
  rw [shape, push_agenda, withDialogue_agenda, agenda, push_dialogue, withDialogue_dialogue]
  rcases s.dialogue.barrier.complete_cases t with ⟨stale, barrier, forwarded⟩ |
    ⟨⟨current, owed⟩, more, barrier, forwarded⟩ | ⟨⟨current, owed⟩, last, barrier, forwarded⟩
  · rw [barrier, forwarded]
    refine scene.cons rfl fun v hv same => stale ?_
    obtain rfl := Call.complete.inj (Mark.call.inj same)
    exact ⟨rfl, hv⟩
  · rw [barrier, forwarded]
    rcases scene.of_owed (List.ne_nil_of_mem owed) with ⟨b, l, slots, shows, owes, items, asks⟩ |
      ⟨b, l, v, slots, shows, owes, items, asks⟩
    · exact .calling b l slots ⟨shows.line, shows.offer⟩ (owes.complete given current more) items
        asks
    · exact .telling b l v slots ⟨shows.line, shows.offer⟩ (owes.complete given current more) items
        asks
  · rw [barrier, forwarded]
    rcases scene.of_owed (List.ne_nil_of_mem owed) with ⟨b, l, slots, shows, owes, items, asks⟩ |
      ⟨b, l, v, slots, shows, owes, items, asks⟩
    · obtain rfl := owes.called given current last
      rw [owes.stored]
      refine .gathered b l ⟨shows.line, shows.offer⟩ rfl ?_ asks
      rw [items]
      cases b <;> rfl
    · cases owes.called given current last

/-- An option is chosen, or the choice is refused. -/
theorem Scene.select {serial : Nat} {id : OptionId} (held : s.held = true)
    (echoes : s.dialogue.settings.echoChoice = p.echo)
    (picks : ∀ o, s.dialogue.offer = some o → o.serial = serial → id = p.pick o.options)
    (scene : Scene p s.dialogue h told (scenic s.agenda) coming) :
    Scene p (s.select serial id).1.dialogue (.call (.select serial id) :: h) told
      (scenic (s.select serial id).1.agenda) coming := by
  have exist : s.exists? = true := by simp [exists?, held]
  cases hc : s.dialogue.choose serial id with
  | error err =>
    simp only [Session.select, exist, hc]
    exact scene.cons rfl (by simp)
  | ok chosen =>
    obtain ⟨d', o⟩ := chosen
    obtain ⟨offer, opened, same, found, available, rfl⟩ := Dialogue.choose_eq_ok.1 hc
    have shape : (s.select serial id).1 = (s.withDialogue { s.dialogue with offer := none }).push
        [.chooseOption serial id,
          if p.echo then .present o.line (some serial) else .continueEngine (.offer serial),
          .lease, .reply .done] := by
      simp only [Session.select, exist, hc, echoes]
      rfl
    rw [shape]
    have unopened (none : s.dialogue.offer = none) : False := by cases none.symm.trans opened
    cases scene with
    | offering set last line offer' settled items asks =>
      obtain rfl := Option.some.inj (offer'.symm.trans opened)
      have pick : p.choice? (p.localized set.options) = some o := by
        rw [Play.choice?, ← picks _ opened same, found, Option.filter_some, if_pos available]
      have chosen : p.chosen? told = some o := by rw [Play.chosen?, last]; exact pick
      have named : o.id = id := by simpa using List.find?_some found
      refine .choosing serial o chosen ⟨line, rfl, settled⟩ ?_ fun v hv => ?_
      · rw [push_agenda, withDialogue_agenda, scenic_append, items, named]
        cases p.echo <;> rfl
      · rw [asks v hv, Play.asks, pick]
        rfl
    | clear rests | hearing _ _ rests | choosing _ _ _ rests | presenting _ _ rests
    | ending rests =>
      exact (unopened rests.offer).elim
    | due _ _ shows | calling _ _ _ shows | telling _ _ _ _ shows | gathered _ _ shows
    | shown _ shows => exact (unopened shows.offer).elim

/-- The engine takes its turn, and what it reports is presented next. -/
theorem Scene.turn {e : Engine} (he : s.engine = .script e)
    (listens : ∀ l event, (e.turn (s.surroundings e)).2.1 = .report l event → l = .dialogue)
    (scene : Scene p s.dialogue h told (scenic s.agenda) coming)
    (done : ∀ event ∈ (e.turn (s.surroundings e)).2.1.event?, Rests s.dialogue ∧
      scenic s.agenda = [] ∧ ∀ v ∈ s.dialogue.views, coming v = []) :
    ∃ coming', Scene p s.turn.1.dialogue (.did .turn :: h)
        (told ++ (e.turn (s.surroundings e)).2.1.event?.toList) (scenic s.turn.1.agenda) coming' ∧
      ∀ v ∈ s.dialogue.views, coming' v =
        coming v ++ (e.turn (s.surroundings e)).2.1.event?.toList.flatMap p.asks := by
  obtain ⟨storage, shape⟩ := turn_shape he
  rw [shape]
  generalize (e.turn (s.surroundings e)).2.1 = request at listens done
  dsimp only
  rw [scenic_append]
  have silent (none : request.event? = none) (other : scenic (requested request) = []) :
      ∃ coming', Scene p s.dialogue (.did .turn :: h) (told ++ request.event?.toList)
          (scenic (requested request) ++ scenic s.agenda) coming' ∧
        ∀ v ∈ s.dialogue.views, coming' v =
          coming v ++ request.event?.toList.flatMap p.asks := by
    rw [none, other, Option.toList_none, List.append_nil]
    exact ⟨coming, scene.cons rfl nofun, fun v _ => (List.append_nil _).symm⟩
  cases request with
  | again | rest | store | invoke => exact silent rfl rfl
  | report l event =>
    obtain rfl := listens l event rfl
    obtain ⟨rests, none, asks⟩ := done event rfl
    refine ⟨fun _ => p.asks event, .hearing event List.getLast?_concat rests ?_ fun _ _ => rfl,
      fun v hv => ?_⟩
    · rw [none]
      rfl
    · rw [asks v hv]
      exact (List.append_nil _).symm

end

end Session

end Prompter

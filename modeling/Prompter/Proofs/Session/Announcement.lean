import Prompter.Proofs.Session.Refusal

/-!
# Prompter.Proofs.Session.Announcement

Every run of a dialogue is announced to each view once, and closed once.

Two things can end a run, a stop and the end of the script, and both may happen to the same run.
Views are told of the beginning and of the end in loops that can be nested in each other. What holds
of every view, at every moment, is a balance (`Balance`): the beginnings that it has been told of
and is going to be told of are as many as the starts that have succeeded, and the ends are as many
less the one that is still to come while the dialogue is running. What is going to be told is on
the agenda, so when nothing is left to be done the balance says what has been told.

The engine may be any. One of the host's own need not answer alike whenever it is asked about a node
(`Life.changes`).
-/

namespace Prompter

/-- Whether an item is that of telling a view something. -/
def Item.isNews (v : Nat) (n : ViewNotice) : Item → Bool
  | .tell (.view w n') => w = v && n' = n
  | _ => false

namespace Session

/-- What has happened, each time with the state in which it did, the newest first. -/
abbrev Chronicle := List (Session × Mark)

/-- The states that a session can get to, whatever its host does. -/
inductive Life (s₀ : Session) : Session → Chronicle → Prop
  | refl : Life s₀ s₀ []
  | happens {s s' : Session} {c : Chronicle} {m : Mark} (l : Life s₀ s c)
      (happens : Happens s m s') : Life s₀ s' ((s, m) :: c)
  /-- The host's engine changes its mind about its nodes. -/
  | changes {s : Session} {c : Chronicle} {e : HostEngine} (l : Life s₀ s c)
      (engine : s.engine = .host e) (e' : HostEngine) : Life s₀ { s with engine := .host e' } c

/-- What has happened in a history, each time with the state in which it did. -/
def chronicle (s₀ : Session) : History → Chronicle
  | [] => []
  | m :: h => (after s₀ h, m) :: chronicle s₀ h

/-- Whether a start of the dialogue succeeds when something happens. -/
def succeeds (s : Session) : Mark → Bool
  | .call (.start node) => (s.yields (.call (.start node))).all (!·.isError)
  | _ => false

/-- How many starts of the dialogue have succeeded. -/
def starts (c : Chronicle) : Nat := c.countP fun x => x.1.succeeds x.2

/-- How often a view has been told something. -/
def tidings (v : Nat) (n : ViewNotice) (c : Chronicle) : Nat :=
  c.countP fun x => match x.2 with
    | .did i => i.isNews v n
    | _ => false

/-- How often a view is going to be told something. -/
def coming (v : Nat) (n : ViewNotice) (a : List Item) : Nat := a.countP (Item.isNews v n)

/-- What a view has been told of beginnings and ends, with what it is going to be told, makes up for
the starts. -/
structure Balance (s : Session) (c : Chronicle) (v : Nat) : Prop where
  opened : tidings v .opened c + coming v .opened s.agenda = starts c
  closed : tidings v .dialogueEnd c + coming v .dialogueEnd s.agenda +
    s.dialogue.running.toNat = starts c

section

variable {v : Nat} {n : ViewNotice} {d d' : Dialogue} {hs : List (ResumeHandle Continuation)}
  {m : Mark} {a rest items : List Item} {s₀ s s' : Session} {c : Chronicle}

/-! ### What is told and what is going to be told -/

@[simp] theorem coming_append (a a' : List Item) :
    coming v n (a ++ a') = coming v n a + coming v n a' := List.countP_append

theorem coming_eq_zero (none : ∀ i ∈ items, i.isNews v n = false) : coming v n items = 0 :=
  List.countP_eq_zero.2 fun i hi => by simp [none i hi]

theorem isNews_of_isAside {i : Item} (aside : i.isAside = true) : i.isNews v n = false := by
  unfold Item.isAside at aside
  unfold Item.isNews
  split at aside <;> simp_all

theorem isNews_of_callsHost {i : Item} (calls : i.callsHost = true) : i.isNews v n = false := by
  cases i <;> first | rfl | cases calls

theorem coming_of_isAside (others : ∀ i ∈ items, i.isAside = true) : coming v n items = 0 :=
  coming_eq_zero fun i hi => isNews_of_isAside (others i hi)

/-- What is told is not going to be told any more. -/
theorem Takes.tidings_eq (takes : Takes m a rest) :
    tidings v n ((s, m) :: c) + coming v n rest = tidings v n c + coming v n a := by
  cases takes with
  | did i =>
    simp only [tidings, coming, List.countP_cons]
    omega
  | call => rfl
  | answer x i rest called =>
    simp only [tidings, coming, List.countP_cons, isNews_of_callsHost called]
    rfl

theorem coming_tells_other {views : List Nat} {n' : ViewNotice} (other : n' ≠ n) :
    coming v n (tells views n') = 0 := by
  refine coming_eq_zero fun i hi => ?_
  obtain ⟨w, -, rfl⟩ := List.mem_map.1 hi
  simp [Item.isNews, other]

theorem coming_tells_of_not_mem {views : List Nat} (hv : v ∉ views) (n' : ViewNotice) :
    coming v n (tells views n') = 0 := by
  refine coming_eq_zero fun i hi => ?_
  obtain ⟨w, hw, rfl⟩ := List.mem_map.1 hi
  have ne : w ≠ v := fun same => hv (same ▸ hw)
  simp [Item.isNews, ne]

/-- Each view is told once. -/
theorem coming_tells {views : List Nat} (once : views.Nodup) (hv : v ∈ views) :
    coming v n (tells views n) = 1 := by
  induction views with
  | nil => cases hv
  | cons w views ih =>
    obtain ⟨new, once⟩ := List.nodup_cons.1 once
    have parts : coming v n (tells (w :: views) n) =
        coming v n [.tell (.view w n)] + coming v n (tells views n) := coming_append [_] _
    rw [parts]
    by_cases here : w = v
    · subst here
      rw [coming_tells_of_not_mem new]
      simp [coming, Item.isNews]
    · rw [ih once ((List.mem_cons.1 hv).resolve_left (Ne.symm here))]
      simp [coming, Item.isNews, here]

/-! ### Starts -/

/-- A start succeeds exactly if it makes a dialogue run that did not. -/
theorem succeeds_start (s : Session) (node : Option String) :
    (s.succeeds (.call (.start node)) = true ∧ s.dialogue.running = false ∧
      (s.call (.start node)).1.dialogue.running = true) ∨
    (s.succeeds (.call (.start node)) = false ∧
      (s.call (.start node)).1.dialogue = s.dialogue) := by
  have fails (out : List Output) (e : DialogueError) :
      (out ++ [Output.reply (.failed e)]).all (!·.isError) = false := by
    simp [List.all_append, Output.isError, Reply.isError]
  have requests := s.call_requests (.start node)
  simp only [succeeds, yields]
  generalize s.call (.start node) = p at requests ⊢
  cases requests with
  | declined declines =>
    cases declines with
    | unnamed => exact .inr ⟨fails [] _, rfl⟩
    | unstartable _ _ rs => exact .inr ⟨fails (remarks rs) _, rfl⟩
    | unplaced => exact .inr ⟨fails [.bound, .placed _] _, rfl⟩
    | unseated concerns => simp at concerns
  | @start _ _ _ can _ outputs places rs =>
    have fine : ∀ o ∈ outputs, o.isError = false := by
      cases places with
      | script => simp
      | host => simp [Output.isError]
    refine .inl ⟨List.all_eq_true.2 fun o ho => ?_, (Dialogue.startError?_eq_none.1 can).2.2.1, rfl⟩
    simp [List.forall_mem_append.2 ⟨fine, isError_remarks rs⟩ o ho]

/-! ### What a step adds -/

/-- The items that are put on the agenda tell a view of a beginning exactly if one is made, and of
an end exactly if one is made. -/
structure Shift (d d' : Dialogue) (v : Nat) (items : List Item) : Prop where
  opened : coming v .opened items = (!d.running && d'.running).toNat
  closed : coming v .dialogueEnd items = (d.running && !d'.running).toNat

theorem Shift.of_mute (mute : ∀ n, n = .opened ∨ n = .dialogueEnd → coming v n items = 0)
    (same : d'.running = d.running) : Shift d d' v items where
  opened := by simp [mute .opened (.inl rfl), same]
  closed := by simp [mute .dialogueEnd (.inr rfl), same]

theorem Post.shift (post : Post d hs m d' items) (hv : v ∈ d.views) : Shift d d' v items := by
  -- views are told much, but here it is neither of a beginning nor of an end
  have told {n : ViewNotice} {last : List Item} (start : n ≠ .opened) (stop : n ≠ .dialogueEnd)
      (mute : ∀ n, coming v n last = 0) (same : d'.running = d.running) :
      Shift d d' v (tells d.views n ++ last) := by
    refine .of_mute (fun n' which => ?_) same
    have other : n ≠ n' := by rcases which with rfl | rfl <;> assumption
    rw [coming_append, coming_tells_other other, mute]
  have once : d.views.Nodup := nodup_presentFrom 0 d.slots
  cases post with
  | aside quiet items others => exact .of_mute (fun _ _ => coming_of_isAside others) rfl
  | opened node free watched =>
    constructor
    · rw [coming_append, coming_tells once hv, free]
      rfl
    · rw [coming_append, coming_tells_other (by simp), free]
      rfl
  | finish running =>
    constructor
    · rw [coming_tells_other (by simp), running]
      rfl
    · rw [coming_tells once hv, running]
      rfl
  | stopping running first others =>
    refine .of_mute (fun n _ => ?_) rfl
    rw [coming_append, coming_of_isAside others]
    rfl
  | options | nodeStart | nodeEnd => exact told (by simp) (by simp) (fun _ => rfl) rfl
  | callNext b n line w vs =>
    refine .of_mute (fun n' which => ?_) rfl
    have other : b.notice n line ⟨d.barrier.generation, w⟩ ≠ n' := by
      rcases which with rfl | rfl <;> cases b <;> simp [LineBroadcast.notice]
    simp [coming, Item.isNews, other]
  | completed t barrier k => cases k <;> exact .of_mute (fun _ _ => rfl) rfl
  | forwarded quiet x hx last others =>
    exact .of_mute (fun n _ => coming_eq_zero
      (List.forall_mem_cons.2 ⟨rfl, fun i hi => isNews_of_isAside (others i hi)⟩)) rfl
  | advanced quiet shown advances next goesOn last others =>
    obtain ⟨line, -, -, rfl⟩ := advances
    refine told (by simp) (by simp) (fun n => ?_) rfl
    rw [coming_append, coming_of_isAside others]
    cases next with
    | none => rfl
    | some i => rcases goesOn i rfl with rfl | rfl <;> rfl
  | chosen o id open_ next goesOn =>
    rcases goesOn with rfl | ⟨line, rfl⟩ <;> exact .of_mute (fun _ _ => rfl) rfl
  | deliver | report | line | dialogueEnd | present | immediate | waiting | gone =>
    exact .of_mute (fun _ _ => rfl) rfl

/-- Nothing but a start makes a dialogue run. -/
theorem Post.starts_of_running (post : Post d hs m d' items) (off : d.running = false)
    (on : d'.running = true) : ∃ node, m = .call (.start node) := by
  have never (same : d'.running = d.running) : False := by simp [same, off] at on
  cases post with
  | opened node => exact ⟨node, rfl⟩
  | finish running => exact absurd (off.symm.trans running) (by simp)
  | advanced quiet shown advances =>
    obtain ⟨line, -, -, rfl⟩ := advances
    exact (never rfl).elim
  | _ => exact (never rfl).elim

/-- What makes a dialogue run that did not is exactly a start that succeeds. -/
theorem Happens.succeeds_eq (happens : Happens s m s') :
    s.succeeds m = (!s.dialogue.running && s'.dialogue.running) := by
  by_cases start : ∃ node, m = .call (.start node)
  · obtain ⟨node, rfl⟩ := start
    cases happens
    obtain ⟨yes, off, on⟩ | ⟨no, same⟩ := s.succeeds_start node
    · simp [yes, off, on]
    · simp [no, same]
  · have no : s.succeeds m = false := by
      unfold succeeds
      split
      · exact (start ⟨_, rfl⟩).elim
      · rfl
    obtain ⟨items, rest, -, post, -⟩ := happens.posts
    cases off : s.dialogue.running with
    | true => simp [no]
    | false => simp [no, Bool.eq_false_iff.2 fun on => start (post.starts_of_running off on)]

/-- Whatever happens keeps the balance of a view. -/
theorem Balance.step (balance : Balance s c v) (happens : Happens s m s')
    (hv : v ∈ s.dialogue.views) : Balance s' ((s, m) :: c) v := by
  obtain ⟨items, rest, takes, post, agenda⟩ := happens.posts
  obtain ⟨opened, closed⟩ := balance
  obtain ⟨begins, ends⟩ := post.shift hv
  have openings := takes.tidings_eq (v := v) (n := .opened) (s := s) (c := c)
  have endings := takes.tidings_eq (v := v) (n := .dialogueEnd) (s := s) (c := c)
  have counted : starts ((s, m) :: c) =
      starts c + (!s.dialogue.running && s'.dialogue.running).toNat := by
    rw [← happens.succeeds_eq]
    simp only [starts, List.countP_cons]
    cases s.succeeds m <;> rfl
  have flips : (s.dialogue.running && !s'.dialogue.running).toNat + s'.dialogue.running.toNat =
      s.dialogue.running.toNat + (!s.dialogue.running && s'.dialogue.running).toNat := by
    cases s.dialogue.running <;> cases s'.dialogue.running <;> rfl
  constructor <;> rw [agenda, coming_append, counted] <;> omega

/-! ### Every moment -/

theorem Run.life {allowed : Session → History → Call → Prop} {h : History}
    (r : Run allowed s₀ s h) : Life s₀ s (chronicle s₀ h) := by
  induction r with
  | refl => exact .refl
  | work r busy top ih =>
    rw [chronicle, r.after_eq]
    exact ih.happens (.work busy top)
  | call r word c _ ih =>
    rw [chronicle, r.after_eq]
    exact ih.happens (.call word c)
  | answer r x fits ih =>
    rw [chronicle, r.after_eq]
    exact ih.happens (.answer x fits)

theorem Life.views_eq (l : Life s₀ s c) : s.dialogue.views = s₀.dialogue.views := by
  induction l with
  | refl => rfl
  | happens l happens ih =>
    obtain ⟨rest, special, -, change, -, -⟩ := happens.move
    exact change.views.trans ih
  | changes l engine e' ih => exact ih

/-- The balance of every view is kept from the beginning on. -/
theorem Life.balance (idle : s₀.agenda = []) (closed : s₀.dialogue.running = false)
    (l : Life s₀ s c) (hv : v ∈ s.dialogue.views) : Balance s c v := by
  induction l with
  | refl => exact ⟨by rw [idle]; rfl, by rw [idle, closed]; rfl⟩
  | happens l happens ih =>
    rw [(l.happens happens).views_eq, ← l.views_eq] at hv
    exact (ih hv).step happens hv
  | changes l engine e' ih => exact ⟨(ih hv).opened, (ih hv).closed⟩

/-- Whatever the host does: when nothing is left to be done, every view has been told once of the
beginning of each dialogue, and once of the end of each but the one that is running. -/
theorem run_announced (idle : s₀.agenda = []) (closed : s₀.dialogue.running = false)
    (l : Life s₀ s c) (done : s.agenda = []) (hv : v ∈ s.dialogue.views) :
    tidings v .opened c = starts c ∧
      tidings v .dialogueEnd c + s.dialogue.running.toNat = starts c := by
  obtain ⟨opened, closed⟩ := l.balance idle closed hv
  rw [done] at opened closed
  exact ⟨opened, closed⟩

/-- Two views, and an engine that knows one node. -/
def duet : Session where
  engine := .host ⟨fun node => node = "A", fun _ => none⟩
  dialogue := { slots := [true, true] }
  storage := some {}

/-- The first view stops the dialogue when it is told of its beginning, and starts it again when it
is told of its end, so that the second view is told of the second beginning before the first. When
that has been stopped too, the engine knows no node any more and a third start fails. -/
theorem announced_of_restart : ∃ s c, Life duet s c ∧ s.dialogue.views = [0, 1] ∧ starts c = 2 ∧
    tidings 1 .opened c = 2 ∧ tidings 1 .dialogueEnd c = 2 := by
  have told {s : Session} {h : History} (r : Run (fun _ _ _ => True) duet s h)
      (fits : s.accepts .heard = true) := (r.answer .heard fits).works 9
  have r : Run (fun _ _ _ => True) duet _ [] := .refl
  have r := (r.call rfl (.start "A") trivial).works 9
  have r := (r.call rfl .stop trivial).works 9
  have r := told r rfl
  have r := (r.call rfl (.start "A") trivial).works 9
  have r := told (told (told (told r rfl) rfl) rfl) rfl
  have r := told (told (told (told r rfl) rfl) rfl) rfl
  have r := told (told (told ((r.call rfl .stop trivial).works 9) rfl) rfl) rfl
  have l := (r.life.changes rfl ⟨fun _ => false, fun _ => none⟩).happens (.call rfl (.start "A"))
  have all := run_announced rfl rfl l rfl (v := 1) (by decide +kernel)
  exact ⟨_, _, l, by decide +kernel, by decide +kernel, all.1.trans (by decide +kernel),
    all.2.trans (by decide +kernel)⟩

end

end Session

end Prompter

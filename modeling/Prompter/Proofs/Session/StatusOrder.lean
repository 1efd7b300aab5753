import Prompter.Proofs.Session.Agenda

/-!
# Prompter.Proofs.Session.StatusOrder

The order in which a view is told the statuses of a line.

A line moves forward only, and each time all views are told, one after the other. A view that is
told may make the line move on; the views after it are then told the later status first. So the
statuses that wait for a view stand on the agenda in the wrong order, as soon as there are two of
them (`Overtaken`), and nothing puts them right. The first view never has two of them waiting.
-/

namespace Prompter

/-- The status of the line with a serial number that an item is to tell a view. -/
def Item.status? (v n : Nat) : Item → Option LineStatus
  | .tell (.view v' (.lineStatus n' line)) => if v' = v ∧ n' = n then some line.status else none
  | _ => none

namespace Session

def Mark.status? (v n : Nat) : Mark → Option LineStatus
  | .did i => i.status? v n
  | _ => none

/-- The statuses of a line that a view has still to be told, the next first. -/
def untold (v n : Nat) (a : List Item) : List LineStatus := a.filterMap (Item.status? v n)

/-- The statuses of a line that a view has been told, the newest first. -/
def told (v n : Nat) (h : History) : List LineStatus := h.filterMap (Mark.status? v n)

/-- Two statuses of a line have been waiting for a view at once. -/
def Overtaken (s₀ : Session) (h : History) (v n : Nat) : Prop :=
  ∃ newer older, h = newer ++ older ∧ 2 ≤ (untold v n (after s₀ older).agenda).length

/-- The statuses that a view is told of a line, in the order in which it will have been told them,
the last first. -/
def course (v n : Nat) (a : List Item) (h : History) : List LineStatus :=
  (untold v n a).reverse ++ told v n h

section

variable {v n : Nat} {d d' : Dialogue} {hs : List (ResumeHandle Continuation)} {m : Mark}
  {a rest items : List Item} {h : History}

/-! ### What a step adds to the course -/

@[simp] theorem untold_append (a a' : List Item) :
    untold v n (a ++ a') = untold v n a ++ untold v n a' := List.filterMap_append ..

theorem untold_eq_nil (none : ∀ i ∈ items, i.status? v n = none) : untold v n items = [] :=
  List.filterMap_eq_nil_iff.2 none

theorem status?_of_isAside {i : Item} (aside : i.isAside = true) : i.status? v n = none := by
  unfold Item.isAside at aside
  unfold Item.status?
  split at aside <;> simp_all

theorem status?_of_callsHost {i : Item} (calls : i.callsHost = true) : i.status? v n = none := by
  cases i <;> first | rfl | cases calls

/-- What is told is not waited for any more. -/
theorem Takes.course_eq (takes : Takes m a rest) : course v n rest (m :: h) = course v n a h := by
  cases takes with
  | did i =>
    simp only [course, untold, told, List.filterMap_cons, Mark.status?]
    cases i.status? v n <;> simp
  | call => rfl
  | answer x i rest called =>
    simp only [course, untold, told, List.filterMap_cons, Mark.status?,
      status?_of_callsHost called]

theorem untold_tells_other {views : List Nat} {notice : ViewNotice}
    (other : ∀ line, notice ≠ .lineStatus n line) : untold v n (tells views notice) = [] := by
  refine untold_eq_nil fun i hi => ?_
  obtain ⟨slot, -, rfl⟩ := List.mem_map.1 hi
  cases notice with
  | lineStatus n' line =>
    have ne : n' ≠ n := fun same => other line (by rw [same])
    simp [Item.status?, ne]
  | _ => rfl

theorem untold_tells (views : List Nat) (line : LocalizedLine) (once : views.Nodup) :
    untold v n (tells views (.lineStatus n line)) = if v ∈ views then [line.status] else [] := by
  induction views with
  | nil => rfl
  | cons slot views ih =>
    obtain ⟨new, once⟩ := List.nodup_cons.1 once
    have ih := ih once
    simp only [untold, tells, List.map_cons, List.filterMap_cons, Item.status?] at ih ⊢
    by_cases here : slot = v
    · subst here
      rw [ih]
      simp [new]
    · rw [ih]
      simp [here, Ne.symm here]

theorem nodup_views (d : Dialogue) : d.views.Nodup := nodup_presentFrom 0 d.slots

/-- A view is going to be told a status exactly when the line has moved on to it. -/
theorem Post.untold_cases (post : Post d hs m d' items) (v n : Nat) :
    (∃ shown, Advances d d' shown ∧ n = d.lineSerial ∧ untold v n items = [shown.status] ∧
      (d.views.head? = some v → untold v n items.tail = [])) ∨
    untold v n items = [] := by
  have aside {items : List Item} (others : ∀ i ∈ items, i.isAside = true) :
      untold v n items = [] := untold_eq_nil fun i hi => status?_of_isAside (others i hi)
  have other {notice : ViewNotice} (other : ∀ line, notice ≠ .lineStatus n line)
      {last : List Item} (others : ∀ i ∈ last, i.isAside = true) :
      untold v n (tells d.views notice ++ last) = [] := by
    rw [untold_append, untold_tells_other other, aside others]
    rfl
  cases post with
  | advanced quiet shown advances next goesOn last others =>
    have none : untold v n (next.toList ++ last) = [] := by
      refine untold_eq_nil (List.forall_mem_append.2 ⟨fun i hi => ?_, fun i hi => ?_⟩)
      · rcases goesOn i (Option.mem_toList.1 hi) with rfl | rfl <;> rfl
      · exact status?_of_isAside (others i hi)
    have told := untold_append (v := v) (n := n) (tells d.views (.lineStatus d.lineSerial shown))
      (next.toList ++ last)
    rw [none, List.append_nil] at told
    by_cases here : n = d.lineSerial
    · subst here
      have once := nodup_views d
      rw [untold_tells _ shown once] at told
      by_cases present : v ∈ d.views
      · rw [if_pos present] at told
        refine .inl ⟨shown, advances, rfl, told, fun first => ?_⟩
        -- what the first view is told comes first
        obtain ⟨views, hv⟩ := List.head?_eq_some_iff.1 first
        rw [hv] at once ⊢
        simp only [tells, List.map_cons, List.cons_append, List.tail_cons]
        rw [untold_append, none, List.append_nil, ← tells,
          untold_tells _ shown (List.nodup_cons.1 once).2, if_neg (List.nodup_cons.1 once).1]
      · exact .inr (told.trans (if_neg present))
    · exact .inr (told.trans (untold_tells_other (by simp [Ne.symm here])))
  | aside quiet items others => exact .inr (aside others)
  | stopping running first others =>
    right
    rw [untold_append, aside others]
    rfl
  | opened | options | nodeStart | nodeEnd => exact .inr (other (by simp) (by simp [Item.isAside]))
  | finish => exact .inr (untold_tells_other (by simp))
  | forwarded quiet x hx last others =>
    right
    exact untold_eq_nil (List.forall_mem_cons.2
      ⟨rfl, fun i hi => status?_of_isAside (others i hi)⟩)
  | completed t barrier k => cases k <;> exact .inr rfl
  | callNext b => cases b <;> exact .inr rfl
  | chosen o id _ next goesOn => rcases goesOn with rfl | ⟨line, rfl⟩ <;> exact .inr rfl
  | deliver | report | line | dialogueEnd | present | immediate | waiting | gone => exact .inr rfl

/-- As long as a line is presented, its status does not go back. -/
theorem Post.le_status (post : Post d hs m d' items) (known : n ≤ d.lineSerial)
    {line : LocalizedLine} (hl : d'.lineAt? n = some line) :
    ∃ before, d.lineAt? n = some before ∧ before.status ≤ line.status := by
  have same (hl : d.lineAt? n = some line) :
      ∃ before, d.lineAt? n = some before ∧ before.status ≤ line.status :=
    ⟨line, hl, Nat.le_refl _⟩
  cases post with
  | advanced quiet shown advances =>
    obtain ⟨before, hb, later, rfl⟩ := advances
    obtain ⟨serial, hs⟩ := Dialogue.lineAt?_eq_some.1 hl
    cases hs
    exact ⟨before, Dialogue.lineAt?_eq_some.2 ⟨serial, hb⟩, Nat.le_of_lt later⟩
  | present =>
    obtain ⟨serial, -⟩ := Dialogue.lineAt?_eq_some.1 hl
    exact absurd (serial.symm ▸ known) (Nat.not_succ_le_self _)
  | options | finish | gone =>
    obtain ⟨-, hs⟩ := Dialogue.lineAt?_eq_some.1 hl
    cases hs
  | _ => exact same hl

/-- A step leaves the course of a line as it is, or inserts a new status between those that are
waiting and those that have been told. -/
theorem Posts.course_cases {s' : Session} (posts : Posts d hs a m s') (v n : Nat) (h : History) :
    (∃ shown earlier, Advances d s'.dialogue shown ∧ n = d.lineSerial ∧
      course v n a h = earlier.reverse ++ told v n (m :: h) ∧ earlier.Sublist (untold v n a) ∧
      untold v n s'.agenda = shown.status :: earlier) ∨
    course v n s'.agenda (m :: h) = course v n a h ∧
      (untold v n s'.agenda).Sublist (untold v n a) := by
  obtain ⟨items, rest, takes, post, agenda⟩ := posts
  have same := takes.course_eq (v := v) (n := n) (h := h)
  have fewer : (untold v n rest).Sublist (untold v n a) := by
    refine List.Sublist.filterMap _ ?_
    cases takes with
    | did | answer => exact List.sublist_cons_self ..
    | call => exact List.Sublist.refl _
  rcases post.untold_cases v n with ⟨shown, advances, serial, more, -⟩ | none
  · left
    refine ⟨shown, untold v n rest, advances, serial, same.symm, fewer, ?_⟩
    rw [agenda, untold_append, more]
    rfl
  · right
    rw [agenda, course, untold_append, none]
    exact ⟨same, fewer⟩

/-- The line has had every status that a view was told of it or will be told. -/
def Had (v n : Nat) (d : Dialogue) (a : List Item) (h : History) : Prop :=
  ∀ status ∈ course v n a h, n ≤ d.lineSerial ∧ ∀ line, d.lineAt? n = some line →
    status ≤ line.status

/-- A line that moves on has had none but earlier statuses. -/
theorem Had.lt (had : Had v n d a h) {shown : LocalizedLine} (advances : Advances d d' shown)
    (serial : n = d.lineSerial) : ∀ status ∈ course v n a h, status < shown.status := by
  intro status hm
  obtain ⟨line, hl, later, -⟩ := advances
  exact Nat.lt_of_le_of_lt
    ((had status hm).2 line (Dialogue.lineAt?_eq_some.2 ⟨serial.symm, hl⟩)) later

theorem Posts.had {s' : Session} (posts : Posts d hs a m s') (had : Had v n d a h) :
    Had v n s'.dialogue s'.agenda (m :: h) := by
  have kept {status : LineStatus} (hm : status ∈ course v n a h) :
      n ≤ s'.dialogue.lineSerial ∧
        ∀ line, s'.dialogue.lineAt? n = some line → status ≤ line.status := by
    obtain ⟨_, _, -, post, -⟩ := posts
    refine ⟨Nat.le_trans (had status hm).1 post.lineSerial_le, fun line hl => ?_⟩
    obtain ⟨before, hb, le⟩ := post.le_status (had status hm).1 hl
    exact Nat.le_trans ((had status hm).2 before hb) le
  intro status hm
  rcases posts.course_cases v n h with ⟨shown, earlier, advances, serial, old, -, new⟩ | ⟨old, -⟩
  · obtain ⟨line, hl, -, same⟩ := advances
    rw [course, new, List.reverse_cons, List.append_assoc, List.mem_append] at hm
    rcases hm with hm | hm
    · exact kept (old ▸ List.mem_append_left _ hm)
    · rcases List.mem_cons.1 hm with rfl | hm
      · refine ⟨Nat.le_of_eq (by rw [same, serial]), fun line' hl' => ?_⟩
        obtain ⟨-, hs⟩ := Dialogue.lineAt?_eq_some.1 hl'
        rw [same] at hs
        cases hs
        exact Nat.le_refl _
      · exact kept (old ▸ List.mem_append_right _ hm)
  · exact kept (old ▸ hm)

end

/-! ### The course of a line in a run -/

section

variable {allowed : Session → History → Call → Prop} {s₀ s : Session} {h : History} {v n : Nat}

theorem overtaken_cons {m : Mark} :
    Overtaken s₀ (m :: h) v n ↔
      2 ≤ (untold v n (after s₀ (m :: h)).agenda).length ∨ Overtaken s₀ h v n := by
  constructor
  · rintro ⟨newer, older, same, two⟩
    cases newer with
    | nil =>
      cases same
      exact .inl two
    | cons m' newer =>
      cases same
      exact .inr ⟨newer, older, rfl, two⟩
  · rintro (two | ⟨newer, older, rfl, two⟩)
    · exact ⟨[], m :: h, rfl, two⟩
    · exact ⟨m :: newer, older, rfl, two⟩

/-- What is known of the statuses that a view has been told of a line, and will be told. -/
structure Ranked (s₀ s : Session) (h : History) (v n : Nat) : Prop where
  had : Had v n s.dialogue s.agenda h
  once : (course v n s.agenda h).Nodup
  /-- Those that are waiting stand on the agenda in the wrong order. -/
  reversed : (untold v n s.agenda).Pairwise (· > ·)
  forward : ¬ Overtaken s₀ h v n → (course v n s.agenda h).Pairwise (· > ·)
  overtaken : Overtaken s₀ h v n → ¬ (course v n s.agenda h).Pairwise (· > ·)

/-- Two statuses that are waiting will be told in the wrong order. -/
theorem not_forward_of_two {a : List Item} (reversed : (untold v n a).Pairwise (· > ·))
    (two : 2 ≤ (untold v n a).length) : ¬ (course v n a h).Pairwise (· > ·) := by
  intro forward
  have waiting := (List.pairwise_append.1 forward).1
  rw [List.pairwise_reverse] at waiting
  match hu : untold v n a, two with
  | later :: earlier :: rest, _ =>
    rw [hu] at reversed waiting
    have before : earlier < later := List.rel_of_pairwise_cons reversed List.mem_cons_self
    have after : later < earlier := List.rel_of_pairwise_cons waiting List.mem_cons_self
    exact Nat.lt_asymm before after

theorem Ranked.step {s' : Session} {m : Mark} (known : Ranked s₀ s h v n)
    (r' : Run allowed s₀ s' (m :: h))
    (posts : Posts s.dialogue s.handles s.agenda m s') : Ranked s₀ s' (m :: h) v n := by
  rcases posts.course_cases v n h with
    ⟨shown, earlier, advances, serial, old, fewer, new⟩ | ⟨same, fewer⟩
  · -- the new status is put between those that are waiting and those that have been told
    have lt := known.had.lt advances serial
    rw [old] at lt
    have inserted : course v n s'.agenda (m :: h) =
        earlier.reverse ++ shown.status :: told v n (m :: h) := by
      simp [course, new]
    have reversed : (untold v n s'.agenda).Pairwise (· > ·) := by
      rw [new]
      refine List.pairwise_cons.2 ⟨fun status hm => lt status ?_, known.reversed.sublist fewer⟩
      exact List.mem_append_left _ (List.mem_reverse.2 hm)
    refine ⟨posts.had known.had, ?_, reversed, fun forward => ?_, fun passed forward => ?_⟩
    · rw [inserted, List.perm_middle.nodup_iff, ← old, List.nodup_cons]
      refine ⟨fun hm => ?_, known.once⟩
      exact Nat.lt_irrefl _ (lt _ (old ▸ hm))
    · rw [overtaken_cons, r'.after_eq, new, not_or] at forward
      have alone : earlier = [] := by
        cases earlier with
        | nil => rfl
        | cons => exact absurd (Nat.le_add_left 2 _) forward.1
      subst alone
      rw [inserted]
      refine List.pairwise_cons.2 ⟨fun status hm => lt status (List.mem_append_right _ hm), ?_⟩
      have forward := known.forward forward.2
      rwa [old] at forward
    · rw [overtaken_cons, r'.after_eq] at passed
      rcases passed with two | passed
      · exact not_forward_of_two reversed two forward
      · refine known.overtaken passed ?_
        rw [old]
        rw [inserted] at forward
        exact forward.sublist (List.Sublist.append_left (List.sublist_cons_self ..) _)
  · have reversed := known.reversed.sublist fewer
    refine ⟨posts.had known.had, same ▸ known.once, reversed, fun forward => ?_, fun passed => ?_⟩
    · rw [overtaken_cons, not_or] at forward
      exact same ▸ known.forward forward.2
    · rw [overtaken_cons, r'.after_eq] at passed
      rcases passed with two | passed
      · exact not_forward_of_two reversed two
      · exact same ▸ known.overtaken passed

theorem Run.ranked (start : s₀.agenda = []) (r : Run allowed s₀ s h) (v n : Nat) :
    Ranked s₀ s h v n := by
  refine r.posts (motive := fun s h => Ranked s₀ s h v n) ?_ fun _ r' posts known =>
    known.step r' posts
  have none : untold v n s₀.agenda = [] := by rw [start]; rfl
  refine ⟨?_, ?_, ?_, ?_, ?_⟩
  · simp [Had, course, none, told]
  · simp [course, none, told]
  · simp [none]
  · simp [course, none, told]
  · rintro ⟨newer, older, same, two⟩
    obtain ⟨-, rfl⟩ := List.append_eq_nil_iff.1 same.symm
    rw [after, none] at two
    exact absurd two (by decide)

/-- What the first view is to be told is on the agenda only while it is first. -/
theorem Run.untold_tail (start : s₀.agenda = []) (r : Run allowed s₀ s h)
    (first : s₀.dialogue.views.head? = some v) : untold v n s.agenda.tail = [] := by
  refine untold_eq_nil (r.forall_tail start (fun _ => status?_of_callsHost) ?_)
  intro d d' hs m items same post
  have tail : untold v n items.tail = [] := by
    rcases post.untold_cases v n with ⟨-, -, -, -, tail⟩ | empty
    · exact tail (same ▸ first)
    · exact List.sublist_nil.1 (empty ▸ List.Sublist.filterMap _ (List.tail_sublist items))
  exact List.filterMap_eq_nil_iff.1 tail

/-- Nothing overtakes what the first view is told. -/
theorem Run.not_overtaken (start : s₀.agenda = []) (r : Run allowed s₀ s h)
    (first : s.dialogue.views.head? = some v) : ¬ Overtaken s₀ h v n := by
  rintro ⟨newer, older, rfl, two⟩
  obtain ⟨s', r'⟩ := r.earlier
  have alone : untold v n s'.agenda.tail = [] := r'.untold_tail start (r.views ▸ first)
  rw [r'.after_eq] at two
  cases ha : s'.agenda with
  | nil => simp [ha, untold] at two
  | cons i rest =>
    rw [ha, untold, List.filterMap_cons] at two
    rw [ha] at alone
    rw [show rest.filterMap (Item.status? v n) = [] from alone] at two
    cases hi : i.status? v n <;> simp [hi] at two

/-- In which order views are told the statuses of a line. -/
structure InOrder (s₀ s : Session) (h : History) : Prop where
  /-- No view is told a status twice. -/
  once : ∀ v n, (told v n h).Nodup
  /-- A view is told later and later statuses of a line, as long as one of them at most is waiting
  for it at a time. -/
  forward : ∀ v n, ¬ Overtaken s₀ h v n → (told v n h).Pairwise (· > ·)
  /-- When everything has been told, that was the only way. -/
  overtaken : s.agenda = [] → ∀ v n, Overtaken s₀ h v n → ¬ (told v n h).Pairwise (· > ·)
  /-- The first view always is. -/
  first : ∀ v n, s.dialogue.views.head? = some v → (told v n h).Pairwise (· > ·)

/-- Whatever the host does, a view is told later and later statuses of a line, unless the line moves
on while a status is waiting for the view. -/
theorem run_inOrder (start : s₀.agenda = []) (r : Run allowed s₀ s h) : InOrder s₀ s h := by
  have part (v n : Nat) : (told v n h).Sublist (course v n s.agenda h) :=
    List.sublist_append_right ..
  have forward (v n : Nat) (never : ¬ Overtaken s₀ h v n) : (told v n h).Pairwise (· > ·) :=
    ((r.ranked start v n).forward never).sublist (part v n)
  refine ⟨fun v n => (r.ranked start v n).once.sublist (part v n), forward, ?_, ?_⟩
  · intro done v n passed
    have backward := (r.ranked start v n).overtaken passed
    rwa [done] at backward
  · exact fun v n first => forward v n (r.not_overtaken start first)

end

/-- A dialogue with two views, and a script with one line. -/
def twoViews : Session :=
  { engine := .script
      { script := ⟨⟨[("A", [.line "l" "t" []])], by simp⟩⟩, listener := some .dialogue }
    dialogue := { slots := [true, true] }
    storage := some {} }

/-- The host starts the dialogue; its views complete their tokens, and pass on that the player wants
to get past a line. -/
def Pressed (_ : Session) (h : History) (c : Call) : Prop :=
  Owned c h ∧ ((∃ node, c = .start node) ∨ c = .proceed ∨ ∃ t, c = .complete t)

/-- The first view completes its token when it is told to hurry. -/
theorem run_twoViews :
    ∃ s h, Run Pressed twoViews s h ∧ s.agenda = [] ∧ told 1 1 h = [.interrupted, .delivered] := by
  have r : Run Pressed twoViews twoViews [] := .refl
  have r := r.call rfl (.start (some "A")) ⟨nofun, .inl ⟨_, rfl⟩⟩
  -- the views hear that the dialogue and its node have begun
  have r := ((r.works 9).answer .heard rfl).works 9
  have r := ((r.answer .heard rfl).works 9).answer .heard rfl
  have r := ((r.works 9).answer .heard rfl).works 9
  -- the line is shown, and the second view has shown it at once
  have r := (r.answer .heard rfl).works 9
  have r := r.call rfl (.complete ⟨1, 1⟩)
    ⟨fun t ht => by cases ht; exact ⟨.showing, 1, _, List.mem_cons_self⟩, .inr (.inr ⟨_, rfl⟩)⟩
  have r := ((r.works 9).answer .heard rfl).works 9
  -- the player is in a hurry, and so is the first view then
  have r := (r.call rfl .proceed ⟨nofun, .inr (.inl rfl)⟩).works 9
  have r := r.call rfl (.complete ⟨1, 0⟩)
    ⟨fun t ht => by cases ht; exact ⟨.showing, 1, _, List.mem_iff_getElem?.2 ⟨14, rfl⟩⟩,
      .inr (.inr ⟨_, rfl⟩)⟩
  have r := ((r.works 9).answer .heard rfl).works 9
  have r := ((r.answer .heard rfl).works 9).answer .heard rfl
  have r := ((r.works 9).answer .heard rfl).works 9
  exact ⟨_, _, r, rfl, rfl⟩

/-- A view may be told an earlier status of a line after a later one. -/
theorem exists_backward_status :
    ¬ ∀ s₀ s h, IsFresh s₀ → Run Pressed s₀ s h → ∀ v n, (told v n h).Pairwise (· > ·) := by
  intro forward
  obtain ⟨s, h, r, -, told⟩ := run_twoViews
  have forward := forward twoViews s h ⟨rfl, rfl, rfl⟩ r 1 1
  rw [told] at forward
  exact absurd (List.rel_of_pairwise_cons forward List.mem_cons_self) (by decide)

/-- The second of two views is, where the first one completes its token when it is told to hurry;
the first one is not. -/
theorem inOrder_of_twoViews :
    ∃ s h, twoViews.agenda = [] ∧ Run Pressed twoViews s h ∧ s.agenda = [] ∧
      told 1 1 h = [.interrupted, .delivered] ∧ InOrder twoViews s h := by
  obtain ⟨s, h, r, done, told⟩ := run_twoViews
  exact ⟨s, h, rfl, r, done, told, run_inOrder rfl r⟩

end Session

end Prompter

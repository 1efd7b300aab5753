import Prompter.Proofs.Session.Drive
import Prompter.Proofs.Session.Agenda

/-!
# Prompter.Proofs.Session.Supersession

What is left of a line when a later one has been presented, or options have been offered.

A later line and an offer both make the books forget the line (`Superseded`), so that nothing which
looks at the books does anything for it any more. One item does not look at them: the broadcast that
takes a line away, which waits on the agenda while the views are told that the line has ended. If
the line is superseded inside one of these notices, the views are told to take it away when the
notices are through, and the generation of the later line is over (`run_supersedes`).
-/

namespace Prompter.Session

/-- Whether what happens presents a line or offers options. -/
def Mark.supersedes : Mark → Bool
  | .did (.present _ _) | .did (.hear _ (.options _)) => true
  | _ => false

/-- Whether what happens may begin a generation of tokens. -/
def Mark.renews : Mark → Bool
  | .did (.broadcast _ _ _) | .did (.hear _ (.options _)) | .did .finish => true
  | _ => false

/-- In the books, the line with a serial number is over. -/
def Superseded (n : Nat) (d : Dialogue) : Prop :=
  n < d.lineSerial ∨ n = d.lineSerial ∧ d.line = none

/-! ### What a step does for a line that is superseded -/

section

variable {n : Nat} {d d' : Dialogue} {hs : List (ResumeHandle Continuation)} {m : Mark}
  {items : List Item}

/-- A line that is superseded stays so. -/
theorem Post.superseded (post : Post d hs m d' items) (past : Superseded n d) :
    Superseded n d' := by
  rcases past with later | ⟨last, gone⟩
  · cases post with
    | present => exact .inl (Nat.lt_succ_of_lt later)
    | advanced quiet shown advances =>
      obtain ⟨line, -, -, rfl⟩ := advances
      exact .inl later
    | _ => exact .inl later
  · cases post with
    | present => exact .inl (last ▸ Nat.lt_succ_self _)
    | advanced quiet shown advances =>
      obtain ⟨line, hl, -⟩ := advances
      rw [gone] at hl
      cases hl
    | options | finish | gone => exact .inr ⟨last, rfl⟩
    | _ => exact .inr ⟨last, gone⟩

theorem supersedes_of_isAside (quiet : m.isAside d = true) : m.supersedes = false := by
  unfold Mark.supersedes
  split
  · cases quiet
  · cases quiet
  · rfl

/-- A later line and an offer supersede what was presented before. -/
theorem Post.supersedes (post : Post d hs m d' items) (hm : m.supersedes = true)
    (known : n ≤ d.lineSerial) :
    Superseded n d' ∧ (m.presents = true → n < d'.lineSerial) ∧
      (m.presents = false → d'.barrier.stored = none) := by
  cases post with
  | present => exact ⟨.inl (Nat.lt_succ_of_le known), fun _ => Nat.lt_succ_of_le known, nofun⟩
  | options =>
    refine ⟨?_, nofun, fun _ => rfl⟩
    rcases Nat.lt_or_eq_of_le known with later | last
    · exact .inl later
    · exact .inr ⟨last, rfl⟩
  | aside quiet | forwarded quiet | advanced quiet =>
    rw [supersedes_of_isAside quiet] at hm
    cases hm
  | _ => cases hm

/-- A line is broadcast because it has just been presented, or because it has just ended. -/
theorem Superseded.not_broadcast (past : Superseded n d) (b : LineBroadcast)
    (line : LocalizedLine) : ¬ Origin d hs m (.broadcast b n line) := by
  intro origin
  cases origin with
  | present =>
    rcases past with later | ⟨last, -⟩
    · omega
    · omega
  | removing quiet shown ongoing =>
    rcases past with later | ⟨-, gone⟩
    · exact Nat.lt_irrefl _ later
    · simp [gone] at ongoing

/-- All that a line or an offer has put on the agenda is its own. -/
theorem Origin.of_supersedes {i : Item} (origin : Origin d hs m i) (hm : m.supersedes = true) :
    (∃ shown, i = .broadcast .showing (d.lineSerial + 1) shown) ∨
      ∃ v options, i = .tell (.view v (.offerOptions options (d.offerSerial + 1))) := by
  cases origin with
  | present line shown offer => exact .inl ⟨shown, rfl⟩
  | options r set options v => exact .inr ⟨v, options, rfl⟩
  | forwarded quiet | status quiet | closing quiet | removing quiet =>
    rw [supersedes_of_isAside quiet] at hm
    cases hm
  | _ => cases hm

/-- A generation of tokens lasts until the next broadcast, the next offer or the end. -/
theorem Post.generation (post : Post d hs m d' items) (hm : m.renews = false) :
    d'.barrier.generation = d.barrier.generation := by
  cases post with
  | immediate | waiting | options | finish => cases hm
  | completed t barrier k same => exact same
  | advanced quiet shown advances =>
    obtain ⟨line, -, -, rfl⟩ := advances
    rfl
  | _ => rfl

end

/-! ### Runs from a line or an offer on -/

section

variable {allowed : Session → History → Call → Prop} {s₀ s : Session} {h : History} {n : Nat}

theorem Run.ownHandles (own : OwnHandles s₀.handles) (r : Run allowed s₀ s h) :
    OwnHandles s.handles := by
  refine r.moves (motive := fun l _ => OwnHandles l.handles) own ?_
  rintro s h m l - ⟨rest, special, -, change, -, -⟩ - own
  exact change.ownHandles own

theorem Run.generation_eq (r : Run allowed s₀ s h) (quiet : ∀ m ∈ h, m.renews = false) :
    s.dialogue.barrier.generation = s₀.dialogue.barrier.generation := by
  refine r.posts (motive := fun s h => (∀ m ∈ h, m.renews = false) →
    s.dialogue.barrier.generation = s₀.dialogue.barrier.generation) (fun _ => rfl) ?_ quiet
  rintro s s' h m - - ⟨items, rest, -, post, -⟩ known quiet
  obtain ⟨hm, quiet⟩ := List.forall_mem_cons.1 quiet
  exact (post.generation hm).trans (known quiet)

/-- A line that is superseded is broadcast only if that was due already. -/
theorem Run.broadcast_lapses (past : Superseded n s₀.dialogue) (r : Run allowed s₀ s h)
    {b : LineBroadcast} {line : LocalizedLine} (hd : .did (.broadcast b n line) ∈ h) :
    .broadcast b n line ∈ s₀.agenda :=
  r.of_no_origin (I := fun s => Superseded n s.dialogue) rfl past
    (fun ⟨_, _, _, post, _⟩ past => post.superseded past)
    (fun past => past.not_broadcast b line) (.inr hd)

/-- When a later line has been presented, the engine is not asked to go on for an earlier one. -/
theorem Run.continue_lapses (later : n < s₀.dialogue.lineSerial) (r : Run allowed s₀ s h)
    (hd : .did (.continueEngine (.line n)) ∈ h) : .continueEngine (.line n) ∈ s₀.agenda := by
  refine r.of_no_origin (I := fun s => n < s.dialogue.lineSerial) rfl later
    (fun ⟨_, _, _, post, _⟩ later => Nat.lt_of_lt_of_le later post.lineSerial_le) ?_ (.inr hd)
  intro s m later origin
  cases origin
  exact Nat.lt_irrefl _ later

/-- The engine may be asked to go on for a line, or has been asked. -/
def Leaving (n : Nat) (s : Session) (h : History) : Prop :=
  s.dialogue.barrier.stored = some (.lineGone n) ∨ .resume (.lineGone n) ∈ s.agenda ∨
    .continueEngine (.line n) ∈ s.agenda ∨ .did (.continueEngine (.line n)) ∈ h

/-- The views have been told to take a line away. -/
def Removed (n : Nat) (h : History) : Prop := ∃ line, .did (.broadcast .removing n line) ∈ h

theorem continuation_eq_lineGone {b : LineBroadcast} {k : Nat}
    (same : .lineGone n = b.continuation k) : b = .removing ∧ k = n := by
  cases b with
  | showing => cases same
  | removing =>
    cases same
    exact ⟨rfl, rfl⟩

/-- The engine is asked to go on for a line only after the views have been told to take it away. -/
theorem Run.removed (own : OwnHandles s₀.handles) (start : ¬ Leaving n s₀ [])
    (r : Run allowed s₀ s h) (leaving : Leaving n s h) : Removed n h := by
  refine r.posts (motive := fun s h => Leaving n s h → Removed n h)
    (fun leaving => absurd leaving start) ?_ leaving
  intro s s' h m r _ posts known leaving
  have earlier (leaving : Leaving n s h) : Removed n (m :: h) := by
    obtain ⟨line, hd⟩ := known leaving
    exact ⟨line, List.mem_cons_of_mem m hd⟩
  have now {b : LineBroadcast} {k : Nat} {line : LocalizedLine}
      (hm : m = .did (.broadcast b k line)) (same : .lineGone n = b.continuation k) :
      Removed n (m :: h) := by
    obtain ⟨rfl, rfl⟩ := continuation_eq_lineGone same
    exact ⟨line, hm ▸ List.mem_cons_self⟩
  rcases leaving with stored | hi | hi | hd
  · obtain ⟨items, rest, -, post, -⟩ := posts
    rcases post.stored stored with stored | ⟨b, k, line, hm, same⟩
    · exact earlier (.inl stored)
    · exact now hm same
  · rcases posts.origin hi with hi | aside | origin
    · exact earlier (.inr (.inl hi))
    · cases aside
    · generalize hk : Continuation.lineGone n = k at origin
      cases origin with
      | immediate b k line => exact now rfl hk
      | completed t k stored => exact earlier (.inl (hk ▸ stored))
      | forwarded quiet x hx =>
        -- handles are for commands only
        obtain ⟨k, hx⟩ := List.mem_iff_getElem?.1 hx
        rcases r.ownHandles own k x hx with same | ⟨key, same⟩
        · rw [same] at hk
          cases hk
        · rw [same] at hk
          cases hk
  · rcases posts.origin hi with hi | aside | origin
    · exact earlier (.inr (.inr (.inl hi)))
    · cases aside
    · cases origin with
      | gone => exact earlier (.inr (.inl posts.mem_did))
  · rcases List.mem_cons.1 hd with rfl | hd
    · exact earlier (.inr (.inr (.inl posts.mem_did)))
    · exact earlier (.inr (.inr (.inr hd)))

/-- What is done for the line with the serial number `n` after something has superseded it. -/
structure Supersedes (s₀ s : Session) (newer : History) (m : Mark) (older : History) (n : Nat) :
    Prop where
  /-- The only broadcast is the removal of the line, where that was due already. -/
  broadcast : ∀ b line, .did (.broadcast b n line) ∈ newer →
    b = .removing ∧ .broadcast .removing n line ∈ (after s₀ older).agenda
  /-- Where it was due it is made. -/
  removal : s.agenda = [] → ∀ line, .broadcast .removing n line ∈ (after s₀ older).agenda →
    .did (.broadcast .removing n line) ∈ newer
  /-- The engine is asked to go on only after that, and not if a later line was presented. -/
  continued : .did (.continueEngine (.line n)) ∈ newer → m.presents = false ∧ Removed n newer
  /-- At any time, tokens keep counting until the next broadcast, the next offer or the end. -/
  counting : ∀ last first, newer = last ++ first → (∀ m' ∈ last, m'.renews = false) →
    s.dialogue.barrier.generation =
      (after s₀ (first ++ m :: older)).dialogue.barrier.generation

/-- What supersedes a line finds nothing on the agenda that is done at once, but itself. -/
theorem Posts.not_prompt {s s' : Session} {m : Mark} {i : Item} {rest : List Item}
    (posts : Posts s.dialogue s.handles s.agenda m s') (top : s.agenda = i :: rest)
    (hm : m.supersedes = true) (known : ∀ j ∈ s.agenda.tail, j.isPrompt = false) {j : Item}
    (work : j.isAside = false) (prompt : j.isPrompt = true) (ne : j ≠ i)
    (other : ∀ k shown, j ≠ .broadcast .showing k shown) : j ∉ s'.agenda := by
  intro hj
  rcases posts.origin hj with hj | aside | origin
  · rw [top] at hj known
    rcases List.mem_cons.1 hj with rfl | hj
    · exact ne rfl
    · rw [known j hj] at prompt
      cases prompt
  · rw [work] at aside
    cases aside
  · rcases origin.of_supersedes hm with ⟨shown, rfl⟩ | ⟨v, options, rfl⟩
    · exact other _ shown rfl
    · cases prompt

/-- Whatever the host does, a line that has been superseded is taken away if that was due already,
and nothing else is done for it. -/
theorem run_supersedes (fresh : s₀.IsFresh) {newer older : History} {m : Mark}
    (r : Run allowed s₀ s (newer ++ m :: older)) (hm : m.supersedes = true)
    (known : n ≤ presented older) : Supersedes s₀ s newer m older n := by
  obtain ⟨s₁, r₁, later⟩ := r.later
  cases r₁ with
  | call | answer => cases hm
  | @work s' _ r' busy i rest top =>
    have before : after s₀ older = s' := r'.after_eq
    have posts := step_posts busy top
    have prompt := r'.prompt fresh.agenda
    obtain ⟨past, serial, stored⟩ : Superseded n s'.step.1.dialogue ∧ _ := by
      obtain ⟨items, _, _, post, _⟩ := id posts
      exact post.supersedes hm (by rwa [r'.lineSerial fresh])
    -- what supersedes the line is neither a broadcast nor a step on its way out
    have ne {j : Item} (hj : (Mark.did j).supersedes = false) : j ≠ i := by
      rintro rfl
      rw [hm] at hj
      cases hj
    have old {b : LineBroadcast} {line : LocalizedLine}
        (hb : .broadcast b n line ∈ s'.step.1.agenda) : .broadcast b n line ∈ s'.agenda := by
      rcases posts.origin hb with hb | aside | origin
      · exact hb
      · cases aside
      · rcases origin.of_supersedes hm with ⟨shown, same⟩ | ⟨v, options, same⟩
        · cases same
          rw [r'.lineSerial fresh] at known
          omega
        · cases same
    have gone (hc : .continueEngine (.line n) ∈ s'.step.1.agenda) : False :=
      posts.not_prompt top hm prompt rfl rfl (ne rfl) (by simp) hc
    refine ⟨fun b line hd => ?_, fun done line hb => ?_, fun hd => ?_, ?_⟩
    · have hb := old (later.broadcast_lapses past hd)
      rw [before]
      cases b with
      | removing => exact ⟨rfl, hb⟩
      | showing =>
        rw [top] at hb prompt
        rcases List.mem_cons.1 hb with same | hb
        · exact absurd same (ne rfl)
        · exact absurd (prompt _ hb) (by simp [Item.isPrompt])
    · rw [before] at hb
      rw [List.append_cons] at r
      obtain ⟨s'', r'', later⟩ := r.later
      rw [r''.unique r'] at later
      rcases List.mem_append.1 (later.done rfl hb done) with hd | hd
      · exact hd
      · cases List.mem_singleton.1 hd
        cases hm
    · cases presents : (Mark.did i).presents with
      | true => exact (gone (later.continue_lapses (serial presents) hd)).elim
      | false =>
        refine ⟨rfl, later.removed ((r'.work busy top).ownHandles ?_) ?_ (.inr (.inr (.inr hd)))⟩
        · simp [fresh.handles, OwnHandles]
        · rintro (kept | hi | hc | hd)
          · rw [stored presents] at kept
            cases kept
          · exact posts.not_prompt top hm prompt rfl rfl (ne rfl) (by simp) hi
          · exact gone hc
          · cases hd
    · rintro last first rfl quiet
      rw [List.append_assoc] at r
      obtain ⟨s'', r'', later⟩ := r.later
      rw [r''.after_eq]
      exact later.generation_eq quiet

end

/-- A dialogue with one view, and a script with one line. -/
def lineAlone : Session :=
  { engine := .script
      { script := ⟨⟨[("A", [.line "l" "Hello" []])], by simp⟩⟩, listener := some .dialogue }
    dialogue := { slots := [true] }
    storage := some {} }

/-- The host starts and stops the dialogue; its views complete their tokens, and pass on that the
player wants to get past a line. -/
def Reentered (_ : Session) (h : History) (c : Call) : Prop :=
  Owned c h ∧ (c = .stop ∨ c = .proceed ∨ (∃ node, c = .start node) ∨ ∃ t, c = .complete t)

/-- The view stops the dialogue and starts it again when it is told that the line has ended. -/
theorem run_lineAlone :
    ∃ s newer line older, Run Reentered lineAlone s (newer ++ .did (.present line none) :: older) ∧
      presented older = 1 ∧ s.agenda = [] ∧ Removed 1 newer := by
  have r : Run Reentered lineAlone lineAlone [] := .refl
  have r := r.call rfl (.start (some "A")) ⟨nofun, .inr (.inr (.inl ⟨_, rfl⟩))⟩
  -- the view hears that the dialogue and its node have begun, and shows the line
  have r := ((r.works 9).answer .heard rfl).works 9
  have r := ((r.answer .heard rfl).works 9).answer .heard rfl
  have r := (r.works 9).call rfl (.complete ⟨1, 0⟩)
    ⟨fun t ht => by cases ht; exact ⟨.showing, 1, _, List.mem_iff_getElem?.2 ⟨7, rfl⟩⟩,
      .inr (.inr (.inr ⟨_, rfl⟩))⟩
  have r := ((r.works 9).answer .heard rfl).works 9
  -- the line ends, and the dialogue is stopped and started again
  have r := (r.call rfl .proceed ⟨nofun, .inr (.inl rfl)⟩).works 9
  have r := (r.call rfl .stop ⟨nofun, .inl rfl⟩).works 9
  have r := (r.answer .heard rfl).works 9
  have r := r.call rfl (.start (some "A")) ⟨nofun, .inr (.inr (.inl ⟨_, rfl⟩))⟩
  have r := ((r.works 9).answer .heard rfl).works 9
  have r := ((r.answer .heard rfl).works 9).answer .heard rfl
  -- the view has been shown the line again, and hears the rest of what it was to hear before
  have r := ((r.works 9).answer .heard rfl).works 9
  have r := (r.answer .heard rfl).works 9
  exact ⟨_, _, _, _, r.at_mark 18 rfl, rfl, rfl, _, List.mem_iff_getElem?.2 ⟨6, rfl⟩⟩

/-- A line may be taken away after a later one has been presented. -/
theorem exists_late_removal :
    ¬ ∀ s₀ s newer m older n, IsAttached s₀ → Run Reentered s₀ s (newer ++ m :: older) →
      m.supersedes = true → n ≤ presented older →
      (∀ b line, .did (.broadcast b n line) ∉ newer) ∧
        .did (.continueEngine (.line n)) ∉ newer := by
  intro final
  obtain ⟨s, newer, line, older, r, count, -, line', removed⟩ := run_lineAlone
  have attached : lineAlone.IsAttached :=
    { agenda := rfl, handles := rfl, dialogue := rfl, engine := ⟨_, rfl⟩, held := rfl }
  exact (final _ s newer _ older 1 attached r rfl (Nat.le_of_eq count.symm)).1 _ line' removed

/-- It was due, where the dialogue is started again while its view is told that the line has
ended. -/
theorem supersedes_of_lineAlone :
    ∃ s newer line older, lineAlone.IsFresh ∧
      Run Reentered lineAlone s (newer ++ .did (.present line none) :: older) ∧
      (Mark.did (.present line none)).supersedes = true ∧ 1 ≤ presented older ∧ Removed 1 newer ∧
      Supersedes lineAlone s newer (.did (.present line none)) older 1 := by
  obtain ⟨s, newer, line, older, r, count, -, removed⟩ := run_lineAlone
  have fresh : lineAlone.IsFresh := ⟨rfl, rfl, rfl⟩
  have known : 1 ≤ presented older := Nat.le_of_eq count.symm
  exact ⟨s, newer, line, older, fresh, r, rfl, known, removed, run_supersedes fresh r rfl known⟩

end Prompter.Session

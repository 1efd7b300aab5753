import Prompter.Proofs.Session.Patience

/-!
# Prompter.Proofs.Session.Aftermath

What views are told after the end of a dialogue.

They are left alone if the host is patient, or at least the session stays orderly. At a single end
it depends on what had been begun: all of that is told when the dialogue is over, and nothing else
is (`run_aftermath`).
-/

namespace Prompter.Session

variable {allowed : Session → History → Call → Prop} {s₀ s : Session} {h : History}

/-! ### What had been begun -/

/-- A dialogue runs only if there is somebody to watch it. -/
theorem Run.watched (start : s₀.dialogue.running = false) (r : Run allowed s₀ s h)
    (running : s.dialogue.running = true) : s.dialogue.views ≠ [] := by
  refine r.posts (motive := fun s _ => s.dialogue.running = true → s.dialogue.views ≠ [])
    ?_ ?_ running
  · intro running
    rw [start] at running
    cases running
  · intro s s' h m r r' posts known running
    obtain ⟨_, _, -, post, -⟩ := posts
    rw [r'.views, ← r.views]
    generalize s'.dialogue = d' at post running
    cases post with
    | opened node free watched => exact watched
    | finish => cases running
    | advanced quiet shown advances =>
      obtain ⟨line, -, -, rfl⟩ := advances
      exact known running
    | _ => exact known running

/-- A session that is busy goes on with the first item of its agenda. -/
theorem Run.goes_on (busy : s₀.awaitsHost = false) {i : Item} {rest : List Item}
    (top : s₀.agenda = i :: rest) (r : Run allowed s₀ s h) (through : s.agenda = []) :
    ∃ h', h = h' ++ [.did i] ∧ Run (fun s h c => allowed s (h ++ [.did i]) c) s₀.step.1 s h' := by
  rcases List.eq_nil_or_concat h with rfl | ⟨h', m, rfl⟩
  · cases r
    rw [through] at top
    cases top
  · rw [List.concat_eq_append] at r ⊢
    obtain ⟨s', r', later⟩ := r.later
    obtain ⟨rfl, rfl⟩ := Run.refl.next_did busy top r'
    exact ⟨h', rfl, later⟩

/-- A broadcast that is due begins with the first view, unless there is none. -/
theorem agenda_of_broadcast {b : LineBroadcast} {n : Nat} {line : LocalizedLine}
    {rest : List Item} (top : s.agenda = .broadcast b n line :: rest)
    (watched : s.dialogue.views ≠ []) :
    s.step.1.agenda =
      .rest b n line s.step.1.dialogue.barrier.generation s.dialogue.views :: rest := by
  have busy : s.awaitsHost = false := by rw [awaitsHost, top]
  rw [step_eq_work busy top]
  obtain ⟨empty, -⟩ | ⟨-, barrier, opening⟩ :=
    s.dialogue.barrier.start_cases s.dialogue.slots (b.continuation n)
  · exact absurd empty watched
  · simp [work, broadcast, push, withDialogue, barrier, opening, Dialogue.views]

theorem agenda_of_rest {b : LineBroadcast} {n g v : Nat} {line : LocalizedLine} {vs : List Nat}
    {rest : List Item} (top : s.agenda = .rest b n line g (v :: vs) :: rest)
    (current : s.dialogue.barrier.generation = g) :
    s.step.1.agenda =
      .tell (.view v (b.notice n line ⟨g, v⟩)) :: .rest b n line g vs :: rest := by
  have busy : s.awaitsHost = false := by rw [awaitsHost, top]
  rw [step_eq_work busy top]
  simp [work, broadcastRest, Barrier.nextCall, Barrier.isCurrent, current, push]

/-- The first view of a broadcast is told, once the broadcast has begun. -/
theorem Run.told_of_broadcast {b : LineBroadcast} {n : Nat} {line : LocalizedLine}
    (watched : s₀.dialogue.views ≠ []) (hi : .broadcast b n line ∈ s₀.agenda)
    (r : Run allowed s₀ s h) (through : s.agenda = []) :
    ∃ v t, .did (.tell (.view v (b.notice n line t))) ∈ h := by
  obtain ⟨newer, older, rfl⟩ := List.append_of_mem (r.done rfl hi through)
  obtain ⟨s₁, rest, r₁, -, top, later⟩ := r.at_did
  have watched : s₁.dialogue.views ≠ [] := r₁.views.symm ▸ watched
  obtain ⟨v, vs, views⟩ := List.exists_cons_of_ne_nil watched
  have top := agenda_of_broadcast top watched
  rw [views] at top
  obtain ⟨newer, rfl, onward⟩ := later.goes_on (by rw [awaitsHost, top]) top through
  have told : .tell (.view v (b.notice n line ⟨s₁.step.1.dialogue.barrier.generation, v⟩)) ∈
      s₁.step.1.step.1.agenda := by
    rw [agenda_of_rest top rfl]
    exact List.mem_cons_self
  exact ⟨v, _, List.mem_append_left _ (List.mem_append_left _ (onward.done rfl told through))⟩

/-- Whatever waits on the agenda to tell a view what happens, or leads to that, comes to be told.
Events do not wait. -/
theorem Run.told_of_scene {i : Item} (watched : s₀.dialogue.views ≠ []) (hi : i ∈ s₀.agenda)
    (scene : i.isScene = true) (heard : ∀ r event, i ≠ .hear r event) (r : Run allowed s₀ s h)
    (through : s.agenda = []) : ∃ v n, .did (.tell (.view v n)) ∈ h ∧ n.isScene = true := by
  have broadcast {h : History} (b : LineBroadcast) (n : Nat) (line : LocalizedLine) :
      (∃ v t, .did (.tell (.view v (b.notice n line t))) ∈ h) →
        ∃ v n, .did (.tell (.view v n)) ∈ h ∧ n.isScene = true := by
    rintro ⟨v, t, told⟩
    exact ⟨v, _, told, by cases b <;> rfl⟩
  cases i with
  | tell n =>
    cases n with
    | view v n => exact ⟨v, n, r.done rfl hi through, scene⟩
    | _ => cases scene
  | hear r event => exact absurd rfl (heard r event)
  | broadcast b n line => exact broadcast b n line (r.told_of_broadcast watched hi through)
  | present line offer =>
    obtain ⟨newer, older, rfl⟩ := List.append_of_mem (r.done rfl hi through)
    obtain ⟨s₁, rest, r₁, busy, top, later⟩ := r.at_did
    have due : .broadcast .showing (s₁.dialogue.lineSerial + 1) { line with status := .running } ∈
        s₁.step.1.agenda := by
      rw [step_eq_work busy top]
      exact List.mem_cons_self
    have watched : s₁.step.1.dialogue.views ≠ [] := by
      rw [(r₁.work busy top).views]
      exact watched
    obtain ⟨v, t, told⟩ := later.told_of_broadcast watched due through
    exact ⟨v, _, List.mem_append_left _ told, rfl⟩
  | _ => cases scene

/-! ### One end -/

section

variable {newer older : History} {rest : List Item}

/-- After an end at which nothing had been begun, and the engine was done, views are told of nothing
that happens until the dialogue is started again. -/
theorem Run.still_after (start : s₀.agenda = [])
    (undirected : ∀ {s h c}, allowed s h c → Undirected s h c)
    (attentive : ∃ e, s₀.engine = .script e ∧ e.Attentive)
    (r : Run allowed s₀ s (newer ++ .did .finish :: older)) (ends : Ends (after s₀ older) rest)
    (done : (after s₀ older).IsDone) (clear : ∀ i ∈ rest, i.isScene = false)
    (unstarted : ∀ node, .call (.start node) ∉ newer) :
    ∀ v n, .did (.tell (.view v n)) ∈ newer → n.isScene = false := by
  obtain ⟨s₁, _, r₁, busy, top, later⟩ := r.at_did
  rw [r₁.after_eq] at ends done
  obtain ⟨agenda, running⟩ := ends
  obtain ⟨e, he, a⟩ := attentive
  have r₂ := r₁.work busy top
  have posts := step_posts busy top
  have ended : s₁.step.1.dialogue.running = false := by
    obtain ⟨_, _, -, post, -⟩ := posts
    exact (post.gives_up running).1
  have still : Still s₁.step.1 := .of_finish posts rfl running agenda clear (r₁.bounded start)
  obtain ⟨done, -⟩ := r₁.isDone_step r₂ (r₁.attentive he a) done nofun
  refine (later.still ?_ (r₂.attentive he a) ended still done unstarted).2
  intro _ _ _ ok
  have free := undirected ok
  exact free

/-- After an end at which something had been begun, views are told of it. -/
theorem Run.stirred_after (fresh : s₀.IsFresh)
    (r : Run allowed s₀ s (newer ++ .did .finish :: older)) (ends : Ends (after s₀ older) rest)
    (begun : ∃ i ∈ rest, i.isScene = true) (through : s.agenda = []) :
    ∃ v n, .did (.tell (.view v n)) ∈ newer ∧ n.isScene = true := by
  obtain ⟨s₁, _, r₁, busy, top, later⟩ := r.at_did
  rw [r₁.after_eq] at ends
  obtain ⟨agenda, running⟩ := ends
  obtain ⟨i, hi, scene⟩ := begun
  have watched : s₁.step.1.dialogue.views ≠ [] := by
    rw [(r₁.work busy top).views, ← r₁.views]
    exact r₁.watched (by rw [fresh.dialogue]) running
  have waits : i ∈ s₁.step.1.agenda := by
    rw [step_eq_work busy agenda]
    simp only [Session.work, finish, running, if_true, push]
    exact List.mem_append_right _ hi
  refine later.told_of_scene watched waits scene ?_ through
  rintro r event rfl
  -- events are heard at once
  cases r₁.prompt fresh.agenda (.hear r event) (by rwa [agenda])

end

/-! ### Every run -/

/-- How far views are left alone after the end of a dialogue. -/
structure Aftermath (s₀ s : Session) (h : History) : Prop where
  /-- Each of them is left alone, up to the next beginning, if the host has been patient. -/
  patient : (∀ newer c older, h = newer ++ .call c :: older → Patient (after s₀ older) c) →
    ∀ v, LeftAlone v h
  /-- So it is in any session that has been orderly. -/
  alone : (∀ newer older, h = newer ++ older → Orderly (after s₀ older)) → ∀ v, LeftAlone v h
  /-- After an end at which nothing had been begun and the engine was done, they are left alone
  until the dialogue is started again, whatever else the host does. -/
  still : ∀ newer older rest, h = newer ++ .did .finish :: older → Ends (after s₀ older) rest →
    (after s₀ older).IsDone → (∀ i ∈ rest, i.isScene = false) →
    (∀ node, .call (.start node) ∉ newer) →
    ∀ v n, .did (.tell (.view v n)) ∈ newer → n.isScene = false
  /-- After an end at which something had been begun, one of them is told of it. -/
  stirred : ∀ newer older rest, h = newer ++ .did .finish :: older → Ends (after s₀ older) rest →
    (∃ i ∈ rest, i.isScene = true) → s.agenda = [] →
    ∃ v n, .did (.tell (.view v n)) ∈ newer ∧ n.isScene = true

/-- Whatever the host does, except with the engine itself, views are left alone after the end of a
dialogue as far as nothing was under way. -/
theorem run_aftermath {e₀ : Engine} (fresh : s₀.IsFresh) (he : s₀.engine = .script e₀)
    (idle : e₀.phase = .idle) (out : e₀.node = none)
    (undirected : ∀ {s h c}, allowed s h c → Undirected s h c) (r : Run allowed s₀ s h) :
    Aftermath s₀ s h where
  patient patient :=
    (r.minded fresh he idle out undirected (r.orderly fresh he idle undirected patient)).alone
  alone orderly := (r.minded fresh he idle out undirected orderly).alone
  still newer older rest split ends done clear unstarted := by
    subst split
    have attentive : ∃ e, s₀.engine = .script e ∧ e.Attentive :=
      ⟨e₀, he, Engine.attentive_of_idle idle⟩
    exact r.still_after fresh.agenda undirected attentive ends done clear unstarted
  stirred newer older rest split ends begun through := by
    subst split
    exact r.stirred_after fresh ends begun through

/-- A dialogue with two views, and a script with an empty node. -/
def emptyForTwo : Session :=
  { engine := .script { script := ⟨⟨[("A", [])], by simp⟩⟩, listener := some .dialogue }
    dialogue := { slots := [true, true] }
    storage := some {} }

/-- The host only starts the dialogue and stops it. -/
def Halting (_ : Session) (_ : History) (c : Call) : Prop :=
  (∃ node, c = .start node) ∨ c = .stop

/-- The first view stops the dialogue when it is told that the node has begun. -/
theorem run_emptyForTwo :
    ∃ s newer older, Run Halting emptyForTwo s
        (newer ++ .did (.tell (.view 1 (.nodeStart "A"))) :: older) ∧
      s.agenda = [] ∧ overFor 1 older = true := by
  have r : Run Halting emptyForTwo emptyForTwo [] := .refl
  have r := (r.call rfl (.start (some "A")) (.inl ⟨_, rfl⟩)).works 9
  -- the views hear that the dialogue has begun, and the first one that the node has
  have r := ((r.answer .heard rfl).works 9).answer .heard rfl
  have r := (r.works 9).call rfl .stop (.inr rfl)
  -- they hear that the dialogue is over
  have r := ((r.works 9).answer .heard rfl).works 9
  have r := (r.answer .heard rfl).works 9
  -- and the second one hears that the node has begun
  have r := ((r.answer .heard rfl).works 9).answer .heard rfl
  have r := r.works 9
  exact ⟨_, _, _, r.at_mark 8 rfl, rfl, rfl⟩

/-- A view may be told that a node begins after it has been told that the dialogue is over. -/
theorem exists_disturbed_view :
    ¬ ∀ s₀ s h, IsAttached s₀ → Run Halting s₀ s h → ∀ v, LeftAlone v h := by
  intro alone
  obtain ⟨s, newer, older, r, -, past⟩ := run_emptyForTwo
  have attached : emptyForTwo.IsAttached :=
    { agenda := rfl, handles := rfl, dialogue := rfl, engine := ⟨_, rfl⟩, held := rfl }
  have alone := alone _ s _ attached r 1 newer older _ rfl rfl
  rw [past] at alone
  cases alone

/-- It has been stirred, where another view stops the dialogue when it is told the same. -/
theorem aftermath_of_emptyForTwo :
    ∃ s h, emptyForTwo.IsFresh ∧ Run Halting emptyForTwo s h ∧ s.agenda = [] ∧
      ¬ LeftAlone 1 h ∧ Aftermath emptyForTwo s h := by
  obtain ⟨s, newer, older, r, done, past⟩ := run_emptyForTwo
  have fresh : emptyForTwo.IsFresh := ⟨rfl, rfl, rfl⟩
  refine ⟨s, _, fresh, r, done, fun alone => ?_, run_aftermath fresh rfl rfl rfl ?_ r⟩
  · have alone := alone newer older _ rfl rfl
    rw [past] at alone
    cases alone
  · rintro s h c (⟨node, rfl⟩ | rfl)
    · exact ⟨nofun, nofun⟩
    · exact ⟨nofun, nofun⟩

end Prompter.Session

import Prompter.Proofs.Session.Dispatching
import Prompter.Proofs.Session.Sequels

/-!
# Prompter.Proofs.Session.Release

Which continuations are run, and who has let go of them.

A continuation is kept until it is due: by the barrier while a line is broadcast, or by the handle
of a command. It is run as the very next thing when its keeper lets go of it, and at no other time
(`Run.released`). The barrier lets go of what it keeps at the last token that is owed, a handle when
it is resumed while its command is waited for. What a keeper has, it has got from a broadcast or
from the dispatch of its own command (`Run.kept`).

So the run of a continuation is the business of one keeper. `ran` counts the runs that may be those
of a certain handle: all but those that another keeper has let go of.
-/

namespace Prompter

namespace Session

variable {allowed : Session → History → Call → Prop} {s₀ s s' : Session} {h : History} {m : Mark}

/-! ### Who lets go of a continuation -/

/-- Who keeps a continuation until it is due. -/
inductive Keeper
  | barrier
  | handle (k : Nat)
deriving DecidableEq

/-- The continuation that a handle lets go of when it is resumed. -/
def armed? (s : Session) (k : Nat) : Option Continuation :=
  s.handles[k]?.bind fun x => if x.phase = .armed then some x.continuation else none

/-- Who lets go of a continuation when something happens to a session, and of which. -/
def released? (s : Session) : Mark → Option (Keeper × Continuation)
  | .call (.complete t) =>
    if t.generation = s.dialogue.barrier.generation ∧ s.dialogue.barrier.pending = [t.slot] then
      s.dialogue.barrier.stored.map (.barrier, ·)
    else none
  | .did (.broadcast b n _) =>
    if s.dialogue.views = [] then some (.barrier, b.continuation n) else none
  | .call (.resume k) => (s.armed? k).map (.handle k, ·)
  | .call (.resumeWhenDone k) | .did (.resumeWhenDone k) =>
    if s.runsTasks then none else (s.armed? k).map (.handle k, ·)
  | _ => none

/-- The continuation that is run at a mark. -/
def Mark.runs? : Mark → Option Continuation
  | .did (.resume x) => some x
  | _ => none

/-- Whether the last thing that has happened since `s` is that a continuation was let go of by
another keeper than the handle `own`. -/
def elsewhere (s : Session) (own : Option Nat) (x : Continuation) : History → Bool
  | [] => false
  | m :: h => ((after s h).released? m).any fun r => r.2 = x && own.map Keeper.handle ≠ some r.1

/-- How many continuations have been run since `s` that no other keeper than the handle `own` had
just let go of. -/
def ran (s : Session) (own : Option Nat) : History → Nat
  | [] => 0
  | m :: h => (m.runs?.any fun x => !elsewhere s own x h).toNat + ran s own h

/-- The continuations of the handles. -/
def continuations (s : Session) : List Continuation := s.handles.map (·.continuation)

/-- What is kept after `h` has happened to `s` was kept before, or is what it has been kept for
since then. -/
structure Kept (s : Session) (h : History) : Prop where
  /-- The barrier keeps the continuation of a broadcast. -/
  barrier : ∀ x, (after s h).dialogue.barrier.stored = some x →
    s.dialogue.barrier.stored = some x ∨
      ∃ b n line, .did (.broadcast b n line) ∈ h ∧ x = b.continuation n
  /-- A handle keeps the continuation with which its command was dispatched. -/
  handles : ∀ (k : Nat) (x : Continuation), (after s h).continuations[k]? = some x →
    s.continuations[k]? = some x ∨ ∃ newer m older c kont use, h = newer ++ m :: older ∧
      Begins m c kont use ∧ ((after s older).dispatching m).handleFor c = some k ∧ x = kont k

section

variable {k : Nat} {x : Continuation}

theorem released?_of_resume (resumes : isResume s.runsTasks k m = true) :
    s.released? m = (s.armed? k).map (.handle k, ·) := by
  unfold isResume at resumes
  split at resumes
  · obtain rfl := eq_of_beq resumes
    rfl
  · obtain ⟨idle, rfl⟩ : s.runsTasks = false ∧ _ = k := by simpa using resumes
    simp [released?, idle]
  · obtain ⟨idle, rfl⟩ : s.runsTasks = false ∧ _ = k := by simpa using resumes
    simp [released?, idle]
  · cases resumes

/-- A handle lets go of nothing unless it is resumed. -/
theorem isResume_of_released? (released : s.released? m = some (.handle k, x)) :
    isResume s.runsTasks k m = true := by
  unfold released? at released
  split at released
  · split at released
    · simp at released
    · cases released
  · split at released
    · simp at released
    · cases released
  · simp_all [isResume]
  · split at released
    · cases released
    · simp_all [isResume]
  · split at released
    · cases released
    · simp_all [isResume]
  · cases released

/-- A handle whose command is waited for stays as it is until it is resumed. -/
theorem Happens.keeps_armed (happens : Happens s m s') {y : ResumeHandle Continuation}
    (hy : s.handles[k]? = some y) (armed : y.phase = .armed)
    (quiet : isResume s.runsTasks k m = false) : s'.handles[k]? = some y := by
  obtain ⟨hk, -⟩ := List.getElem?_eq_some_iff.1 hy
  by_cases looked : ∃ name use, m = .did (.afterCall name k use)
  · obtain ⟨name, use, rfl⟩ := looked
    obtain ⟨rest, -, rfl⟩ := happens.top
    have works := work_works { s with agenda := rest } (.afterCall name k use)
    generalize ({ s with agenda := rest } : Session).work (.afterCall name k use) = p at works ⊢
    cases works with
    | idle => exact hy
    | afterCall _ _ hx =>
      obtain rfl := Option.some.inj (hx.symm.trans hy)
      simp [push, ResumeHandle.arm, armed, hk]
  · rw [happens.keeps hk quiet fun name use same => looked ⟨name, use, same⟩, hy]

/-- A continuation that is put on the agenda has just been let go of. -/
theorem Happens.released (happens : Happens s m s')
    (prompt : ∀ i ∈ s.agenda.tail, i.isPrompt = false) (due : .resume x ∈ s'.agenda) :
    ∃ keeper, s.released? m = some (keeper, x) := by
  obtain ⟨rest, special, takes, change, puts, -⟩ := happens.move
  have new : .resume x ∈ special := by
    rcases (puts.mem_iff rfl).1 due with new | old
    · exact new
    · have waits := takes.forall_rest (fun _ => isPrompt_of_callsHost) prompt _ old
      cases waits
  have handles : s'.ledger.handles = s'.handles := rfl
  generalize s'.ledger.handles = hs' at change handles
  generalize s'.ledger.dialogue = d' at change
  cases change with
  | immediate b n line empty =>
    obtain rfl := Item.resume.inj (List.mem_singleton.1 new)
    exact ⟨.barrier, if_pos empty⟩
  | last t current sole =>
    obtain ⟨y, stored, same⟩ := mem_resumption.1 new
    cases same
    refine ⟨.barrier, (if_pos ⟨current, sole⟩).trans ?_⟩
    rw [show s.dialogue.barrier.stored = some x from stored]
    rfl
  | resumed quiet k y hy =>
    obtain ⟨z, forwarded, same⟩ := mem_resumption.1 new
    cases same
    have hy : s.handles[k]? = some y := hy
    obtain ⟨armed, finished, lets⟩ | ⟨-, nothing⟩ := y.resume_cases
    · obtain rfl : x = y.continuation := Option.some.inj (forwarded.symm.trans lets)
      have resumes : isResume s.runsTasks k m = true := by
        -- only a resume finishes an armed handle
        cases resumes : isResume s.runsTasks k m with
        | true => rfl
        | false =>
          have stays := happens.keeps_armed hy armed resumes
          obtain ⟨hk, -⟩ := List.getElem?_eq_some_iff.1 hy
          rw [← handles, ledger, List.getElem?_set_self hk] at stays
          rw [Option.some.inj stays, armed] at finished
          cases finished
      refine ⟨.handle k, ?_⟩
      rw [released?_of_resume resumes]
      simp [armed?, hy, armed]
    · rw [nothing] at forwarded
      cases forwarded
  | _ => simp at new

theorem Dispatches.continuations {c : Command} {kont : Nat → Continuation} {use : OutcomeUse}
    {p : Progress} (dispatches : Dispatches s c kont use p) :
    p.1.continuations = s.continuations ∨ ∃ k, s.handleFor c = some k ∧
      p.1.continuations = s.continuations ++ [kont k] := by
  cases dispatches with
  | pausingHandler means pauses | pausingMethod means pauses =>
    refine .inr ⟨s.handles.length, ?_, ?_⟩
    · simp [handleFor, means, Resolution.mayPause, pauses]
    · simp [Session.continuations, push, ResumeHandle.fresh]
  | _ => exact .inl rfl

theorem continuations_set {hs : List (ResumeHandle Continuation)} {y z : ResumeHandle Continuation}
    (hy : hs[k]? = some y) (same : z.continuation = y.continuation) :
    (hs.set k z).map (·.continuation) = hs.map (·.continuation) := by
  refine List.ext_getElem? fun i => ?_
  rw [List.getElem?_map, List.getElem?_map]
  by_cases hi : k = i
  · subst hi
    obtain ⟨hk, -⟩ := List.getElem?_eq_some_iff.1 hy
    rw [List.getElem?_set_self hk, hy, Option.map_some, Option.map_some, same]
  · rw [List.getElem?_set_ne hi]

theorem Unpauses.continuations {p : Progress} (unpauses : Unpauses s k p) :
    p.1.continuations = s.continuations := by
  cases unpauses with
  | unknown => rfl
  | resumed hy => exact continuations_set hy (ResumeHandle.resume_continuation _)

theorem Spawns.continuations {p : Progress} (spawns : Spawns s k p) :
    p.1.continuations = s.continuations := by
  cases spawns with
  | spawned => rfl
  | resumes _ unpauses => exact unpauses.continuations

/-- A handle has its continuation from the dispatch that has made it. -/
theorem Happens.continuations (happens : Happens s m s') :
    s'.continuations = s.continuations ∨ ∃ c kont use k, Begins m c kont use ∧
      (s.dispatching m).handleFor c = some k ∧ s'.continuations = s.continuations ++ [kont k] := by
  cases happens with
  | answer a => exact .inl (congrArg (List.map _) (s.answer_handles a))
  | @work busy i rest top =>
    rw [step_eq_work busy top]
    have works := work_works { s with agenda := rest } i
    generalize ({ s with agenda := rest } : Session).work i = p at works
    cases works with
    | @command r c _ dispatches =>
      rcases dispatches.continuations with same | ⟨k, hk, more⟩
      · exact .inl same
      · exact .inr ⟨c, .commandDone, .event r, k, .event r c, hk, more⟩
    | chooseOption n chooses => exact .inl (by cases chooses <;> rfl)
    | conclude concludes | outcomeOf _ concludes =>
      exact .inl (congrArg (List.map _) concludes.handles)
    | afterCall name use hy =>
      exact .inl (continuations_set hy (ResumeHandle.arm_continuation _))
    | resumeWhenDone spawns => exact .inl spawns.continuations
    | _ => exact .inl rfl
  | call word c =>
    have requests := call_requests s c
    generalize s.call c = p at requests
    cases requests with
    | resume unpauses => exact .inl unpauses.continuations
    | resumeWhenDone spawns => exact .inl spawns.continuations
    | @dispatch c key _ dispatches =>
      rcases dispatches.continuations with same | ⟨k, hk, more⟩
      · exact .inl same
      · exact .inr ⟨c, fun _ => .host key, .reply, k, .request c key, hk, more⟩
    | chooseOption chooses => exact .inl (by cases chooses <;> rfl)
    | _ => exact .inl rfl

/-- What a handle has it had before, or it is the handle of a command that is dispatched now. -/
theorem Happens.given (happens : Happens s m s') (has : s'.continuations[k]? = some x) :
    s.continuations[k]? = some x ∨ ∃ c kont use, Begins m c kont use ∧
      (s.dispatching m).handleFor c = some k ∧ x = kont k := by
  rcases happens.continuations with same | ⟨c, kont, use, k', begins, hk', more⟩
  · exact .inl (same ▸ has)
  · rw [more] at has
    rcases Nat.lt_or_ge k s.continuations.length with old | new
    · rw [List.getElem?_append_left old] at has
      exact .inl has
    · rw [List.getElem?_append_right new] at has
      obtain ⟨bound, same⟩ := List.getElem?_eq_some_iff.1 has
      have last : k' = s.continuations.length := by
        obtain ⟨same, -⟩ := dispatch_of_handle (s.dispatching m) c kont use hk'
        rw [same, Session.continuations, List.length_map]
        rfl
      obtain rfl : k' = k := by
        rw [List.length_singleton] at bound
        omega
      exact .inr ⟨c, kont, use, begins, hk', same.symm.trans (List.getElem_singleton ..)⟩

/-- Before a continuation is let go of, it is with its keeper. -/
theorem continuations_of_released? (released : s.released? m = some (.handle k, x)) :
    s.continuations[k]? = some x := by
  rw [released?_of_resume (isResume_of_released? released)] at released
  obtain ⟨y, armed, same⟩ := Option.map_eq_some_iff.1 released
  obtain rfl : y = x := congrArg Prod.snd same
  obtain ⟨z, hz, has⟩ := Option.bind_eq_some_iff.1 armed
  split at has
  · rw [Session.continuations, List.getElem?_map, hz, Option.map_some, Option.some.inj has]
  · cases has

theorem stored_of_released? (released : s.released? m = some (.barrier, x)) :
    s.dialogue.barrier.stored = some x ∨ ∃ b n line, m = .did (.broadcast b n line) ∧
      x = LineBroadcast.continuation b n := by
  unfold released? at released
  split at released
  · split at released
    · obtain ⟨y, stored, same⟩ := Option.map_eq_some_iff.1 released
      obtain rfl : y = x := congrArg Prod.snd same
      exact .inl stored
    · cases released
  · next b n line =>
    split at released
    · exact .inr ⟨b, n, line, rfl, (congrArg Prod.snd (Option.some.inj released)).symm⟩
    · cases released
  · simp at released
  · split at released <;> simp at released
  · split at released <;> simp at released
  · cases released

/-- In every run a continuation is kept only by those it has been given to. -/
theorem Run.kept (r : Run allowed s₀ s h) : Kept s₀ h := by
  induction h generalizing s with
  | nil => exact ⟨fun x stored => .inl stored, fun k x has => .inl has⟩
  | cons m h ih =>
    obtain ⟨s₁, r₁, happens⟩ := r.last
    have known := ih r₁
    have before : after s₀ h = s₁ := r₁.after_eq
    refine ⟨fun x stored => ?_, fun k x has => ?_⟩
    · obtain ⟨items, rest, -, post, -⟩ := happens.posts
      rw [r.after_eq] at stored
      rcases post.stored stored with old | ⟨b, n, line, rfl, rfl⟩
      · refine (known.barrier x (before ▸ old)).imp_right ?_
        intro ⟨b, n, line, begun, same⟩
        exact ⟨b, n, line, List.mem_cons_of_mem m begun, same⟩
      · exact .inr ⟨b, n, line, List.mem_cons_self, rfl⟩
    · rw [r.after_eq] at has
      rcases happens.given has with old | ⟨c, kont, use, begins, hk, same⟩
      · refine (known.handles k x (before ▸ old)).imp_right ?_
        intro ⟨newer, m', older, c, kont, use, parts, begins, hk, same⟩
        exact ⟨m :: newer, m', older, c, kont, use, congrArg (m :: ·) parts, begins, hk, same⟩
      · exact .inr ⟨[], m, h, c, kont, use, rfl, begins, before ▸ hk, same⟩

end

/-- Whenever a continuation is run, it has just been let go of. -/
theorem Run.released (idle : s₀.agenda = []) {newer older : History} {x : Continuation}
    (r : Run allowed s₀ s (newer ++ .did (.resume x) :: older)) :
    ∃ m before keeper, older = m :: before ∧ (after s₀ before).released? m = some (keeper, x) := by
  obtain ⟨s₁, rest, r₁, top⟩ := r.before_did
  cases older with
  | nil =>
    cases r₁
    rw [idle] at top
    cases top
  | cons m before =>
    obtain ⟨s₂, r₂, happens⟩ := r₁.last
    obtain ⟨keeper, released⟩ := happens.released (r₂.prompt idle) (top ▸ List.mem_cons_self)
    exact ⟨m, before, keeper, rfl, r₂.after_eq ▸ released⟩

/-! ### The continuations that are run -/

section

variable {b : Session} {own : Option Nat}

/-- What is due is the business of another keeper than the handle `own`. -/
def Calm (b : Session) (own : Option Nat) (s : Session) (h : History) : Prop :=
  ∀ x, s.agenda.head? = some (.resume x) → elsewhere b own x h = true

theorem ran_of_other (other : m.runs? = none) : ran b own (m :: h) = ran b own h := by
  rw [ran, other]
  exact Nat.zero_add _

theorem Happens.ran_eq (happens : Happens s m s') (calm : Calm b own s h) :
    ran b own (m :: h) = ran b own h := by
  cases hm : m.runs? with
  | none => exact ran_of_other hm
  | some x =>
    obtain rfl : m = .did (.resume x) := by
      unfold Mark.runs? at hm
      split at hm
      · rw [Option.some.inj hm]
      · cases hm
    obtain ⟨rest, top, -⟩ := happens.top
    rw [ran, hm, Option.any_some, calm x (by rw [top]; rfl)]
    exact Nat.zero_add _

theorem not_elsewhere {k : Nat} {x y : Continuation} (at_ : after b h = s)
    (released : s.released? m = some (.handle k, y)) :
    elsewhere b (some k) x (m :: h) = false := by
  rw [elsewhere, at_, released]
  simp

/-- Nothing of its own is due unless the handle `own` has just let go of it. -/
theorem Happens.calm (happens : Happens s m s') (prompt : ∀ i ∈ s.agenda.tail, i.isPrompt = false)
    (at_ : after b h = s) (holds : ∀ k ∈ own, ∀ x, s.released? m ≠ some (.handle k, x)) :
    Calm b own s' (m :: h) := by
  intro x top
  obtain ⟨keeper, released⟩ := happens.released prompt (List.mem_of_mem_head? top)
  have other : own.map Keeper.handle ≠ some keeper := by
    intro same
    obtain ⟨k, hk, rfl⟩ := Option.map_eq_some_iff.1 same
    exact holds k hk x released
  rw [elsewhere, at_, released, Option.any_some, decide_eq_true rfl]
  exact decide_eq_true other

variable {k : Nat}

/-- A handle that is not resumed keeps what it has. -/
theorem Happens.calm_of_quiet (happens : Happens s m s')
    (prompt : ∀ i ∈ s.agenda.tail, i.isPrompt = false) (at_ : after b h = s)
    (quiet : isResume s.runsTasks k m = false) : Calm b (some k) s' (m :: h) := by
  refine happens.calm prompt at_ ?_
  intro k' same x released
  obtain rfl := Option.some.inj same
  rw [isResume_of_released? released] at quiet
  cases quiet

/-- A handle lets go of nothing while its command is not waited for. -/
theorem Happens.calm_of_phase (happens : Happens s m s')
    (prompt : ∀ i ∈ s.agenda.tail, i.isPrompt = false) (at_ : after b h = s)
    {y : ResumeHandle Continuation} (hy : s.handles[k]? = some y) (unarmed : y.phase ≠ .armed) :
    Calm b (some k) s' (m :: h) := by
  refine happens.calm prompt at_ ?_
  intro k' same x released
  obtain rfl := Option.some.inj same
  rw [released?_of_resume (isResume_of_released? released)] at released
  simp [armed?, hy, unarmed] at released

end

end Session

end Prompter

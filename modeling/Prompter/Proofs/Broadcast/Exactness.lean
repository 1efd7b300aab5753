import Prompter.Proofs.Broadcast.Run

/-!
# Prompter.Proofs.Broadcast.Exactness

A barrier waits for exactly those who owe it a completion, and a continuation runs exactly once,
exactly when it is due.

The invariant is `Faithful`: the books of the barrier are the ones that the history prescribes, and
a continuation stands on the agenda only as its first item, exactly when the newest event has made
it due. Each operation keeps it, whatever the host does from inside a consumer or a continuation:
while the host has the word no continuation is on the agenda, so an operation can put one on top
and never bury another.
-/

namespace Prompter.Broadcasts

variable {κ : Type} {b : Broadcasts κ} {h : History κ}

/-! ### What the operations do -/

@[simp] theorem start_barrier (b : Broadcasts κ) (slots : List Bool) (k : κ) :
    (b.start slots k).1.barrier = (b.barrier.start slots k).1 := rfl

@[simp] theorem complete_barrier (b : Broadcasts κ) (t : Token) :
    (b.complete t).1.barrier = (b.barrier.complete t).1 := rfl

@[simp] theorem complete_agenda (b : Broadcasts κ) (t : Token) :
    (b.complete t).1.agenda =
      ((b.barrier.complete t).2.1.map (.resume t.generation)).toList ++ b.agenda := rfl

@[simp] theorem cancel_agenda (b : Broadcasts κ) : b.cancel.1.agenda = b.agenda := rfl

/-- A started broadcast goes to its consumers, or to its continuation if there are none. -/
theorem start_agenda (b : Broadcasts κ) (slots : List Bool) (k : κ) :
    (b.start slots k).1.agenda =
      (if presentFrom 0 slots = [] then .resume (b.barrier.generation + 1) k
        else .rest (b.barrier.generation + 1) (presentFrom 0 slots)) :: b.agenda := by
  simp only [start]
  obtain ⟨he, h1, h2⟩ | ⟨he, -, h2⟩ := b.barrier.start_cases slots k
  · rw [h2, if_pos he, h1]
  · rw [h2, if_neg he]

/-- The host's return takes the call off the agenda. -/
theorem answer_agenda {i : BroadcastItem κ} {rest : List (BroadcastItem κ)}
    (word : b.awaitsHost = true) (top : b.agenda = i :: rest) :
    b.answer.barrier = b.barrier ∧ b.answer.agenda = rest := by
  cases i <;> simp [awaitsHost, top] at word <;> simp [answer, top]

/-- A step does the first item; it leaves the barrier alone and puts no continuation on the
agenda. -/
theorem step_agenda {i : BroadcastItem κ} {rest : List (BroadcastItem κ)}
    (busy : b.awaitsHost = false) (top : b.agenda = i :: rest) :
    b.step.1.barrier = b.barrier ∧
      ∃ items : List (BroadcastItem κ), b.step.1.agenda = items ++ rest ∧
        ∀ g k, .resume g k ∉ items := by
  cases i with
  | rest g slots =>
    simp only [step, top]
    cases b.barrier.nextCall g slots with
    | call t slots => exact ⟨rfl, [.consume t, .rest g slots], rfl, by simp⟩
    | superseded r => exact ⟨rfl, [], rfl, by simp⟩
    | finished => exact ⟨rfl, [], rfl, by simp⟩
  | consume t => exact ⟨by simp [step, top], [.consuming t], by simp [step, top], by simp⟩
  | resume g k => exact ⟨by simp [step, top], [.resuming k], by simp [step, top], by simp⟩
  | consuming t => simp [awaitsHost, top] at busy
  | resuming k => simp [awaitsHost, top] at busy

/-! ### The invariant -/

/-- The barrier knows what the history says, and has to run a continuation when one is due. -/
structure Faithful (b : Broadcasts κ) (h : History κ) : Prop where
  generation : b.barrier.generation = generation h
  pending : b.barrier.pending = outstanding h
  stored : b.barrier.stored = if outstanding h = [] then none else (current h).map (·.2)
  next : ∀ g k, b.agenda.head? = some (.resume g k) ↔ Due h g k
  tail : ∀ g k, .resume g k ∉ b.agenda.tail

namespace Faithful

theorem fresh : Faithful ({} : Broadcasts κ) [] where
  generation := rfl
  pending := rfl
  stored := rfl
  next g k := by simp [Due]
  tail g k := by simp

/-- While the host has the word no continuation waits to be run. -/
theorem not_mem (f : Faithful b h) (word : b.awaitsHost = true) (g : Nat) (k : κ) :
    .resume g k ∉ b.agenda := by
  have ht := f.tail g k
  cases ha : b.agenda with
  | nil => exact List.not_mem_nil
  | cons i rest =>
    rw [ha] at ht
    intro hm
    rcases List.mem_cons.1 hm with rfl | hm
    · simp [awaitsHost, ha] at word
    · exact ht hm

theorem head_ne (f : Faithful b h) (word : b.awaitsHost = true) (g : Nat) (k : κ) :
    b.agenda.head? ≠ some (.resume g k) :=
  fun hh => f.not_mem word g k (List.mem_of_mem_head? hh)

theorem start (f : Faithful b h) (word : b.awaitsHost = true) (slots : List Bool) (k : κ) :
    Faithful (b.start slots k).1 (.started slots k :: h) := by
  have hc := b.barrier.start_cases slots k
  refine ⟨?_, ?_, ?_, fun g k' => ?_, fun g k' => ?_⟩
  · rcases hc with ⟨-, h1, -⟩ | ⟨-, h1, -⟩ <;>
      simp [h1, Broadcasts.generation, f.generation]
  · rcases hc with ⟨he, h1, -⟩ | ⟨-, h1, -⟩
    · simp [h1, he]
    · simp [h1]
  · rcases hc with ⟨he, h1, -⟩ | ⟨he, h1, -⟩
    · simp [h1, he]
    · simp [h1, he, current]
  · rw [start_agenda, f.generation]
    by_cases he : presentFrom 0 slots = []
    · rw [if_pos he]
      simp only [List.head?_cons, Option.some.injEq, BroadcastItem.resume.injEq, Due, he, true_and]
      exact and_congr eq_comm eq_comm
    · simp [Due, he]
  · rw [start_agenda]
    exact f.not_mem word g k'

theorem cancel (f : Faithful b h) (word : b.awaitsHost = true) :
    Faithful b.cancel.1 (.cancelled :: h) where
  generation := congrArg (· + 1) f.generation
  pending := rfl
  stored := rfl
  next g k := ⟨fun hh => absurd hh (f.head_ne word g k), False.elim⟩
  tail := f.tail

theorem complete (f : Faithful b h) (word : b.awaitsHost = true) (t : Token) :
    Faithful (b.complete t).1 (.completed t :: h) := by
  have hcur : current (.completed t :: h) = current h := rfl
  have ht := f.not_mem word
  obtain ⟨hn, h1, h2⟩ | ⟨⟨hg, hm⟩, he, h1, h2⟩ | ⟨⟨hg, hm⟩, he, h1, h2⟩ :=
    b.barrier.complete_cases t
  · -- the token completes into nothing
    rw [f.generation, f.pending] at hn
    have ho : outstanding (.completed t :: h) = outstanding h := by
      rw [outstanding_completed]
      by_cases hg : t.generation = Broadcasts.generation h
      · rw [if_pos hg, List.erase_of_not_mem fun hm => hn ⟨hg, hm⟩]
      · rw [if_neg hg]
    refine ⟨?_, ?_, ?_, fun g k => ?_, fun g k => ?_⟩
    · rw [complete_barrier, h1]; exact f.generation
    · rw [complete_barrier, h1, ho]; exact f.pending
    · rw [complete_barrier, h1, ho, hcur]; exact f.stored
    · rw [complete_agenda, h2]
      refine ⟨fun hh => absurd hh (f.head_ne word g k), fun d => absurd ?_ hn⟩
      exact ⟨d.1.trans d.2.1.symm, by rw [d.2.2.1]; exact List.mem_singleton_self _⟩
    · rw [complete_agenda, h2]; exact f.tail g k
  · -- others still owe theirs
    rw [f.generation] at hg
    rw [f.pending] at hm he h1
    have ho : outstanding (.completed t :: h) = (outstanding h).erase t.slot := by
      rw [outstanding_completed, if_pos hg]
    have hne : outstanding h ≠ [] := List.ne_nil_of_mem hm
    refine ⟨?_, ?_, ?_, fun g k => ?_, fun g k => ?_⟩
    · rw [complete_barrier, h1]; exact f.generation
    · rw [complete_barrier, h1, ho]
    · rw [complete_barrier, h1, ho, if_neg he, hcur, f.stored, if_neg hne]
    · rw [complete_agenda, h2]
      refine ⟨fun hh => absurd hh (f.head_ne word g k), fun d => absurd ?_ he⟩
      rw [d.2.2.1]; simp
    · rw [complete_agenda, h2]; exact f.tail g k
  · -- the last one: the continuation comes back
    rw [f.generation] at hg
    rw [f.pending] at hm he
    have ho : outstanding (.completed t :: h) = [] := by
      rw [outstanding_completed, if_pos hg, he]
    have hne : outstanding h ≠ [] := List.ne_nil_of_mem hm
    have hlast : outstanding h = [t.slot] := by
      have hp := List.perm_cons_erase hm
      rw [he] at hp
      exact List.perm_singleton.1 hp
    rw [f.stored, if_neg hne] at h2
    refine ⟨?_, ?_, ?_, fun g k => ?_, fun g k => ?_⟩
    · rw [complete_barrier, h1]; exact f.generation
    · rw [complete_barrier, h1, ho]
    · rw [complete_barrier, h1, ho, if_pos rfl]
    · rw [complete_agenda, h2]
      cases hk : (current h).map (·.2) with
      | none => simp [Due, hk, f.head_ne word]
      | some k' =>
        simp only [Option.map_some, Option.toList_some, List.cons_append, List.nil_append,
          List.head?_cons, Option.some.injEq, BroadcastItem.resume.injEq, Due, hk, hlast, true_and]
        exact ⟨fun hh => ⟨hh.1, hg ▸ hh.1, hh.2⟩, fun hh => ⟨hh.1, hh.2.2⟩⟩
    · rw [complete_agenda, h2]
      cases (current h).map (·.2) with
      | none => exact f.tail g k
      | some k' => exact ht g k

theorem answer (f : Faithful b h) (word : b.awaitsHost = true) (called : b.agenda ≠ []) :
    Faithful b.answer (.answered :: h) := by
  obtain ⟨i, rest, top⟩ := List.exists_cons_of_ne_nil called
  obtain ⟨hb, ha⟩ := answer_agenda word top
  have hn : ∀ g k, .resume g k ∉ rest := fun g k => by simpa [top] using f.tail g k
  exact
    { generation := by rw [hb]; exact f.generation
      pending := by rw [hb]; exact f.pending
      stored := by rw [hb]; exact f.stored
      next := fun g k => by
        rw [ha]
        exact ⟨fun hh => absurd (List.mem_of_mem_head? hh) (hn g k), False.elim⟩
      tail := fun g k => by
        rw [ha]
        exact fun hm => hn g k (List.mem_of_mem_tail hm) }

theorem step (f : Faithful b h) (busy : b.awaitsHost = false) {i : BroadcastItem κ}
    {rest : List (BroadcastItem κ)} (top : b.agenda = i :: rest) :
    Faithful b.step.1 (.did i :: h) := by
  obtain ⟨hb, items, ha, hi⟩ := step_agenda busy top
  have hn : ∀ g k, .resume g k ∉ items ++ rest := fun g k hm =>
    (List.mem_append.1 hm).elim (hi g k) (by simpa [top] using f.tail g k)
  exact
    { generation := by rw [hb]; exact f.generation
      pending := by rw [hb]; exact f.pending
      stored := by rw [hb]; exact f.stored
      next := fun g k => by
        rw [ha]
        exact ⟨fun hh => absurd (List.mem_of_mem_head? hh) (hn g k), False.elim⟩
      tail := fun g k => by
        rw [ha]
        exact fun hm => hn g k (List.mem_of_mem_tail hm) }

end Faithful

/-- The barrier is faithful to its history throughout every run. -/
theorem Run.faithful (r : Run b h) : Faithful b h := by
  induction r with
  | fresh => exact .fresh
  | start _ word slots k ih => exact ih.start word slots k
  | cancel _ word ih => exact ih.cancel word
  | complete _ word t ih => exact ih.complete word t
  | answer _ word called ih => exact ih.answer word called
  | step _ busy top ih => exact ih.step busy top

/-! ### Once -/

/-- Whether a mark is that of the continuation of a generation being run. -/
def Mark.runs (g : Nat) : Mark κ → Bool
  | .did (.resume g' _) => g' = g
  | _ => false

/-- A step that runs a continuation does so when it is due. -/
theorem Run.due_of_top (r : Run b h) {g : Nat} {k : κ} {rest : List (BroadcastItem κ)}
    (top : b.agenda = .resume g k :: rest) : Due h g k := by
  refine (r.faithful.next g k).1 ?_
  rw [top, List.head?_cons]

/-- After the continuation of the current generation has been run nobody owes a completion. -/
theorem Run.outstanding_of_ran (r : Run b h) {g : Nat} {k : κ} (hm : .did (.resume g k) ∈ h) :
    g ≤ generation h ∧ (g = generation h → outstanding h = []) := by
  induction r with
  | fresh => exact absurd hm List.not_mem_nil
  | start _ _ slots k' ih =>
    have hg := (ih (by simpa using hm)).1
    simp only [Broadcasts.generation]
    omega
  | cancel _ _ ih =>
    have hg := (ih (by simpa using hm)).1
    simp only [Broadcasts.generation]
    omega
  | @complete b h _ _ t ih =>
    have hp := ih (by simpa using hm)
    refine ⟨hp.1, fun hg => ?_⟩
    rw [outstanding_completed, hp.2 hg]
    simp
  | answer _ _ _ ih => exact ih (by simpa using hm)
  | @step b h r _ i rest top ih =>
    rcases List.mem_cons.1 hm with hi | hm
    · obtain rfl : .resume g k = i := by simpa using hi
      have d := r.due_of_top top
      exact ⟨Nat.le_of_eq d.generation_eq.symm, fun _ => d.outstanding_eq_nil⟩
    · exact ih hm

/-- A continuation that is due has not been run before. -/
theorem Run.not_ran_of_due (r : Run b h) {g : Nat} {k : κ} (d : Due h g k) :
    h.countP (Mark.runs g) = 0 := by
  rw [List.countP_eq_zero]
  intro m hm hr
  obtain ⟨k', rfl⟩ : ∃ k', m = .did (.resume g k') := by
    unfold Mark.runs at hr
    split at hr
    · exact ⟨_, by rw [of_decide_eq_true hr]⟩
    · cases hr
  cases r with
  | fresh => exact List.not_mem_nil hm
  | start r _ slots k'' =>
    -- the generation is new
    have hg := (r.outstanding_of_ran (g := g) (k := k') (by simpa using hm)).1
    have := d.2.1
    omega
  | complete r _ t =>
    -- somebody still owed a completion
    have hp := (r.outstanding_of_ran (g := g) (k := k') (by simpa using hm)).2 d.2.1.symm
    rw [d.2.2.1] at hp
    cases hp
  | cancel => exact d
  | answer => exact d
  | step => exact d

/-- The continuation of a broadcast is run at most once. -/
theorem Run.countP_runs_le_one (r : Run b h) (g : Nat) : h.countP (Mark.runs g) ≤ 1 := by
  induction r with
  | fresh => simp
  | start _ _ _ _ ih => simpa [Mark.runs] using ih
  | cancel _ _ ih => simpa [Mark.runs] using ih
  | complete _ _ _ ih => simpa [Mark.runs] using ih
  | answer _ _ _ ih => simpa [Mark.runs] using ih
  | @step b h r _ i rest top ih =>
    by_cases hi : Mark.runs g (.did i) = true
    · obtain ⟨k, rfl⟩ : ∃ k, i = .resume g k := by
        cases i with
        | resume g' k => exact ⟨k, by rw [of_decide_eq_true hi]⟩
        | rest | consume | consuming | resuming => cases hi
      have hz := r.not_ran_of_due (r.due_of_top top)
      rw [List.countP_cons_of_pos hi]
      omega
    · rwa [List.countP_cons_of_neg hi]

/-! ### Exactness -/

/-- What holds of a barrier at work after everything that can happen to it. -/
structure Exact (b : Broadcasts κ) (h : History κ) : Prop where
  /-- Those are pending who are present and have not completed; nobody is after a cancellation. -/
  pending : b.barrier.pending = outstanding h
  /-- A continuation is stored as long as somebody is pending. -/
  stored : b.barrier.stored.isSome ↔ b.barrier.pending ≠ []
  /-- A continuation is next exactly when the newest event was the last completion of its broadcast,
  or its start with nobody present. -/
  next : ∀ g k, b.agenda.head? = some (.resume g k) ↔ Due h g k
  /-- The host runs a continuation as soon as it is due. -/
  run : ∀ g k, Due h g k → b.step.1.agenda.head? = some (.resuming k)
  /-- Whatever continuation was run was due then, and its generation was the current one. -/
  ran : ∀ newer older g k, h = newer ++ .did (.resume g k) :: older →
    Due older g k ∧ generation older = g
  /-- No continuation was run twice. -/
  once : ∀ g, h.countP (Mark.runs g) ≤ 1
  /-- A token of an older generation completes into nothing. -/
  stale : ∀ t : Token, t.generation < generation h → (b.complete t).1 = b

/-- A barrier at work is exact, whatever its host does and wherever it does it. -/
theorem run_exact (r : Run b h) : Exact b h where
  pending := r.faithful.pending
  stored := by
    rw [r.faithful.stored, r.faithful.pending]
    by_cases ho : outstanding h = []
    · simp [ho]
    · obtain ⟨c, hc⟩ : ∃ c, current h = some c := by
        cases hc : current h with
        | none => exact absurd (by simp [outstanding, hc]) ho
        | some c => exact ⟨c, rfl⟩
      simp [ho, hc]
  next := r.faithful.next
  run g k d := by
    have hh := (r.faithful.next g k).2 d
    obtain ⟨rest, top⟩ : ∃ rest, b.agenda = .resume g k :: rest := by
      cases ha : b.agenda with
      | nil => simp [ha] at hh
      | cons i rest => exact ⟨rest, by simpa [ha] using hh⟩
    simp [Broadcasts.step, top]
  ran newer older g k hsplit := by
    subst hsplit
    obtain ⟨b', rest, r', top⟩ := r.before_did
    have d := r'.due_of_top top
    exact ⟨d, d.generation_eq⟩
  once := r.countP_runs_le_one
  stale t ht := by
    obtain ⟨-, h1, h2⟩ | ⟨⟨hg, -⟩, -⟩ | ⟨⟨hg, -⟩, -⟩ := b.barrier.complete_cases t
    · simp [complete, h1, h2]
    · rw [r.faithful.generation] at hg; omega
    · rw [r.faithful.generation] at hg; omega

/-- The first consumer of a broadcast starts another one, for nobody; the older one gives up. -/
theorem exact_of_nested_broadcasts :
    ∃ (b : Broadcasts String) (h : History String),
      Run b h ∧ b.agenda = [] ∧ .did (.resume 2 "inner") ∈ h ∧ Exact b h := by
  have r := Run.fresh.start rfl [true, false, true] "outer"
  have r := (r.step rfl rfl).step rfl rfl
  have r := (r.start rfl [false] "inner").step rfl rfl
  have r := (r.complete rfl ⟨1, 0⟩).answer rfl (by decide)
  have r := (r.answer rfl (by decide)).step rfl rfl
  refine ⟨_, _, r, rfl, ?_, run_exact r⟩
  -- it is the fifth mark, counted from the newest
  exact List.mem_of_getElem? (i := 4) rfl

end Prompter.Broadcasts

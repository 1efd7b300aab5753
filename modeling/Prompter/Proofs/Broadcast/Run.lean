import Prompter.Broadcast

/-!
# Prompter.Proofs.Broadcast.Run

What can happen to a barrier at work, and what a history of it says that the barrier should know.

A history lists what the host did and the items of the agenda that were done, the newest first. It
needs no barrier to tell which broadcast is under way (`current`), who has completed a token of it
(`completions`) and who still owes one (`outstanding`). `Due` says when a continuation has to run:
right after the last completion that its broadcast was waiting for, or right after a start with
nobody present.

`Run` relates the states that a fresh barrier can get to with their histories. The host may start,
cancel and complete whenever it has the word, also while a consumer or a continuation is running,
and it may complete any token, in any order and more than once.
-/

namespace Prompter.Broadcasts

variable {κ : Type}

/-! ### Histories -/

/-- Something that happens to a barrier at work. -/
inductive Mark (κ : Type)
  /-- The host starts a broadcast. -/
  | started (slots : List Bool) (k : κ)
  /-- The host gives up the current broadcast. -/
  | cancelled
  /-- The host completes a token. -/
  | completed (t : Token)
  /-- The host returns from a call. -/
  | answered
  /-- An item is taken off the agenda and done. -/
  | did (i : BroadcastItem κ)

/-- What has happened, the newest first. -/
abbrev History (κ : Type) := List (Mark κ)

/-- How many broadcasts and cancellations have begun. -/
def generation : History κ → Nat
  | [] => 0
  | .started _ _ :: h | .cancelled :: h => generation h + 1
  | .completed _ :: h | .answered :: h | .did _ :: h => generation h

/-- The broadcast under way: who is present and what is to happen in the end. -/
def current : History κ → Option (List Nat × κ)
  | [] | .cancelled :: _ => none
  | .started slots k :: _ => some (presentFrom 0 slots, k)
  | .completed _ :: h | .answered :: h | .did _ :: h => current h

/-- The slots that have completed a token of the current generation since it began. -/
def completions : History κ → List Nat
  | [] | .started _ _ :: _ | .cancelled :: _ => []
  | .completed t :: h =>
    if t.generation = generation h then t.slot :: completions h else completions h
  | .answered :: h | .did _ :: h => completions h

/-- The present slots of the broadcast under way that have not completed their tokens. -/
def outstanding (h : History κ) : List Nat :=
  match current h with
  | none => []
  | some (present, _) => present.filter (· ∉ completions h)

/-- Whether the newest event makes the continuation of a generation due. -/
def Due : History κ → Nat → κ → Prop
  | .started slots k' :: h, g, k => presentFrom 0 slots = [] ∧ g = generation h + 1 ∧ k = k'
  | .completed t :: h, g, k =>
    t.generation = g ∧ generation h = g ∧ outstanding h = [t.slot] ∧
      (current h).map (·.2) = some k
  | _, _, _ => False

@[simp] theorem outstanding_nil : outstanding ([] : History κ) = [] := rfl

@[simp] theorem outstanding_started (slots : List Bool) (k : κ) (h : History κ) :
    outstanding (.started slots k :: h) = presentFrom 0 slots := by
  simp [outstanding, current, completions]

@[simp] theorem outstanding_cancelled (h : History κ) : outstanding (.cancelled :: h) = [] := rfl

@[simp] theorem outstanding_answered (h : History κ) :
    outstanding (.answered :: h) = outstanding h := rfl

@[simp] theorem outstanding_did (i : BroadcastItem κ) (h : History κ) :
    outstanding (.did i :: h) = outstanding h := rfl

/-- The broadcast under way is the one that was started last. -/
theorem current_eq_some {h : History κ} {present : List Nat} {k : κ}
    (hc : current h = some (present, k)) : ∃ slots, present = presentFrom 0 slots := by
  induction h with
  | nil => simp [current] at hc
  | cons m h ih =>
    cases m with
    | started slots k' =>
      simp only [current, Option.some.injEq, Prod.mk.injEq] at hc
      exact ⟨slots, hc.1.symm⟩
    | cancelled => simp [current] at hc
    | completed t => exact ih hc
    | answered => exact ih hc
    | did i => exact ih hc

/-- Nobody owes two completions. -/
theorem nodup_outstanding (h : History κ) : (outstanding h).Nodup := by
  unfold outstanding
  cases hc : current h with
  | none => exact List.nodup_nil
  | some c =>
    obtain ⟨present, k⟩ := c
    obtain ⟨slots, rfl⟩ := current_eq_some hc
    exact (nodup_presentFrom 0 slots).filter _

/-- A completion takes its slot off the outstanding ones, if it is of the current generation. -/
theorem outstanding_completed (t : Token) (h : History κ) :
    outstanding (.completed t :: h) =
      if t.generation = generation h then (outstanding h).erase t.slot else outstanding h := by
  by_cases hg : t.generation = generation h
  · rw [if_pos hg, (nodup_outstanding h).erase_eq_filter]
    unfold outstanding
    rw [show current (.completed t :: h) = current h from rfl]
    cases current h with
    | none => rfl
    | some c =>
      simp only [completions, if_pos hg, List.filter_filter]
      refine List.filter_congr fun v _ => ?_
      by_cases hv : v = t.slot <;> simp [hv]
  · rw [if_neg hg]
    simp [outstanding, current, completions, hg]

/-- A continuation is due only while its own generation is the current one. -/
theorem Due.generation_eq {h : History κ} {g : Nat} {k : κ} (d : Due h g k) :
    generation h = g := by
  match h, d with
  | .started _ _ :: _, d => exact d.2.1.symm
  | .completed _ :: _, d => exact d.2.1

/-- When a continuation is due, nobody owes a completion any more. -/
theorem Due.outstanding_eq_nil {h : History κ} {g : Nat} {k : κ} (d : Due h g k) :
    outstanding h = [] := by
  match h, d with
  | .started slots _ :: _, d => rw [outstanding_started, d.1]
  | .completed t :: h, d =>
    rw [outstanding_completed, if_pos (d.1.trans d.2.1.symm), d.2.2.1]
    simp

/-! ### Runs -/

/-- The states that a fresh barrier can get to, with what has happened on the way. -/
inductive Run : Broadcasts κ → History κ → Prop
  | fresh : Run {} []
  | start {b : Broadcasts κ} {h : History κ} (r : Run b h) (word : b.awaitsHost = true)
      (slots : List Bool) (k : κ) : Run (b.start slots k).1 (.started slots k :: h)
  | cancel {b : Broadcasts κ} {h : History κ} (r : Run b h) (word : b.awaitsHost = true) :
      Run b.cancel.1 (.cancelled :: h)
  | complete {b : Broadcasts κ} {h : History κ} (r : Run b h) (word : b.awaitsHost = true)
      (t : Token) : Run (b.complete t).1 (.completed t :: h)
  | answer {b : Broadcasts κ} {h : History κ} (r : Run b h) (word : b.awaitsHost = true)
      (called : b.agenda ≠ []) : Run b.answer (.answered :: h)
  | step {b : Broadcasts κ} {h : History κ} (r : Run b h) (busy : b.awaitsHost = false)
      {i : BroadcastItem κ} {rest : List (BroadcastItem κ)} (top : b.agenda = i :: rest) :
      Run b.step.1 (.did i :: h)

namespace Run

variable {b : Broadcasts κ} {h : History κ}

/-- Every part of a history that reaches back to its beginning is the history of a run. -/
theorem earlier {newer older : History κ} (r : Run b (newer ++ older)) : ∃ b', Run b' older := by
  induction newer generalizing b with
  | nil => exact ⟨b, r⟩
  | cons m newer ih =>
    cases r with
    | start r _ _ _ => exact ih r
    | cancel r _ => exact ih r
    | complete r _ _ => exact ih r
    | answer r _ _ => exact ih r
    | step r _ _ => exact ih r

/-- Whatever was done was first on the agenda. -/
theorem before_did {newer older : History κ} {i : BroadcastItem κ}
    (r : Run b (newer ++ .did i :: older)) :
    ∃ b' rest, Run b' older ∧ b'.agenda = i :: rest := by
  obtain ⟨b', r'⟩ := r.earlier
  cases r' with
  | step r' _ top => exact ⟨_, _, r', top⟩

end Run

end Prompter.Broadcasts

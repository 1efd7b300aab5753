import Prompter.Remark

/-!
# Prompter.Barrier

Waiting for several consumers. A broadcast hands a token to each consumer that is present; when the
last of them has completed its token, the continuation of the broadcast runs.

* Every present consumer is pending before the first one is called, so a consumer that completes at
  once cannot end the broadcast early.
* Each broadcast and each cancellation begins a new generation. Tokens of an older one complete into
  nothing, and a broadcast that finds itself superseded calls no further consumer.

The barrier only keeps the books: whoever broadcasts calls the consumers, one `nextCall` after the
other, and runs the continuation that `start` or `complete` gives back.
-/

namespace Prompter

/-- What a consumer completes: the generation and the slot it was issued for. -/
structure Token where
  generation : Nat
  slot : Nat
deriving DecidableEq

def Token.shown (t : Token) : String :=
  s!"CompletionToken \x7b generation: {t.generation}, consumer: {t.slot} \x7d"

/-- The state of a barrier whose continuations are of type `κ`. -/
structure Barrier (κ : Type) where
  generation : Nat := 0
  /-- The slots that still owe a completion, in order. -/
  pending : List Nat := []
  /-- What to do when no slot is pending any more. -/
  stored : Option κ := none
deriving DecidableEq

/-- The slots that are present, numbered from `n`. -/
def presentFrom (n : Nat) : List Bool → List Nat
  | [] => []
  | true :: slots => n :: presentFrom (n + 1) slots
  | false :: slots => presentFrom (n + 1) slots

theorem le_of_mem_presentFrom {v n : Nat} {slots : List Bool} (h : v ∈ presentFrom n slots) :
    n ≤ v := by
  induction slots generalizing n with
  | nil => cases h
  | cons present slots ih =>
    cases present with
    | false => exact Nat.le_of_succ_le (ih h)
    | true =>
      rcases List.mem_cons.1 h with rfl | h
      · exact Nat.le_refl v
      · exact Nat.le_of_succ_le (ih h)

/-- No slot is present twice. -/
theorem nodup_presentFrom (n : Nat) (slots : List Bool) : (presentFrom n slots).Nodup := by
  induction slots generalizing n with
  | nil => exact List.nodup_nil
  | cons present slots ih =>
    cases present with
    | false => exact ih (n + 1)
    | true =>
      refine List.nodup_cons.2 ⟨fun h => ?_, ih (n + 1)⟩
      exact Nat.not_succ_le_self n (le_of_mem_presentFrom h)

namespace Barrier

variable {κ : Type}

/-- How a broadcast starts. -/
inductive Opening (κ : Type)
  /-- Nobody is present: the continuation is due at once. -/
  | immediate (k : κ)
  /-- The consumers to call, in order, and the generation of their tokens. -/
  | waiting (generation : Nat) (slots : List Nat)

/-- Starts a broadcast to the present slots. -/
def start (b : Barrier κ) (slots : List Bool) (k : κ) : Barrier κ × Opening κ × List Remark :=
  let generation := b.generation + 1
  match presentFrom 0 slots with
  | [] =>
    (⟨generation, [], none⟩, .immediate k,
      [⟨.trace, .barrier, "barrier: broadcast with no consumers completes immediately"⟩])
  | present =>
    (⟨generation, present, some k⟩, .waiting generation present,
      [⟨.trace, .barrier,
        s!"barrier: generation {generation} waiting on {present.length} consumer(s)"⟩])

/-- A broadcast either has nobody to wait for, or waits for all who are present. -/
theorem start_cases (b : Barrier κ) (slots : List Bool) (k : κ) :
    (presentFrom 0 slots = [] ∧ (b.start slots k).1 = ⟨b.generation + 1, [], none⟩ ∧
      (b.start slots k).2.1 = .immediate k) ∨
    (presentFrom 0 slots ≠ [] ∧
      (b.start slots k).1 = ⟨b.generation + 1, presentFrom 0 slots, some k⟩ ∧
      (b.start slots k).2.1 = .waiting (b.generation + 1) (presentFrom 0 slots)) := by
  unfold start
  cases h : presentFrom 0 slots with
  | nil => exact .inl ⟨rfl, rfl, rfl⟩
  | cons v vs => exact .inr ⟨List.cons_ne_nil v vs, rfl, rfl⟩

/-- Whether no broadcast or cancellation has begun since a generation did. -/
def isCurrent (b : Barrier κ) (generation : Nat) : Bool := b.generation = generation

/-- What a broadcast does next. -/
inductive NextCall
  /-- Call a consumer with its token; the slots to call after it. -/
  | call (t : Token) (rest : List Nat)
  /-- Give up, because another broadcast or a cancellation has begun. -/
  | superseded (r : Remark)
  | finished
deriving DecidableEq

/-- What the broadcast of a generation does next, by the slots it has still to call. -/
def nextCall (b : Barrier κ) (generation : Nat) : List Nat → NextCall
  | [] => .finished
  | slot :: rest =>
    if b.isCurrent generation then .call ⟨generation, slot⟩ rest
    else
      .superseded ⟨.debug, .barrier,
        s!"barrier: generation {generation} superseded while broadcasting"⟩

/-- Completes a token; the continuation comes back with the last one. -/
def complete (b : Barrier κ) (t : Token) : Barrier κ × Option κ × List Remark :=
  if b.generation ≠ t.generation then
    let generations := s!"(generation {t.generation}, current {b.generation})"
    (b, none, [⟨.debug, .barrier,
      s!"barrier: ignoring stale completion from consumer {t.slot} {generations}"⟩])
  else if !b.pending.contains t.slot then (b, none, [])
  else
    let pending := b.pending.erase t.slot
    let remark : Remark := ⟨.trace, .barrier,
      s!"barrier: consumer {t.slot} complete, {pending.length} remaining"⟩
    if pending.isEmpty then ({ b with pending := [], stored := none }, b.stored, [remark])
    else ({ b with pending := pending }, none, [remark])

/-- A token either completes into nothing, or is one of several that are owed, or the last one. -/
theorem complete_cases (b : Barrier κ) (t : Token) :
    (¬ (t.generation = b.generation ∧ t.slot ∈ b.pending) ∧ (b.complete t).1 = b ∧
      (b.complete t).2.1 = none) ∨
    ((t.generation = b.generation ∧ t.slot ∈ b.pending) ∧ b.pending.erase t.slot ≠ [] ∧
      (b.complete t).1 = { b with pending := b.pending.erase t.slot } ∧
      (b.complete t).2.1 = none) ∨
    ((t.generation = b.generation ∧ t.slot ∈ b.pending) ∧ b.pending.erase t.slot = [] ∧
      (b.complete t).1 = { b with pending := [], stored := none } ∧
      (b.complete t).2.1 = b.stored) := by
  unfold complete
  by_cases hg : b.generation = t.generation
  · by_cases hs : t.slot ∈ b.pending
    · by_cases he : b.pending.erase t.slot = []
      · right; right
        simp [hg, hs, he]
      · right; left
        simp [hg, hs, he]
    · left
      simp [hg, hs]
  · left
    simp [hg, Ne.symm hg]

/-- Gives up the current broadcast without its continuation. -/
def cancel (b : Barrier κ) : Barrier κ × List Remark :=
  (⟨b.generation + 1, [], none⟩,
    if b.pending.isEmpty then []
    else
      let outstanding := s!"{b.pending.length} consumer(s) outstanding"
      [⟨.debug, .barrier, s!"barrier: cancelling generation {b.generation} with {outstanding}"⟩])

end Barrier

end Prompter

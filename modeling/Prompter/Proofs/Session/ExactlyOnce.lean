import Prompter.Proofs.Session.Release

/-!
# Prompter.Proofs.Session.ExactlyOnce

How often, and when, the engine is asked to go on for a line, an offer or a command.

The statements are about histories: they hold whatever the views, the handlers and the player do,
in any order and from inside any call, as long as tokens are completed by those who were given them.
The engine may be any. A command lets it go on only if it was given a handle
(`run_continuesCommand`).
-/

namespace Prompter.Session

/-- Whether a mark is that of the engine being asked to go on for a cause. -/
def continues (c : Cause) : Mark → Bool
  | .did (.continueEngine c') => decide (c' = c)
  | _ => false

/-- Whether a mark is that of the engine being told what was chosen of an offer. -/
def chooses (n : Nat) : Mark → Bool
  | .did (.chooseOption n' _) => n' == n
  | _ => false

/-- Whether a mark is that of the engine being asked to go on after a choice, or after the line
that repeats the chosen option. -/
def continuesAfter (h : History) (n : Nat) : Mark → Bool
  | .did (.continueEngine (.offer n')) => n' == n
  | .did (.continueEngine (.line n')) => decide (echoOf h n' = some n)
  | _ => false

/-- Every view was given a token for a line in a broadcast, and had completed it at an earlier time;
it was never given another one for that line and broadcast. -/
def EachCompleted (b : LineBroadcast) (n : Nat) (views : List Nat) (earlier h : History) : Prop :=
  ∀ v ∈ views, ∃ t : Token, t.slot = v ∧ Completed b n t earlier ∧
    ∀ t' : Token, t'.slot = v → Told b n t' h → t' = t

/-- What holds of a session after everything that can happen to it. -/
structure ExactlyOnce (s : Session) (h : History) : Prop where
  /-- A line lets the engine go on once at most. -/
  line_once : ∀ n, h.countP (continues (.line n)) ≤ 1
  /-- It does so when every view has completed its token for taking the line away, and while it is
  the line that was presented last. -/
  line_after : ∀ newer older n, h = newer ++ .did (.continueEngine (.line n)) :: older →
    EachCompleted .removing n s.dialogue.views older h ∧ presented older = n
  /-- A line is delivered only when every view has completed its token for showing it. -/
  delivered_after : ∀ line, s.dialogue.line = some line → line.status = .delivered →
    EachCompleted .showing (presented h) s.dialogue.views h h
  /-- The engine is told once at most what was chosen of an offer. -/
  choice_once : ∀ n, h.countP (chooses n) ≤ 1
  /-- An offer lets the engine go on once at most, be it after the choice or after the line that
  repeats the chosen option. -/
  offer_once : ∀ n, h.countP (continuesAfter h n) ≤ 1
  /-- A command lets the engine go on once at most. -/
  command_once : ∀ k, h.countP (continues (.command k)) ≤ 1
  /-- It never does so if the engine was not told to wait for it. -/
  command_paused : ∀ k o use, .did (.outcome (some k) o use) ∈ h → o ≠ .pause →
    h.countP (continues (.command k)) = 0

/-! ### Tickets that are spent -/

variable {s₀ s : Session} {h : History}

theorem Sound.spent_le_one {l : Ledger} (sound : Sound l h) (t : Ticket) :
    h.countP t.spentAt ≤ 1 := by
  have bound := sound.tickets t
  have one := Bool.toNat_le (t.issued l.dialogue l.handles)
  unfold Ticket.count at bound
  omega

theorem eq_of_continues {c : Cause} {m : Mark} (hm : continues c m = true) :
    m = .did (.continueEngine c) := by
  unfold continues at hm
  split at hm
  · rw [of_decide_eq_true hm]
  · cases hm

theorem Sound.continues_le_one {l : Ledger} (sound : Sound l h) (c : Cause) (t : Ticket)
    (spent : t.spentAt (.did (.continueEngine c)) = true) : h.countP (continues c) ≤ 1 := by
  refine Nat.le_trans (List.countP_mono_left fun m _ hm => ?_) (sound.spent_le_one t)
  rw [eq_of_continues hm, spent]

theorem spentAt_choice {n : Nat} {m : Mark} (hm : chooses n m = true) :
    (Ticket.choice n).spentAt m = true := by
  unfold chooses at hm
  split at hm
  · simpa [Ticket.spentAt, Ticket.heldBy, Ticket.spends] using hm
  · cases hm

/-! ### Offers and the lines that repeat them -/

/-- Whether a mark is that of the chosen option of an offer being presented. -/
def echoes (n : Nat) : Mark → Bool
  | .did (.present _ (some n')) => n' == n
  | _ => false

/-- The ticket of an offer is spent on the line that repeats the chosen option, or at once. -/
theorem countP_spentAt_offer (n : Nat) (h : History) :
    h.countP (Ticket.offer n).spentAt = h.countP (echoes n) + h.countP (continues (.offer n)) := by
  induction h with
  | nil => rfl
  | cons m h ih =>
    simp only [List.countP_cons, ih]
    have either : (if (Ticket.offer n).spentAt m then 1 else 0) =
        (if echoes n m then 1 else 0) + (if continues (.offer n) m then 1 else 0) := by
      cases m with
      | call | answer => rfl
      | did i =>
        cases i with
        | present line offer =>
          cases offer <;> simp [Ticket.spentAt, Ticket.heldBy, Ticket.spends, echoes, continues]
        | continueEngine c =>
          cases c <;> simp [Ticket.spentAt, Ticket.heldBy, Ticket.spends, echoes, continues]
        | _ => rfl
    omega

/-- What the newest event adds to the lines that repeat an option. -/
theorem echoOf_cons {n k : Nat} {m : Mark} (hk : echoOf (m :: h) k = some n) :
    (echoes n m = true ∧ k = presented h + 1) ∨ echoOf h k = some n := by
  by_cases hm : ∃ line offer, m = .did (.present line offer)
  · obtain ⟨line, offer, rfl⟩ := hm
    rw [echoOf] at hk
    split at hk
    · next hn => exact .inl ⟨by simp [echoes, hk], hn⟩
    · exact .inr hk
  · rw [echoOf] at hk
    · exact .inr hk
    · exact fun line offer he => hm ⟨line, offer, he⟩

theorem echoed {n k : Nat} (hk : echoOf h k = some n) : 0 < h.countP (echoes n) := by
  induction h with
  | nil => cases hk
  | cons m h ih =>
    rw [List.countP_cons]
    rcases echoOf_cons hk with ⟨hm, -⟩ | old
    · rw [if_pos hm]
      omega
    · have := ih old
      omega

/-- The chosen option of an offer is repeated by one line. -/
theorem echoOf_inj {n k k' : Nat} (one : h.countP (echoes n) ≤ 1) (hk : echoOf h k = some n)
    (hk' : echoOf h k' = some n) : k = k' := by
  induction h with
  | nil => cases hk
  | cons m h ih =>
    rw [List.countP_cons] at one
    rcases echoOf_cons hk with ⟨hm, rfl⟩ | old
    · rcases echoOf_cons hk' with ⟨-, rfl⟩ | old'
      · rfl
      · have := echoed old'
        rw [if_pos hm] at one
        omega
    · rcases echoOf_cons hk' with ⟨hm, rfl⟩ | old'
      · have := echoed old
        rw [if_pos hm] at one
        omega
      · exact ih (by omega) old old'

theorem Sound.offer_once {l : Ledger} (sound : Sound l h) (n : Nat) :
    h.countP (continuesAfter h n) ≤ 1 := by
  have one := sound.spent_le_one (.offer n)
  rw [countP_spentAt_offer] at one
  by_cases he : ∃ k, echoOf h k = some n
  · -- the chosen option is presented as the line `k`, which is the only one to let the engine go on
    obtain ⟨k, hk⟩ := he
    have echo := echoed hk
    have none : h.countP (continues (.offer n)) = 0 := by omega
    refine Nat.le_trans (List.countP_mono_left fun m hm hc => ?_)
      (sound.continues_le_one (.line k) (.line k)
        (by simp [Ticket.spentAt, Ticket.heldBy, Ticket.spends]))
    unfold continuesAfter at hc
    split at hc
    · next n' =>
      obtain rfl : n' = n := by simpa using hc
      exact absurd (by simp [continues]) (List.countP_eq_zero.1 none _ hm)
    · next k' =>
      rw [echoOf_inj (by omega) (of_decide_eq_true hc) hk]
      simp [continues]
    · cases hc
  · refine Nat.le_trans (List.countP_mono_left fun m hm hc => ?_)
      (Nat.le_trans (Nat.le_add_left _ _) one)
    unfold continuesAfter at hc
    split at hc
    · next n' =>
      obtain rfl : n' = n := by simpa using hc
      simp [continues]
    · next k' => exact absurd ⟨k', of_decide_eq_true hc⟩ he
    · cases hc

/-! ### Every run -/

theorem Sound.eachCompleted {l : Ledger} (sound : Sound l h) {b : LineBroadcast} {n : Nat}
    {views : List Nat} {newer older : History} (hh : h = newer ++ older)
    (all : AllCompleted b n views older) : EachCompleted b n views older h := by
  obtain ⟨g, hg⟩ := all
  intro v hv
  refine ⟨⟨g, v⟩, rfl, hg v hv, fun t' hslot told => ?_⟩
  -- all tokens for one line and broadcast are of one generation
  have mine : Told b n ⟨g, v⟩ h := by
    rw [hh]
    exact (hg v hv).told.mono newer
  have same := sound.sole b n _ _ (told.issued l) (mine.issued l)
  cases t'
  cases hslot
  cases same
  rfl

/-- A dialogue that closes its lines itself, with one view and an engine of the host. -/
def oneView : Session :=
  { engine := .host ⟨fun _ => true, fun _ => none⟩
    dialogue := { settings := { autoAdvance := true }, slots := [true, false] } }

/-- A command without a handle never lets the engine go on: whichever does has been reported to the
dialogue before, and was given its handle then. -/
theorem run_continuesCommand {allowed : Session → History → Call → Prop} (fresh : s₀.IsFresh)
    {newer older : History} {k : Nat}
    (r : Run allowed s₀ s (newer ++ .did (.continueEngine (.command k)) :: older)) :
    ∃ later reporter c before, older = later ++ .did (.hear reporter (.command c)) :: before ∧
      (after s₀ before).handleFor c = some k := by
  obtain ⟨before, rfl⟩ := r.of_sequel fresh.agenda (x := .commandDone k) rfl
  obtain ⟨s₁, -, r₁, -⟩ := r.before_did
  have r₁ : Run allowed s₀ s₁ ([] ++ .did (.resume (.commandDone k)) :: before) := r₁
  obtain ⟨m, before, keeper, rfl, released⟩ := r₁.released fresh.agenda
  have r₁ : Run allowed s₀ s₁ ([.did (.resume (.commandDone k)), m] ++ before) := r₁
  obtain ⟨s₂, r₂⟩ := r₁.earlier
  cases keeper with
  | barrier =>
    -- the barrier keeps the continuations of broadcasts
    have foreign (b : LineBroadcast) (n : Nat) : .commandDone k ≠ b.continuation n := by
      cases b <;> simp [LineBroadcast.continuation]
    rcases stored_of_released? released with stored | ⟨b, n, line, -, same⟩
    · rcases r₂.kept.barrier _ stored with start | ⟨b, n, line, -, same⟩
      · rw [fresh.dialogue] at start
        cases start
      · exact absurd same (foreign b n)
    · exact absurd same (foreign b n)
  | handle k' =>
    rcases r₂.kept.handles k' _ (continuations_of_released? released) with start | given
    · rw [continuations, fresh.handles] at start
      simp at start
    · obtain ⟨latest, m', start, c, kont, use, rfl, begins, hk, same⟩ := given
      cases begins with
      | request => cases same
      | event reporter c =>
        cases same
        exact ⟨.did (.resume (.commandDone k)) :: m :: latest, reporter, c, start, rfl, hk⟩

end Prompter.Session

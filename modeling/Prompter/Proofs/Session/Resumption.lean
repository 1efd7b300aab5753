import Prompter.Proofs.Session.Tickets

/-!
# Prompter.Proofs.Session.Resumption

The engine is asked to go on once for what it waits for, and not before its time.

`Sound` is the invariant. It ties the serial numbers to the history, the status of the line and the
items of the agenda to the tokens that the views have completed, the continuation that the barrier
keeps to the tokens that are still owed, and the phase of each handle to what is left to be done for
its command. Every move keeps it (`Sound.moved`), so it holds whatever the host does and wherever it
does it, also from inside its views and handlers.
-/

namespace Prompter

/-- The broadcast that an item hands out tokens of, with the serial number of its line and the
generation of the tokens. -/
def Item.issues : Item → Option (LineBroadcast × Nat × Nat)
  | .rest b n _ g _ => some (b, n, g)
  | .tell (.view _ (.showLine n _ t)) => some (.showing, n, t.generation)
  | .tell (.view _ (.removeLine n _ t)) => some (.removing, n, t.generation)
  | _ => none

namespace Session

/-- Tokens of a broadcast are handed out, or have been. -/
def Issued (l : Ledger) (h : History) (b : LineBroadcast) (n g : Nat) : Prop :=
  ∃ i, (i ∈ l.agenda ∨ .did i ∈ h) ∧ i.issues = some (b, n, g)

/-- Every view has been given a token for a line, and has completed it. -/
def AllCompleted (b : LineBroadcast) (n : Nat) (views : List Nat) (h : History) : Prop :=
  ∃ g, ∀ v ∈ views, Completed b n ⟨g, v⟩ h

theorem AllCompleted.mono {b : LineBroadcast} {n : Nat} {views : List Nat} {h : History}
    (done : AllCompleted b n views h) (newer : History) : AllCompleted b n views (newer ++ h) := by
  obtain ⟨g, hg⟩ := done
  exact ⟨g, fun v hv => (hg v hv).mono newer⟩

theorem issues_notice (b : LineBroadcast) (n : Nat) (line : LocalizedLine) (t : Token) (v : Nat) :
    (Item.tell (.view v (b.notice n line t))).issues = some (b, n, t.generation) := by
  cases b <;> rfl

theorem continuation_inj {b b' : LineBroadcast} {n n' : Nat}
    (h : b.continuation n = b'.continuation n') : b = b' ∧ n = n' := by
  cases b <;> cases b' <;> simp_all [LineBroadcast.continuation]

/-- What a ledger and a history have to do with each other. -/
structure Sound (l : Ledger) (h : History) : Prop where
  /-- Handles let the engine go on for their own commands. -/
  own : OwnHandles l.handles
  /-- Lines are numbered as they are presented. -/
  serial : l.dialogue.lineSerial = presented h
  /-- Tickets are found once at most, and only when they have come into being. -/
  tickets : ∀ t : Ticket, t.count l h ≤ (t.issued l.dialogue l.handles).toNat
  /-- Tokens of the current generation are those of the continuation that is kept, if one is. -/
  fresh : ∀ b n g, Issued l h b n g → g ≤ l.dialogue.barrier.generation ∧
    (g = l.dialogue.barrier.generation → ∀ k, l.dialogue.barrier.stored = some k →
      k = b.continuation n) ∧ ∃ line, .did (.broadcast b n line) ∈ h
  /-- The tokens for a line in a broadcast are of one generation. -/
  sole : ∀ b n g g', Issued l h b n g → Issued l h b n g' → g = g'
  /-- While a continuation is kept, each view owes its token or has completed it. -/
  owed : ∀ b n, l.dialogue.barrier.stored = some (b.continuation n) → ∀ v ∈ l.dialogue.views,
    v ∈ l.dialogue.barrier.pending ∨ Completed b n ⟨l.dialogue.barrier.generation, v⟩ h
  /-- The continuation of a broadcast comes when every view has completed its token. -/
  resumed : ∀ b n, .resume (b.continuation n) ∈ l.agenda →
    AllCompleted b n l.dialogue.views h
  /-- A line is delivered when every view has completed its token. -/
  delivered : ∀ line, l.dialogue.line = some line → line.status = .delivered →
    AllCompleted .showing l.dialogue.lineSerial l.dialogue.views h
  /-- A request to the engine after a line is the next thing to be done, and no later line has been
  presented. -/
  prompt : ∀ n, .continueEngine (.line n) ∈ l.agenda →
    l.agenda.head? = some (.continueEngine (.line n)) ∧ n = l.dialogue.lineSerial ∧
      AllCompleted .removing n l.dialogue.views h
  /-- A command is looked at when it has been called and its handle says so. -/
  called : ∀ name k use, .afterCall name k use ∈ l.agenda →
    ∃ x, l.handles[k]? = some x ∧ x.isCalled = true
  /-- A command whose outcome is not a pause lets the engine go on no more. -/
  settled : ∀ k o use, .outcome (some k) o use ∈ l.agenda ∨ .did (.outcome (some k) o use) ∈ h →
    k < l.handles.length ∧ (o ≠ .pause → (Ticket.command k).count l h = 0)

/-! ### What moves leave alone -/

section

variable {l l' : Ledger} {m : Mark} {h : History}

theorem Takes.mem {a rest : List Item} (takes : Takes m a rest) {i : Item} (hi : i ∈ rest) :
    i ∈ a := by
  cases takes with
  | did j => exact List.mem_cons_of_mem j hi
  | call => exact hi
  | answer x j => exact List.mem_cons_of_mem j hi

theorem Takes.did_eq {i : Item} {a rest : List Item} (takes : Takes (.did i) a rest) :
    a = i :: rest := by
  cases takes
  rfl

theorem Takes.mem_did {i : Item} {a rest : List Item} (takes : Takes (.did i) a rest) : i ∈ a := by
  rw [takes.did_eq]
  exact List.mem_cons_self

/-- An item that is first and not a call to the host is the one that is done. -/
theorem Takes.of_head {a rest : List Item} (takes : Takes m a rest) {i : Item}
    (work : i.callsHost = false) (first : a.head? = some i) : m = .did i ∧ a = i :: rest := by
  cases takes with
  | did j =>
    obtain rfl := Option.some.inj first
    exact ⟨rfl, rfl⟩
  | call c _ word => simp [word i first] at work
  | answer x j _ called =>
    obtain rfl := Option.some.inj first
    simp [called] at work

theorem Change.views {d d' : Dialogue} {hs hs' : List (ResumeHandle Continuation)}
    {special : List Item} (c : Change d hs m d' hs' special) : d'.views = d.views := by
  cases c <;> rfl

/-- A generation ends with a cancellation or with a broadcast to the views; before that only the
continuation of the barrier may be given up. -/
theorem Change.barrier {d d' : Dialogue} {hs hs' : List (ResumeHandle Continuation)}
    {special : List Item} (c : Change d hs m d' hs' special) :
    (d'.barrier.generation = d.barrier.generation ∧
      ∀ k, d'.barrier.stored = some k → d.barrier.stored = some k) ∨
    (d'.barrier.generation = d.barrier.generation + 1 ∧
      (d'.barrier.stored = none ∨ ∃ b n line, m = .did (.broadcast b n line) ∧
        d'.barrier.stored = some (b.continuation n) ∧ d'.barrier.pending = d.views)) := by
  cases c with
  | immediate b n line => exact .inr ⟨rfl, .inl rfl⟩
  | waiting b n line => exact .inr ⟨rfl, .inr ⟨b, n, line, rfl, rfl, rfl⟩⟩
  | finish | offer => exact .inr ⟨rfl, .inl rfl⟩
  | last t => exact .inl ⟨rfl, fun k hk => by cases hk⟩
  | _ => exact .inl ⟨rfl, fun k hk => hk⟩

theorem not_plain_of_issues {i : Item} {x : LineBroadcast × Nat × Nat} (hi : i.issues = some x) :
    i.isPlain = false := by
  unfold Item.issues at hi
  split at hi
  · rfl
  · rfl
  · rfl
  · cases hi

/-- Tokens are issued only by a broadcast to the views, for the new generation. -/
theorem Move.issued (move : Move l m l') {b : LineBroadcast} {n g : Nat}
    (new : Issued l' (m :: h) b n g) :
    Issued l h b n g ∨ (g = l.dialogue.barrier.generation + 1 ∧
      l'.dialogue.barrier.generation = g ∧
      l'.dialogue.barrier.stored = some (b.continuation n) ∧
      ∃ line, m = .did (.broadcast b n line)) := by
  obtain ⟨d', hs', a'⟩ := l'
  obtain ⟨rest, special, takes, change, puts, -⟩ := move
  obtain ⟨i, hi, hx⟩ := new
  rcases hi with hi | hi
  · rcases (puts.mem_iff (not_plain_of_issues hx)).1 hi with hi | hi
    · cases change with
      | waiting b' n' line =>
        obtain rfl := List.mem_singleton.1 hi
        cases hx
        exact .inr ⟨rfl, rfl, rfl, line, rfl⟩
      | callNext b' n' line v vs =>
        refine .inl ⟨_, .inl takes.mem_did, ?_⟩
        rcases List.mem_cons.1 hi with rfl | hi
        · rw [← hx, issues_notice]
          rfl
        · rw [← hx, List.mem_singleton.1 hi]
          rfl
      | last | resumed =>
        simp only [resumption, Option.mem_toList, Option.map_eq_some_iff] at hi
        obtain ⟨k, -, rfl⟩ := hi
        cases hx
      | choose | echo =>
        simp only [List.mem_cons, List.not_mem_nil, or_false] at hi
        rcases hi with rfl | rfl <;> cases hx
      | present | immediate | dismiss | lineGone | commandDone | newHandle | armed =>
        obtain rfl := List.mem_singleton.1 hi
        cases hx
      | plain | opened | lineShown | interrupt | finish | offer | owed => cases hi
    · exact .inl ⟨i, .inl (takes.mem hi), hx⟩
  · rcases List.mem_cons.1 hi with rfl | hi
    · exact .inl ⟨i, .inl takes.mem_did, hx⟩
    · exact .inl ⟨i, .inr hi, hx⟩

theorem Move.lineSerial (move : Move l m l') :
    l'.dialogue.lineSerial = l.dialogue.lineSerial + m.presents.toNat := by
  obtain ⟨d', hs', a'⟩ := l'
  obtain ⟨rest, special, takes, change, -, -⟩ := move
  cases change with
  | plain quiet | dismiss quiet | resumed quiet | newHandle quiet => rw [quiet]; rfl
  | _ => rfl

theorem Move.length_le (move : Move l m l') : l.handles.length ≤ l'.handles.length := by
  obtain ⟨d', hs', a'⟩ := l'
  obtain ⟨rest, special, takes, change, -, -⟩ := move
  cases change with
  | newHandle => exact Nat.le_of_lt (by simp)
  | resumed | armed => exact Nat.le_of_eq (List.length_set ..).symm
  | _ => exact Nat.le_refl _

theorem presented_cons (m : Mark) (h : History) :
    presented (m :: h) = presented h + m.presents.toNat := by
  rw [presented, List.countP_cons]
  cases m.presents <;> rfl

/-- A ticket that can be found was found before, if it had come into being. -/
theorem Sound.count_eq_zero (sound : Sound l h) (move : Move l m l') {t : Ticket}
    (issued : t.issued l.dialogue l.handles = true) (gone : t.count l h = 0) :
    t.count l' (m :: h) = 0 := by
  have le := move.count_le (h := h) sound.own t
  have one := Bool.toNat_le (t.issued l'.dialogue l'.handles)
  rw [issued, gone, Bool.toNat_true] at le
  omega

/-- A ticket that the books lose was nowhere else. -/
theorem Sound.count_eq_zero_of_lost (sound : Sound l h) {t : Ticket}
    (was : t.inBooks l.dialogue l.handles = true)
    (lost : t.inBooks l'.dialogue l'.handles = false)
    (stored : l'.dialogue.barrier.stored = l.dialogue.barrier.stored)
    (agenda : t.heldIn l'.agenda ≤ t.heldIn l.agenda) (quiet : t.spentAt m = false) :
    t.count l' (m :: h) = 0 := by
  have bound := sound.tickets t
  have one := Bool.toNat_le (t.issued l.dialogue l.handles)
  have spent : (m :: h).countP t.spentAt = h.countP t.spentAt :=
    List.countP_cons_of_neg (by simp [quiet])
  simp only [Ticket.count, Ticket.value, was, Bool.toNat_true] at bound
  simp only [Ticket.count, Ticket.value, lost, stored, spent, Bool.toNat_false]
  omega

/-- What has been done once under a ticket is not done again. -/
theorem Sound.not_mem_of_heldIn (sound : Sound l h) {t : Ticket} (held : 0 < t.heldIn l.agenda)
    {i : Item} (spent : t.spentAt (.did i) = true) : .did i ∉ h := by
  intro hm
  have pos : 0 < h.countP t.spentAt := List.countP_pos_iff.2 ⟨_, hm, spent⟩
  have bound := sound.tickets t
  have one := Bool.toNat_le (t.issued l.dialogue l.handles)
  unfold Ticket.count at bound
  omega

theorem Ticket.heldIn_pos {t : Ticket} {i : Item} {items : List Item} (hi : i ∈ items)
    (held : t.heldBy i = true) : 0 < t.heldIn items := by
  obtain ⟨before, after, rfl⟩ := List.append_of_mem hi
  rw [t.heldIn_append, t.heldIn_cons, held, Bool.toNat_true]
  omega

theorem Told.issued {b : LineBroadcast} {n : Nat} {t : Token} (told : Told b n t h) (l : Ledger) :
    Issued l h b n t.generation := by
  obtain ⟨line, hm⟩ := told
  exact ⟨_, .inr hm, issues_notice b n line t t.slot⟩

/-- A token of the current generation that is completed is one of the broadcast under way. -/
theorem Sound.completed (sound : Sound l h) {t : Token} (owned : Owned (.complete t) h)
    (hg : t.generation = l.dialogue.barrier.generation) {b : LineBroadcast} {n : Nat}
    (hk : l.dialogue.barrier.stored = some (b.continuation n)) :
    Completed b n t (.call (.complete t) :: h) := by
  obtain ⟨b', n', told⟩ := owned t rfl
  obtain ⟨-, current, -⟩ := sound.fresh b' n' _ (told.issued l)
  obtain ⟨rfl, rfl⟩ := continuation_inj (current hg _ hk)
  exact ⟨[], h, rfl, told⟩

namespace Sound

variable (sound : Sound l h) (move : Move l m l')

include sound move

theorem fresh_move (b : LineBroadcast) (n g : Nat) (new : Issued l' (m :: h) b n g) :
    g ≤ l'.dialogue.barrier.generation ∧
      (g = l'.dialogue.barrier.generation → ∀ k, l'.dialogue.barrier.stored = some k →
        k = b.continuation n) ∧ ∃ line, .did (.broadcast b n line) ∈ m :: h := by
  rcases move.issued new with old | ⟨rfl, hg, hk, line, rfl⟩
  · obtain ⟨hle, hk, line, hm⟩ := sound.fresh b n g old
    refine ⟨?_, fun hg k hs => ?_, line, List.mem_cons_of_mem m hm⟩
    all_goals
      obtain ⟨rest, special, -, change, -, -⟩ := move
      rcases change.barrier with ⟨hg', hs'⟩ | ⟨hg', -⟩
    · omega
    · omega
    · exact hk (by omega) k (hs' k hs)
    · omega
  · refine ⟨by omega, fun _ k hs => ?_, line, List.mem_cons_self⟩
    rw [hk] at hs
    exact (Option.some.inj hs).symm

theorem sole_move (b : LineBroadcast) (n g g' : Nat) (new : Issued l' (m :: h) b n g)
    (new' : Issued l' (m :: h) b n g') : g = g' := by
  -- a broadcast that is on the agenda has not been done before
  have first {line : LocalizedLine} (hm : m = .did (.broadcast b n line)) {g : Nat} :
      ¬ Issued l h b n g := by
    intro old
    subst hm
    obtain ⟨-, -, line', done⟩ := sound.fresh b n g old
    obtain ⟨rest, special, takes, -⟩ := move
    refine sound.not_mem_of_heldIn (t := .broadcast b n) ?_ ?_ done
    · exact Ticket.heldIn_pos takes.mem_did (by simp [Ticket.heldBy])
    · simp [Ticket.spentAt, Ticket.heldBy, Ticket.spends]
  rcases move.issued new with old | ⟨hg, -, -, line, hm⟩
  · rcases move.issued new' with old' | ⟨-, -, -, line, hm⟩
    · exact sound.sole b n g g' old old'
    · exact absurd old (first hm)
  · rcases move.issued new' with old' | ⟨hg', -, -, -, -⟩
    · exact absurd old' (first hm)
    · rw [hg, hg']

theorem owed_move (owned : ∀ c, m = .call c → Owned c h) (b : LineBroadcast) (n : Nat)
    (hk : l'.dialogue.barrier.stored = some (b.continuation n)) (v : Nat)
    (hv : v ∈ l'.dialogue.views) :
    v ∈ l'.dialogue.barrier.pending ∨
      Completed b n ⟨l'.dialogue.barrier.generation, v⟩ (m :: h) := by
  obtain ⟨d', hs', a'⟩ := l'
  obtain ⟨rest, special, takes, change, -, -⟩ := move
  cases change with
  | waiting => exact .inl hv
  | immediate | finish | offer | last => cases hk
  | owed t hg =>
    rcases sound.owed b n hk v hv with hp | done
    · by_cases hs : v = t.slot
      · subst hs
        right
        rw [← hg]
        exact sound.completed (owned _ rfl) hg hk
      · exact .inl ((List.mem_erase_of_ne hs).2 hp)
    · exact .inr (done.mono [_])
  | _ => exact (sound.owed b n hk v hv).imp_right fun done => done.mono [_]

theorem resumed_move (owned : ∀ c, m = .call c → Owned c h) (b : LineBroadcast) (n : Nat)
    (hi : .resume (b.continuation n) ∈ l'.agenda) :
    AllCompleted b n l'.dialogue.views (m :: h) := by
  obtain ⟨d', hs', a'⟩ := l'
  obtain ⟨rest, special, takes, change, puts, -⟩ := move
  rw [change.views]
  rcases (puts.mem_iff rfl).1 hi with hi | hi
  · cases change with
    | immediate b' n' line empty => exact ⟨0, by simp [empty]⟩
    | last t hg ht =>
      obtain ⟨k, hk, hi⟩ := mem_resumption.1 hi
      obtain rfl := Item.resume.inj hi
      refine ⟨l.dialogue.barrier.generation, fun v hv => ?_⟩
      rcases sound.owed b n hk v hv with hp | done
      · rw [ht] at hp
        rw [List.mem_singleton.1 hp, ← hg]
        exact sound.completed (owned _ rfl) hg hk
      · exact done.mono [_]
    | resumed quiet k x hx =>
      -- what a handle forwards is not the continuation of a broadcast
      obtain ⟨c, hc, hi⟩ := mem_resumption.1 hi
      obtain rfl := Item.resume.inj hi
      rcases x.resume_cases with ⟨-, -, hk⟩ | ⟨-, hk⟩
      · have hx' := sound.own k x hx
        rw [Option.some.inj (hk.symm.trans hc)] at hx'
        cases b <;> simp [LineBroadcast.continuation] at hx'
      · rw [hk] at hc
        cases hc
    | _ => simp at hi
  · exact (sound.resumed b n (takes.mem hi)).mono [_]

theorem delivered_move (line : LocalizedLine) (hl : l'.dialogue.line = some line)
    (hs : line.status = .delivered) :
    AllCompleted .showing l'.dialogue.lineSerial l'.dialogue.views (m :: h) := by
  obtain ⟨d', hs', a'⟩ := l'
  obtain ⟨rest, special, takes, change, -, -⟩ := move
  rw [change.views]
  cases change with
  | lineShown => exact (sound.resumed .showing _ takes.mem_did).mono [_]
  | present | dismiss | interrupt =>
    obtain rfl := Option.some.inj hl
    cases hs
  | lineGone | finish | offer => cases hl
  | _ => exact (sound.delivered line hl hs).mono [_]

theorem prompt_move (n : Nat) (hi : .continueEngine (.line n) ∈ l'.agenda) :
    l'.agenda.head? = some (.continueEngine (.line n)) ∧ n = l'.dialogue.lineSerial ∧
      AllCompleted .removing n l'.dialogue.views (m :: h) := by
  obtain ⟨d', hs', a'⟩ := l'
  obtain ⟨rest, special, takes, change, puts, prompt⟩ := move
  rw [change.views]
  rcases (puts.mem_iff rfl).1 hi with hi | hi
  · refine ⟨prompt n hi, ?_⟩
    cases change with
    | lineGone =>
      cases List.mem_singleton.1 hi
      exact ⟨rfl, (sound.resumed .removing _ takes.mem_did).mono [_]⟩
    | last | resumed =>
      obtain ⟨c, -, hi⟩ := mem_resumption.1 hi
      cases hi
    | _ => simp at hi
  · -- it was the first item before, so it was done, and there is no second one
    obtain ⟨-, ha⟩ := takes.of_head rfl (sound.prompt n (takes.mem hi)).1
    have one := Ticket.heldIn_pos (t := .line n) hi (by simp [Ticket.heldBy])
    have bound := sound.tickets (.line n)
    have issued := Bool.toNat_le ((Ticket.line n).issued l.dialogue l.handles)
    simp only [Ticket.count, ha, Ticket.heldIn_cons, Ticket.heldBy, beq_self_eq_true,
      Bool.toNat_true] at bound
    omega

theorem called_move (name : String) (k : Nat) (use : OutcomeUse)
    (hi : .afterCall name k use ∈ l'.agenda) :
    ∃ x, l'.handles[k]? = some x ∧ x.isCalled = true := by
  obtain ⟨d', hs', a'⟩ := l'
  obtain ⟨rest, special, takes, change, puts, -⟩ := move
  rcases (puts.mem_iff rfl).1 hi with hnew | hold
  · cases change with
    | newHandle quiet name' k' use' own =>
      cases List.mem_singleton.1 hnew
      exact ⟨.fresh name k', by simp, rfl⟩
    | last | resumed =>
      obtain ⟨c, -, hi⟩ := mem_resumption.1 hnew
      cases hi
    | _ => simp at hnew
  · obtain ⟨x, hx, hc⟩ := sound.called name k use (takes.mem hold)
    have hl : k < l.handles.length := (List.getElem?_eq_some_iff.1 hx).1
    cases change with
    | newHandle => exact ⟨x, (List.getElem?_append_left hl).trans hx, hc⟩
    | resumed quiet j y hy =>
      by_cases hj : j = k
      · subst hj
        obtain rfl := Option.some.inj (hx.symm.trans hy)
        exact ⟨_, List.getElem?_set_self hl, by rw [x.resume_isCalled, hc]⟩
      · exact ⟨x, (List.getElem?_set_ne hj).trans hx, hc⟩
    | armed name' j use' y hy =>
      by_cases hj : j = k
      · -- a command is not looked at twice
        subst hj
        have ha := takes.did_eq
        have one := Ticket.heldIn_pos (t := .look j) hold (by simp [Ticket.heldBy])
        have bound := sound.tickets (.look j)
        have issued := Bool.toNat_le ((Ticket.look j).issued l.dialogue l.handles)
        simp only [Ticket.count, ha, Ticket.heldIn_cons, Ticket.heldBy, beq_self_eq_true,
          Bool.toNat_true] at bound
        omega
      · exact ⟨x, (List.getElem?_set_ne hj).trans hx, hc⟩
    | _ => exact ⟨x, hx, hc⟩

theorem settled_move (k : Nat) (o : DispatchOutcome) (use : OutcomeUse)
    (hi : .outcome (some k) o use ∈ l'.agenda ∨ .did (.outcome (some k) o use) ∈ m :: h) :
    k < l'.handles.length ∧ (o ≠ .pause → (Ticket.command k).count l' (m :: h) = 0) := by
  have kept (hi : .outcome (some k) o use ∈ l.agenda ∨ .did (.outcome (some k) o use) ∈ h) :
      k < l'.handles.length ∧ (o ≠ .pause → (Ticket.command k).count l' (m :: h) = 0) := by
    obtain ⟨hl, gone⟩ := sound.settled k o use hi
    have issued : (Ticket.command k).issued l.dialogue l.handles = true :=
      Nat.ble_eq.mpr (Nat.succ_le_of_lt hl)
    refine ⟨Nat.lt_of_lt_of_le hl move.length_le, fun ho => ?_⟩
    exact sound.count_eq_zero move issued (gone ho)
  obtain ⟨d', hs', a'⟩ := l'
  obtain ⟨rest, special, takes, change, puts, -⟩ := move
  rcases hi with hi | hi
  · rcases (puts.mem_iff rfl).1 hi with hnew | hold
    · cases change with
      | armed name j use' x hx =>
        simp only [List.mem_singleton, Item.outcome.injEq, Option.some.injEq] at hnew
        obtain ⟨rfl, rfl, rfl⟩ := hnew
        have hl : k < l.handles.length := (List.getElem?_eq_some_iff.1 hx).1
        refine ⟨by simpa using hl, fun ho => ?_⟩
        -- the command has resumed while it was called: its ticket was with the handle and is lost
        obtain ⟨y, hy, called⟩ := sound.called name k _ takes.mem_did
        obtain rfl := Option.some.inj (hx.symm.trans hy)
        obtain ⟨-, waits⟩ | ⟨finished, -⟩ := x.arm_cases called
        · simp [waits] at ho
        · refine sound.count_eq_zero_of_lost ?_ ?_ rfl ?_ rfl
          · rw [inBooks_command hx]
            cases hp : x.phase <;> simp [ResumeHandle.isCalled, hp] at called ⊢
          · rw [inBooks_command_set hl, finished]
            rfl
          · rw [puts.heldIn_eq, takes.did_eq]
            simp [Ticket.heldIn_cons, Ticket.heldIn_nil, Ticket.heldBy]
      | last | resumed =>
        obtain ⟨c, -, hi⟩ := mem_resumption.1 hnew
        cases hi
      | _ => simp at hnew
    · exact kept (.inl (takes.mem hold))
  · rcases List.mem_cons.1 hi with rfl | hi
    · exact kept (.inl takes.mem_did)
    · exact kept (.inr hi)

/-- Every move keeps the invariant, if nobody completes a token that nobody was given. -/
theorem moved (owned : ∀ c, m = .call c → Owned c h) : Sound l' (m :: h) where
  own := by
    obtain ⟨d', hs', a'⟩ := l'
    obtain ⟨rest, special, takes, change, -, -⟩ := move
    exact change.ownHandles sound.own
  serial := by rw [move.lineSerial, sound.serial, presented_cons]
  tickets t := by
    -- a move issues at most the tickets that it creates
    have le := move.count_le (h := h) sound.own t
    have bound := sound.tickets t
    omega
  fresh := sound.fresh_move move
  sole := sound.sole_move move
  owed := sound.owed_move move owned
  resumed := sound.resumed_move move owned
  delivered := sound.delivered_move move
  prompt := sound.prompt_move move
  called := sound.called_move move
  settled := sound.settled_move move

end Sound

end

/-! ### Runs -/

/-- A session of which nothing has been asked yet. Its settings, its views and its engine, and what
else the host gives it, may be any. -/
structure IsFresh (s : Session) : Prop where
  agenda : s.agenda = []
  handles : s.handles = []
  dialogue : s.dialogue =
    { settings := s.dialogue.settings, slots := s.dialogue.slots, strings := s.dialogue.strings }

/-- The host completes only tokens that its views have been given. -/
def Honest (_ : Session) (h : History) (c : Call) : Prop := Owned c h

variable {s₀ s : Session} {h : History}

theorem IsFresh.sound (fresh : s₀.IsFresh) : Sound s₀.ledger [] := by
  have agenda : s₀.ledger.agenda = [] := fresh.agenda
  have handles : s₀.ledger.handles = [] := fresh.handles
  have line : s₀.ledger.dialogue.line = none := by rw [ledger, fresh.dialogue]
  have offer : s₀.ledger.dialogue.offer = none := by rw [ledger, fresh.dialogue]
  have stored : s₀.ledger.dialogue.barrier.stored = none := by rw [ledger, fresh.dialogue]
  have serial : s₀.ledger.dialogue.lineSerial = 0 := by rw [ledger, fresh.dialogue]
  have issued {b : LineBroadcast} {n g : Nat} : ¬ Issued s₀.ledger [] b n g := by
    rintro ⟨i, hi | hi, -⟩
    · rw [agenda] at hi
      cases hi
    · cases hi
  exact
    { own := fun k x hx => by simp [handles] at hx
      serial := serial
      tickets := fun t => by
        have books : t.inBooks s₀.ledger.dialogue s₀.ledger.handles = false := by
          cases t with
          | broadcast b => cases b <;> simp [Ticket.inBooks, line]
          | line | choice | offer | command | look =>
            simp [Ticket.inBooks, line, offer, handles]
        simp [Ticket.count, Ticket.value, books, stored, agenda, Ticket.heldIn_nil,
          Ticket.heldIn_resumption_none]
      fresh := fun b n g hi => absurd hi issued
      sole := fun b n g g' hi => absurd hi issued
      owed := fun b n hk => by simp [stored] at hk
      resumed := fun b n hi => by simp [agenda] at hi
      delivered := fun l hl => by simp [line] at hl
      prompt := fun n hi => by simp [agenda] at hi
      called := fun name k use hi => by simp [agenda] at hi
      settled := fun k o use hi => by simp [agenda] at hi }

/-- Views neither come nor go. -/
theorem Run.views {allowed : Session → History → Call → Prop} (r : Run allowed s₀ s h) :
    s.dialogue.views = s₀.dialogue.views := by
  refine r.moves (motive := fun l _ => l.dialogue.views = s₀.dialogue.views) rfl ?_
  intro s h m l _ move _ ih
  obtain ⟨d', hs', a'⟩ := l
  obtain ⟨rest, special, -, change, -, -⟩ := move
  exact change.views.trans ih

/-- Lines are numbered in the order in which they are presented. -/
theorem Run.lineSerial {allowed : Session → History → Call → Prop} (fresh : s₀.IsFresh)
    (r : Run allowed s₀ s h) : s.dialogue.lineSerial = presented h := by
  refine r.moves (motive := fun l h => l.dialogue.lineSerial = presented h) ?_ ?_
  · rw [ledger, fresh.dialogue]
    rfl
  · intro s h m l _ move _ ih
    rw [move.lineSerial, ih, presented_cons]

/-- The invariant holds in every state of every run. -/
theorem Run.sound (fresh : s₀.IsFresh) (r : Run Honest s₀ s h) : Sound s.ledger h :=
  r.moves fresh.sound fun _ move owned sound => sound.moved move owned

end Session

end Prompter

import Prompter.Proofs.Session.Handover

/-!
# Prompter.Proofs.Session.Awaited

What a dialogue waits for when it is running and nothing is under way.

What keeps a running dialogue going is handed on from the engine to what the engine has reported,
and back (`Run.baton`): as long as it is with the engine or on the agenda, something is still to be
done. So a dialogue at rest has it in its books: a line is presented, or an offer is open, or a
command has paused (`run_awaitsOne`).
-/

namespace Prompter

namespace Session

variable {s₀ s s' : Session} {h : History} {m : Mark} {e e' : Engine} {rest : List Item} {i : Item}

/-- The dialogue is started once, it is started and stopped only while nothing is under way, and the
engine is left to it and is the only source of events. -/
def Single (s : Session) (h : History) (c : Call) : Prop :=
  c.leavesEngine = true ∧ Owned c h ∧
    match c with
    | .start _ => s.agenda = [] ∧ .did .finish ∉ h
    | .stop => s.agenda = []
    | .deliver _ => False
    | _ => True

/-! ### One mark after the other -/

section

variable {allowed : Session → History → Call → Prop}

/-- No line has the serial number 0. -/
theorem Run.no_line_zero (fresh : s₀.IsFresh) (r : Run Honest s₀ s h) :
    (Ticket.line 0).count s.ledger h = 0 := by
  suffices known : Sound s.ledger h ∧ (Ticket.line 0).count s.ledger h = 0 from known.2
  refine r.moves (motive := fun l h => Sound l h ∧ (Ticket.line 0).count l h = 0)
    ⟨fresh.sound, ?_⟩ fun _ move owned known =>
      ⟨known.1.moved move owned, known.1.count_eq_zero move rfl known.2⟩
  have line : s₀.ledger.dialogue.line = none := by rw [ledger, fresh.dialogue]
  have stored : s₀.ledger.dialogue.barrier.stored = none := by rw [ledger, fresh.dialogue]
  have agenda : s₀.ledger.agenda = [] := fresh.agenda
  simp [Ticket.count, Ticket.value, Ticket.inBooks, line, stored, agenda,
    Ticket.heldIn_nil, Ticket.heldIn_resumption_none]

/-- A line that all views have taken away is still presented in the books. -/
theorem Baton.presented (b : Baton s h e) (sound : Sound s.ledger h)
    (zero : (Ticket.line 0).count s.ledger h = 0)
    (top : s.agenda = .resume (.lineGone s.dialogue.lineSerial) :: rest) :
    s.dialogue.line.isSome = true := by
  have held : 0 < (Ticket.line s.dialogue.lineSerial).heldIn s.ledger.agenda :=
    Ticket.heldIn_pos (top ▸ List.mem_cons_self) (by simp [Ticket.heldBy])
  cases none : s.dialogue.line with
  | some line => rfl
  | none =>
    rcases b.gone none with first | asked | done
    · -- no line has been presented, so none is taken away
      rw [first] at held
      rw [Ticket.count] at zero
      omega
    · -- the request to the engine would be first
      obtain ⟨head, -⟩ := sound.prompt _ asked
      rw [show s.ledger.agenda = s.agenda from rfl, top] at head
      cases head
    · -- the ticket would have been spent
      exact absurd done (sound.not_mem_of_heldIn held (by
        simp [Ticket.spentAt, Ticket.heldBy, Ticket.spends]))

/-- Whatever item a session does, the baton is handed on, or the dialogue is about to end. -/
theorem Baton.worked (b : Baton s h e) (sound : Sound s.ledger h)
    (zero : (Ticket.line 0).count s.ledger h = 0)
    (known : ∀ name k, .afterCall name k (.event .engine) ∈ s.agenda →
      ∃ x, s.handles[k]? = some x ∧ x.continuation = .commandDone k)
    (busy : s.awaitsHost = false) (top : s.agenda = i :: rest) :
    (∃ e', Baton s.step.1 (.did i :: h) e') ∨ s.step.1.agenda.head? = some .finish := by
  have works : i.callsHost = false := by
    unfold awaitsHost at busy
    cases i <;> simp [top] at busy <;> rfl
  rw [step_eq_work busy top]
  -- what does not concern the engine
  have aside (others : i.ofEngine = false ∧ i.isChoice = false)
      (passes : Passes i.stake { s with agenda := rest }
        (Session.work { s with agenda := rest } i).1) :
      ∃ e', Baton (Session.work { s with agenda := rest } i).1 (.did i :: h) e' := by
    refine ⟨e, b.passes [i] (top ▸ .did i rest) top (List.forall_mem_singleton.2 others) ?_
      passes⟩
    rw [top]
    rintro same
    obtain rfl : i = .turn := Option.some.inj same
    cases others.1
  rcases b.regular i (top ▸ List.mem_cons_self) with
    outside | ⟨name, k, x, rfl, hx, same⟩ | part | ⟨n, id, rfl⟩
  · by_cases asks : ∃ c, i = .continueEngine c
    · obtain ⟨c, rfl⟩ := asks
      exact .inl (b.continueEngine top)
    · refine .inl (aside ⟨ofEngine_of_isOutside outside, isChoice_of_isOutside outside⟩ ?_)
      refine (work_works _ i).passes outside (fun c same => asks ⟨c, same⟩) b.held sound.own ?_ ?_
      · rintro line offer rfl
        obtain ⟨-, booked, -, -⟩ := b.stake_eq_zero top rfl
        refine toNat_isSome_eq_zero.1 (?_ : s.dialogue.line.isSome.toNat = 0)
        unfold Session.booked at booked
        omega
      · rintro rfl
        exact b.presented sound zero top
  · refine .inl (aside ⟨rfl, rfl⟩ (afterCall_passes _ name k fun y hy => ?_))
    obtain rfl := Option.some.inj (hx.symm.trans hy)
    exact same
  · cases i with
    | turn => exact .inl (b.turn top)
    | ask | invoke => cases works
    | hear r event =>
      cases r with
      | host => cases part
      | engine =>
        by_cases ends : event = .dialogueEnd
        · subst ends
          exact .inr rfl
        · exact .inl ⟨e, b.hear top ends⟩
    | conclude r x =>
      cases r with
      | host => cases part
      | engine => exact .inl (b.conclude top)
    | afterCall name k use =>
      rcases use with (_ | _) | _
      · obtain ⟨x, hx, own⟩ := known name k (top ▸ List.mem_cons_self)
        exact .inl ⟨e, b.afterCall top hx own⟩
      · cases part
      · cases part
    | outcome k o use =>
      rcases use with (_ | _) | _
      · exact .inl (b.outcome top)
      · cases part
      · cases part
    | _ => cases part
  · exact .inl (b.chooseOption top)

/-- Whatever is requested of a session, the baton is handed on, or the dialogue is about to end. -/
theorem Baton.called {c : Call} (b : Baton s h e) (sound : Sound s.ledger h)
    (word : s.awaitsHost = true) (ok : Single s h c) :
    (∃ e', Baton (s.call c).1 (.call c :: h) e') ∨ (s.call c).1.agenda.head? = some .finish := by
  have takes : Takes (.call c) s.agenda s.agenda := .call c _ (callsHost_of_awaitsHost word)
  have free : .turn ∉ s.agenda.head? := fun first => by
    cases callsHost_of_awaitsHost word _ first
  obtain ⟨left, -, rule⟩ := ok
  by_cases outside : c.isOutside = true
  · exact .inl ⟨e, b.passes [] takes rfl (by simp) free
      ((call_requests s c).passes outside sound.own b.lines)⟩
  · cases c with
    | start n => exact .inl (b.start rule.1)
    | stop =>
      simp only [Session.call, Session.stop, b.engine]
      split
      · exact .inr rfl
      · exact .inl ⟨e, b.same takes free⟩
    | deliver => exact rule.elim
    | select n id => exact .inl ⟨e, b.select takes free⟩
    | _ => exact absurd left outside

/-- Whatever the host answers, the baton is handed on. -/
theorem Baton.answered (b : Baton s h e) (x : Answer) (fits : s.accepts x = true) :
    ∃ e', Baton (s.answer x).1 (.answer x :: h) e' := by
  have aside {i : Item} {rest : List Item} (top : s.agenda = i :: rest) (calls : i.callsHost = true)
      (others : i.ofEngine = false ∧ i.isChoice = false) (idle : i.stake = 0) :
      Baton { s with agenda := rest } (.answer x :: h) e := by
    refine b.passes [i] (top ▸ .answer x i rest calls) top
      (List.forall_mem_singleton.2 others) ?_ ?_
    · rw [top]
      rintro same
      obtain rfl : i = .turn := Option.some.inj same
      cases others.1
    · rw [owing_cons, idle]
      exact .refl _
  have answered := answered_of_accepts fits
  generalize (s.answer x).1 = s' at answered ⊢
  cases answered with
  | heard n rest top => exact ⟨e, aside top rfl ⟨rfl, rfl⟩ rfl⟩
  | action key event rest x top => exact (Expects.unasked (top ▸ b.expects)).elim
  | received key args rest v top => exact b.receive top v
  | replied key args rest v top => exact ⟨e, aside top rfl ⟨rfl, rfl⟩ rfl⟩

/-- Only the start of the dialogue makes it run. -/
theorem Happens.runs (happens : Happens s m s') (quiet : ∀ n, m ≠ .call (.start n))
    (ended : s.dialogue.running = false) : s'.dialogue.running = false := by
  obtain ⟨rest, special, -, change, -, -⟩ := happens.move
  have ledger : s'.ledger.dialogue = s'.dialogue := rfl
  rw [← ledger]
  generalize s'.ledger.dialogue = d' at change
  generalize s'.ledger.handles = hs' at change
  cases change with
  | opened n => exact absurd rfl (quiet n)
  | finish => rfl
  | _ => exact ended

theorem IsAttached.baton (at₀ : s₀.IsAttached) : ∃ e, Baton s₀ [] e := by
  obtain ⟨script, engine, held, coherent, engages⟩ := at₀.attends
  have agenda := at₀.agenda
  have handles := at₀.handles
  have dialogue := at₀.dialogue
  have line : s₀.dialogue.line = none := by rw [dialogue]
  have offer : s₀.dialogue.offer = none := by rw [dialogue]
  have stored : s₀.dialogue.barrier.stored = none := by rw [dialogue]
  have running : s₀.dialogue.running = false := by rw [dialogue]
  have serial : s₀.dialogue.lineSerial = 0 := by rw [dialogue]
  exact ⟨_,
    { engine := engine
      held := held
      coherent := coherent
      expects := ⟨engages, rfl⟩
      total := by
        rw [stake, booked, line, offer, handles, agenda, running]
        rfl
      started := fun busy => absurd rfl busy
      inside := fun runs => by
        rw [running] at runs
        cases runs
      choice := by
        rw [offer, agenda]
        rfl
      front := by simp [agenda]
      regular := by simp [agenda]
      lines := by simp [stored]
      gone := fun _ => .inl serial
      paused := by simp [handles] }⟩

theorem Single.honest (s : Session) (h : History) (c : Call) (ok : Single s h c) : Honest s h c :=
  ok.2.1

/-- The baton is handed on until the dialogue ends. -/
theorem Run.baton (at₀ : s₀.IsAttached) (r : Run Single s₀ s h) :
    (∃ e, Baton s h e) ∨ s.agenda.head? = some .finish ∨
      (.did .finish ∈ h ∧ s.dialogue.running = false) := by
  induction h generalizing s with
  | nil =>
    cases r
    exact .inl at₀.baton
  | cons m h ih =>
    obtain ⟨s₁, r₁, happens⟩ := r.last
    rcases ih r₁ with ⟨e, b⟩ | ending | ⟨ended, past⟩
    · have sound := (r₁.weaken Single.honest).sound at₀.toIsFresh
      have zero := (r₁.weaken Single.honest).no_line_zero at₀.toIsFresh
      have onward {s' : Session} (on : (∃ e', Baton s' (m :: h) e') ∨
          s'.agenda.head? = some .finish) : (∃ e', Baton s' (m :: h) e') ∨
          s'.agenda.head? = some .finish ∨ (.did .finish ∈ m :: h ∧ s'.dialogue.running = false) :=
        on.imp_right .inl
      cases happens with
      | work busy top =>
        exact onward (b.worked sound zero
          (fun name k hi => r₁.continuation at₀.toIsFresh (.inl hi) rfl) busy top)
      | call word c => exact onward (b.called sound word (r₁.allowed_of_call r))
      | answer x fits => exact onward (.inl (b.answered x fits))
    · obtain rfl := happens.of_busy rfl ending
      obtain ⟨rest, top, rfl⟩ := happens.top
      refine .inr (.inr ⟨List.mem_cons_self, ?_⟩)
      simp only [Session.work, Session.finish]
      split
      · rfl
      · next past => exact Bool.not_eq_true _ ▸ past
    · refine .inr (.inr ⟨List.mem_cons_of_mem m ended, happens.runs ?_ past⟩)
      rintro n rfl
      exact (r₁.allowed_of_call r).2.2.2 ended

/-! ### At rest -/

/-- A command of the script has paused, and its handle has not been resumed since. -/
def IsHeld (s : Session) (h : History) (k : Nat) : Prop := Paused k h ∧ s.isArmed k = true

/-- What a dialogue waits for: one thing, whichever it is. -/
inductive AwaitsOne (s : Session) (h : History) : Prop
  /-- A line is presented. -/
  | line (presented : s.dialogue.line.isSome = true) (unoffered : s.dialogue.offer = none)
      (unheld : ∀ k, ¬ IsHeld s h k) : AwaitsOne s h
  /-- Options are offered, and the engine waits for a choice that has not been made. -/
  | choice (unpresented : s.dialogue.line = none) (offered : s.dialogue.offer.isSome = true)
      (unheld : ∀ k, ¬ IsHeld s h k)
      (undecided : ∃ e, s.engine = .script e ∧ e.choices.isSome = true ∧ e.selected = none) :
      AwaitsOne s h
  /-- One command has paused. -/
  | command (unpresented : s.dialogue.line = none) (unoffered : s.dialogue.offer = none)
      (held : ∃ k, IsHeld s h k ∧ ∀ k', IsHeld s h k' → k' = k) : AwaitsOne s h

/-- The script waits for the commands that have paused and not been resumed. -/
theorem Baton.isHeld_iff (b : Baton s h e) (fresh : s₀.IsFresh) (r : Run allowed s₀ s h)
    (done : s.agenda = []) (k : Nat) :
    IsHeld s h k ↔ ∃ x, s.handles[k]? = some x ∧ x.holds = true := by
  constructor
  · rintro ⟨paused, armed⟩
    obtain ⟨x, hx, own⟩ := r.continuation fresh (.inr paused) rfl
    simp only [isArmed, hx] at armed
    refine ⟨x, hx, ?_⟩
    rw [ResumeHandle.holds, armed, own]
    rfl
  · rintro ⟨x, hx, hold⟩
    have armed := hold
    rw [ResumeHandle.holds, Bool.and_eq_true] at armed
    have armed := armed.1
    refine ⟨?_, by simpa only [isArmed, hx] using armed⟩
    refine (b.paused k x hx hold).resolve_left ?_
    rw [done]
    exact List.not_mem_nil

end

/-- A running dialogue with nothing under way waits for exactly one thing: for a line, for a choice
or for a command. -/
theorem run_awaitsOne (at₀ : s₀.IsAttached) (r : Run Single s₀ s h) (done : s.agenda = [])
    (running : s.dialogue.running = true) : AwaitsOne s h := by
  obtain ⟨e, b⟩ : ∃ e, Baton s h e := by
    rcases r.baton at₀ with known | ending | ⟨-, past⟩
    · exact known
    · rw [done] at ending
      cases ending
    · rw [running] at past
      cases past
  obtain ⟨phase, unasked⟩ := Expects.idle_of_done (done ▸ b.expects)
  have held := b.isHeld_iff at₀.toIsFresh r done
  have one : s.dialogue.line.isSome.toNat + s.dialogue.offer.isSome.toNat +
      s.handles.countP ResumeHandle.holds = 1 := by
    have total := b.total
    rw [stake, done, Engine.stake, phase, unasked, running] at total
    exact total
  have unheld (none : s.handles.countP ResumeHandle.holds = 0) (k : Nat) : ¬ IsHeld s h k := by
    rw [held]
    rintro ⟨x, hx, hold⟩
    exact List.countP_eq_zero.1 none x (List.mem_of_getElem? hx) hold
  cases line : s.dialogue.line with
  | some l =>
    rw [line, Option.isSome_some, Bool.toNat_true] at one
    exact .line (by rw [line]; rfl) (toNat_isSome_eq_zero.1 (by omega)) (unheld (by omega))
  | none =>
    rw [line, Option.isSome_none, Bool.toNat_false] at one
    cases offer : s.dialogue.offer with
    | some o =>
      rw [offer, Option.isSome_some, Bool.toNat_true] at one
      have choice := b.choice
      rw [offer, done] at choice
      have undecided : e.isUndecided = true := by
        cases hu : e.isUndecided with
        | true => rfl
        | false =>
          rw [hu] at choice
          cases choice
      rw [Engine.isUndecided, Bool.and_eq_true, Option.isNone_iff_eq_none] at undecided
      exact .choice line (by rw [offer]; rfl) (unheld (by omega)) ⟨e, b.engine, undecided⟩
    | none =>
      rw [offer, Option.isSome_none, Bool.toNat_false, Nat.zero_add] at one
      obtain ⟨x, hm, hold⟩ := List.countP_pos_iff.1 (Nat.lt_of_lt_of_eq Nat.one_pos one.symm)
      obtain ⟨k, hx⟩ := List.getElem?_of_mem hm
      refine .command line offer ⟨k, (held k).2 ⟨x, hx, hold⟩, fun k' held' => ?_⟩
      obtain ⟨x', hx', hold'⟩ := (held k').1 held'
      exact eq_of_holds one hx hold hx' hold'

/-- A command holds a dialogue, and when it resumes a line is presented. -/
theorem awaitsOne_of_holdThenLine :
    ∃ s h s' h', Run Single holdThenLine s h ∧ s.agenda = [] ∧ IsHeld s h 0 ∧ AwaitsOne s h ∧
      Run Single holdThenLine s' h' ∧ s'.agenda = [] ∧ s'.dialogue.line.isSome = true ∧
      AwaitsOne s' h' := by
  have r : Run Single holdThenLine holdThenLine [] := .refl
  have r := r.call rfl (.start (some "Start")) ⟨rfl, nofun, rfl, nofun⟩
  -- the view hears of the start and of the node, and the command pauses
  have r := ((r.works 30).answer .heard rfl).works 30
  have r := (((r.answer .heard rfl).works 30).answer .heard rfl).works 30
  -- it resumes, and the view is shown the line
  have r' := (r.call rfl (.resume 0) ⟨rfl, nofun, trivial⟩).works 30
  have r' := (r'.answer .heard rfl).works 30
  refine ⟨_, _, _, _, r, rfl, ⟨?_, rfl⟩, run_awaitsOne isAttached_holdThenLine r rfl rfl, r', rfl,
    rfl, run_awaitsOne isAttached_holdThenLine r' rfl rfl⟩
  exact List.mem_of_getElem? (i := 4) rfl

end Session

end Prompter

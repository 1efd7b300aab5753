import Prompter.Proofs.Session.Engagement

/-!
# Prompter.Proofs.Session.LateResume

What a resume does that comes when the dialogue of its command has ended.

The handle of a pausing command outlives the dialogue: neither the end of the dialogue nor a new
start uses it up. Nothing in what it forwards says which dialogue the command belonged to, so the
engine goes on as if the command it waits for had resumed. `run_resumes` says exactly when that
makes the engine report something, which does not depend on whether the command is from this
dialogue or from an earlier one.
-/

namespace Prompter

/-- Whether the engine has something to report when it is asked to go on. -/
def Engine.isReady (e : Engine) : Bool :=
  e.node.isSome && (e.choices.isNone || e.selected.isSome)

/-- Whether the engine is on its way to its next report. -/
def Engine.reports (e : Engine) : Bool :=
  match e.phase with
  | .step | .settle .next => e.isReady
  | .evaluate _ _ _ | .calling _ _ => true
  | _ => false

/-- The handle of a command that an event has brought, while its outcome is not known or told. -/
def Item.dispatched : Item → Option Nat
  | .afterCall _ k (.event _) | .outcome (some k) _ (.event _) => some k
  | _ => none

namespace Session

/-- A command that the engine has reported has made the engine wait. -/
def Paused (k : Nat) (h : History) : Prop := .did (.outcome (some k) .pause (.event .engine)) ∈ h

/-- The dialogue has ended since a command made the engine wait. -/
def Late (k : Nat) (h : History) : Prop :=
  ∃ newer older, h = newer ++ older ∧ Paused k older ∧ .did .finish ∈ newer

theorem Late.paused {k : Nat} {h : History} (late : Late k h) : Paused k h := by
  obtain ⟨newer, older, rfl, paused, -⟩ := late
  exact List.mem_append_right newer paused

/-- The host makes no requests but from inside the calls that it gets. -/
def Nested (s : Session) (h : History) (c : Call) : Prop := Driven s h c ∧ s.agenda ≠ []

/-- Whether a resume of a handle would be forwarded. -/
def isArmed (s : Session) (k : Nat) : Bool :=
  match s.handles[k]? with
  | some x => x.phase = .armed
  | none => false

/-- Whether the engine has something to report when it is asked to go on. -/
def isReady (s : Session) : Bool :=
  match s.engine with
  | .script e => e.isReady
  | _ => false

variable {allowed : Session → History → Call → Prop} {s₀ s : Session} {h : History}

/-! ### Handles of commands -/

theorem Change.continuation {d d' : Dialogue} {hs hs' : List (ResumeHandle Continuation)}
    {m : Mark} {special : List Item} (c : Change d hs m d' hs' special) {k : Nat}
    {x : ResumeHandle Continuation} (hx : hs[k]? = some x) :
    ∃ x', hs'[k]? = some x' ∧ x'.continuation = x.continuation := by
  have hk : k < hs.length := (List.getElem?_eq_some_iff.1 hx).1
  have set {j : Nat} {y y' : ResumeHandle Continuation} (hy : hs[j]? = some y)
      (same : y'.continuation = y.continuation) :
      ∃ x', (hs.set j y')[k]? = some x' ∧ x'.continuation = x.continuation := by
    by_cases hj : j = k
    · subst hj
      obtain rfl : y = x := Option.some.inj (hy.symm.trans hx)
      exact ⟨y', by simp [hk], same⟩
    · exact ⟨x, by simp [hj, hx], rfl⟩
  cases c with
  | resumed quiet j y hy => exact set hy y.resume_continuation
  | armed name j use y hy => exact set hy y.arm_continuation
  | newHandle => exact ⟨x, (List.getElem?_append_left hk).trans hx, rfl⟩
  | _ => exact ⟨x, hx, rfl⟩

theorem not_plain_of_dispatched {i : Item} {k : Nat} (hi : i.dispatched = some k) :
    i.isPlain = false := by
  unfold Item.dispatched at hi
  split at hi
  · rfl
  · rfl
  · cases hi

/-- The handle of a command that an event has brought lets the engine go on. -/
theorem Run.continuation (fresh : s₀.IsFresh) (r : Run allowed s₀ s h) {i : Item} {k : Nat}
    (seen : i ∈ s.agenda ∨ .did i ∈ h) (hi : i.dispatched = some k) :
    ∃ x, s.handles[k]? = some x ∧ x.continuation = .commandDone k := by
  refine r.moves (motive := fun l h => ∀ i k, (i ∈ l.agenda ∨ Mark.did i ∈ h) →
    i.dispatched = some k → ∃ x, l.handles[k]? = some x ∧ x.continuation = .commandDone k)
    ?_ ?_ i k seen hi
  · rintro i k (hm | hm) -
    · rw [show s₀.ledger.agenda = [] from fresh.agenda] at hm
      cases hm
    · cases hm
  · intro s h m l r move _ ih i k seen hi
    obtain ⟨d', hs', a'⟩ := l
    obtain ⟨rest, special, takes, change, puts, -⟩ := move
    have old (seen : i ∈ s.ledger.agenda ∨ Mark.did i ∈ h) :
        ∃ x, hs'[k]? = some x ∧ x.continuation = .commandDone k := by
      obtain ⟨x, hx, hc⟩ := ih i k seen hi
      obtain ⟨x', hx', same⟩ := change.continuation hx
      exact ⟨x', hx', same.trans hc⟩
    rcases seen with hm | hm
    · rcases (puts.mem_iff (not_plain_of_dispatched hi)).1 hm with hm | hm
      · cases change with
        | newHandle quiet name c use own =>
          obtain rfl := List.mem_singleton.1 hm
          cases use with
          | reply => cases hi
          | event r =>
            obtain rfl : s.ledger.handles.length = k := Option.some.inj hi
            rcases own with own | ⟨own, -⟩
            · exact ⟨_, List.getElem?_concat_length, own⟩
            · cases own
        | armed name j use x hx =>
          obtain rfl := List.mem_singleton.1 hm
          cases use with
          | reply => cases hi
          | event r =>
            obtain rfl : j = k := Option.some.inj hi
            obtain ⟨y, hy, hc⟩ := ih (.afterCall name j (.event r)) j (.inl takes.mem_did) rfl
            obtain rfl : x = y := Option.some.inj (hx.symm.trans hy)
            have hj : j < s.ledger.handles.length := (List.getElem?_eq_some_iff.1 hx).1
            exact ⟨x.arm.1, by simp [hj], x.arm_continuation.trans hc⟩
        | last | resumed =>
          obtain ⟨c, -, rfl⟩ := mem_resumption.1 hm
          cases hi
        | choose | echo | callNext =>
          simp only [List.mem_cons, List.not_mem_nil, or_false] at hm
          rcases hm with rfl | rfl <;> cases hi
        | present | immediate | waiting | dismiss | lineGone | commandDone =>
          obtain rfl := List.mem_singleton.1 hm
          cases hi
        | plain | opened | lineShown | interrupt | finish | offer | owed => cases hm
      · exact old (.inl (takes.mem hm))
    · rcases List.mem_cons.1 hm with rfl | hm
      · exact old (.inl takes.mem_did)
      · exact old (.inr hm)

/-! ### What comes of a state, if the host only makes requests from inside the calls that it gets -/

/-- The engine reports nothing. -/
def Silent (s : Session) : Prop :=
  ∀ s' h, Run Nested s s' h → ∀ event, .did (.hear .engine event) ∉ h

/-- The engine reports something before everything is done. -/
def Loud (s : Session) : Prop :=
  ∀ s' h, Run Nested s s' h → s'.agenda = [] → ∃ event, .did (.hear .engine event) ∈ h

section

variable {s' : Session} {i : Item} {rest : List Item}

/-- With nothing left to do, nothing more happens. -/
theorem Run.of_done (r : Run Nested s s' h) (done : s.agenda = []) : s' = s ∧ h = [] := by
  induction r with
  | refl => exact ⟨rfl, rfl⟩
  | work _ _ top ih =>
    obtain ⟨rfl, -⟩ := ih
    rw [done] at top
    cases top
  | call _ _ _ ok ih =>
    obtain ⟨rfl, -⟩ := ih
    exact absurd done ok.2
  | answer _ x fits ih =>
    obtain ⟨rfl, -⟩ := ih
    simp [accepts, done] at fits

/-- A session that is busy has not begun to work yet, or has done what is first on its agenda. -/
theorem Run.peel (r : Run Nested s s' h) (busy : s.awaitsHost = false)
    (top : s.agenda = i :: rest) :
    (s' = s ∧ h = []) ∨ ∃ h', h = h' ++ [.did i] ∧ Run Nested s.step.1 s' h' := by
  induction r with
  | refl => exact .inl ⟨rfl, rfl⟩
  | @work s' h r busy' j rest' top' ih =>
    rcases ih with ⟨rfl, rfl⟩ | ⟨h', rfl, r'⟩
    · rw [top] at top'
      cases top'
      exact .inr ⟨[], rfl, .refl⟩
    · exact .inr ⟨.did j :: h', rfl, r'.work busy' top'⟩
  | @call s' h r word c ok ih =>
    rcases ih with ⟨rfl, rfl⟩ | ⟨h', rfl, r'⟩
    · exact Bool.noConfusion (word.symm.trans busy)
    · exact .inr ⟨.call c :: h', rfl, r'.call word c ok⟩
  | answer r x fits ih =>
    rcases ih with ⟨rfl, rfl⟩ | ⟨h', rfl, r'⟩
    · exact Bool.noConfusion ((awaitsHost_of_accepts fits).symm.trans busy)
    · exact .inr ⟨.answer x :: h', rfl, r'.answer x fits⟩

theorem Silent.of_step (busy : s.awaitsHost = false) (top : s.agenda = i :: rest)
    (plain : ∀ event, i ≠ .hear .engine event) (silent : Silent s.step.1) : Silent s := by
  intro s' h r event hm
  rcases r.peel busy top with ⟨-, rfl⟩ | ⟨h', rfl, r'⟩
  · cases hm
  · rcases List.mem_append.1 hm with hm | hm
    · exact silent s' h' r' event hm
    · cases List.mem_singleton.1 hm
      exact plain event rfl

theorem Loud.of_step (busy : s.awaitsHost = false) (top : s.agenda = i :: rest)
    (loud : Loud s.step.1) : Loud s := by
  intro s' h r done
  rcases r.peel busy top with ⟨rfl, -⟩ | ⟨h', rfl, r'⟩
  · rw [done] at top
    cases top
  · obtain ⟨event, hm⟩ := loud s' h' r' done
    exact ⟨event, List.mem_append_left _ hm⟩

/-- Leases and replies are silent. -/
theorem Silent.of_agenda (idle : ∀ i ∈ s.agenda, i = .lease ∨ ∃ r, i = .reply r) : Silent s := by
  generalize ha : s.agenda = a at idle
  induction a generalizing s with
  | nil =>
    intro s' h r event hm
    obtain ⟨-, rfl⟩ := r.of_done ha
    cases hm
  | cons i a ih =>
    obtain ⟨hi, rest⟩ := List.forall_mem_cons.1 idle
    rcases hi with rfl | ⟨r, rfl⟩
    · have busy : s.awaitsHost = false := by simp [awaitsHost, ha]
      refine .of_step busy ha (by simp) (ih ?_ rest)
      rw [step_eq_work busy ha]
      rfl
    · have busy : s.awaitsHost = false := by simp [awaitsHost, ha]
      refine .of_step busy ha (by simp) (ih ?_ rest)
      rw [step_eq_work busy ha]
      rfl

end

/-! ### The way to the next report -/

section

variable {e e' : Engine} {m : Mark} {a a' : List Item}

/-- An engine that is on its way to a report is so after a turn, or makes it. -/
theorem reports_of_turned {r : Engine.Request} (t : Engine.Turned .dialogue e e' r)
    (c : e.Coherent) (on : e.reports = true) :
    (∃ event, r = .report .dialogue event) ∨ e'.reports = true := by
  cases t with
  | outside phase out => simp [Engine.reports, phase, Engine.isReady, out] at on
  | undecided phase _ waiting undecided =>
    obtain ⟨destinations, hc⟩ := Option.isSome_iff_exists.1 waiting
    simp [Engine.reports, phase, Engine.isReady, hc, undecided] at on
  | chosen _ inside => exact .inr (by simp [Engine.reports, Engine.isReady, inside])
  | depart | begin | report | offer | closed => exact .inl ⟨_, rfl⟩
  | evaluate | call => exact .inr rfl
  | done p =>
    obtain ⟨inside, -, free⟩ := c.of_performing p
    exact .inr (by simp [Engine.reports, Engine.isReady, Engine.goOn, inside, free])
  | again phase =>
    rcases phase with phase | ⟨phase, -⟩
    · rw [Engine.reports, phase] at on
      exact .inr on
    · simp [Engine.reports, phase] at on
  | pause phase | halt phase | next phase | enter _ _ _ phase | halted _ phase =>
    simp [Engine.reports, phase] at on
  | wait phase => rcases phase with phase | ⟨_, phase⟩ <;> simp [Engine.reports, phase] at on
  | still => exact .inr on

/-- Nobody else gets the word before the report. -/
theorem Drive.reports (d : Drive e m a e' a') (c : e.Coherent) (g : Engages a e.phase)
    (on : e.reports = true) :
    (∃ event rest, a' = .hear .engine event :: rest) ∨ e'.reports = true := by
  -- whoever else has the word finds the engine idle or waiting for an answer
  have busy (free : ∀ i ∈ a.head?, i.holdsEngine = false) : False := by
    rcases g.yields free with phase | ⟨use, phase⟩ <;> simp [Engine.reports, phase] at on
  cases d with
  | quiet | answering => exact .inr on
  | turn around hl rest =>
    rcases reports_of_turned (turned_of_engages c hl) c on with ⟨event, request⟩ | on'
    · exact .inl ⟨event, rest, by rw [request]; rfl⟩
    · exact .inr on'
  | continue_ x rest => exact (busy (by simp [Item.holdsEngine])).elim
  | choose n id => exact (busy (by simp [Item.holdsEngine])).elim
  | heard i x rest hi => exact (busy (by simpa using holdsEngine_of_answersEngine hi)).elim
  | place n node _ items a free => exact (busy free).elim
  | bind n a free => exact (busy free).elim
  | stop items a free => exact (busy free).elim
  | receive v key args rest =>
    obtain ⟨-, purpose, stack, phase⟩ := g.of_invoke
    rw [e.receive_of_calling phase]
    exact .inr rfl

/-- An engine that is on its way to a report gets there before everything is done. -/
theorem Loud.of_reports {s₁ : Session} {h₁ : History} (at₀ : s₀.IsAttached)
    (r₁ : Run Driven s₀ s₁ h₁) (he : s₁.engine = .script e) (on : e.reports = true) : Loud s₁ := by
  intro s h r done
  obtain ⟨e₁, at₁⟩ := r₁.attends at₀
  obtain rfl : e₁ = e := EngineSeat.script.inj (at₁.engine.symm.trans he)
  have way : ∃ e, Attends s e ∧ ((∃ event, Mark.did (.hear .engine event) ∈ h) ∨
      (∃ event rest, s.agenda = .hear .engine event :: rest) ∨ e.reports = true) := by
    refine r₁.drives_from (motive := fun s e h =>
      (∃ event, Mark.did (.hear .engine event) ∈ h) ∨
      (∃ event rest, s.agenda = .hear .engine event :: rest) ∨ e.reports = true)
      (fun _ _ _ ok => ok.1) at₀ at₁ (.inr (.inr on)) ?_ r
    intro s s' e e' m h r r' at_ _ d _ reached
    rcases reached with ⟨event, hm⟩ | ⟨event, rest, top⟩ | on
    · exact .inl ⟨event, List.mem_cons_of_mem m hm⟩
    · -- the report is made now
      obtain ⟨rfl, -⟩ := r.next_did (by simp [awaitsHost, top]) top r'
      exact .inl ⟨event, List.mem_cons_self⟩
    · exact .inr (d.reports at_.coherent at_.engages on)
  obtain ⟨e', at', heard | ⟨event, rest, top⟩ | on'⟩ := way
  · exact heard
  · rw [done] at top
    cases top
  · have engages := at'.engages
    rw [done] at engages
    simp [Engine.reports, engages.idle_of_done] at on'

end

/-! ### A resume step by step -/

section

variable {e : Engine} {k : Nat} {x : ResumeHandle Continuation} {a : List Item}

/-- The session with a handle as it is after a resume. -/
def used (s : Session) (k : Nat) (x : ResumeHandle Continuation) : Session :=
  { s with handles := s.handles.set k x.resume.1 }

theorem call_resume_of_armed (he : s.engine = .script e) (hx : s.handles[k]? = some x)
    (armed : x.phase = .armed) (hc : x.continuation = .commandDone k) :
    (s.call (.resume k)).1 =
      (s.used k x).seated e (.resume (.commandDone k) :: .reply .done :: s.agenda) := by
  have forwarded : x.resume.2.1 = some (.commandDone k) := by
    rcases x.resume_cases with ⟨-, -, hk⟩ | ⟨-, hk⟩
    · rw [hk, hc]
    · simp [ResumeHandle.resume, armed] at hk
  simp [call, resumeHandle, hx, forwarded, push, used, seated, he]

theorem call_resume_of_not_armed (hx : s.handles[k]? = some x) (armed : x.phase ≠ .armed) :
    (s.call (.resume k)).1 = { s.used k x with agenda := .reply .done :: s.agenda } := by
  have kept : x.resume.2.1 = none := by
    rcases x.resume_cases with ⟨armed', -⟩ | ⟨-, hk⟩
    · exact absurd armed' armed
    · exact hk
  simp [call, resumeHandle, hx, kept, push, used]

theorem step_resume (hd : s.held = true) :
    (s.seated e (.resume (.commandDone k) :: a)).step.1 =
      s.seated e (.continueEngine (.command k) :: .lease :: a) := by
  rw [step_eq_work rfl rfl]
  simp [work, resume, exists?, seated, hd, push]

theorem step_continueEngine (c : Cause) :
    (s.seated e (.continueEngine c :: a)).step.1 =
      s.seated e.continue?.1 ((if e.continue?.2 then [.turn] else []) ++ a) := rfl

theorem step_turn {e' : Engine} {r : Engine.Request} (hd : s.held = true)
    (hl : e.listener = some .dialogue)
    (taken : ∀ around : Engine.Surroundings, around.listener = some .dialogue →
      (e.turn around).1 = e' ∧ (e.turn around).2.1 = r)
    (stores : ∀ name v, r ≠ .store name v) :
    (s.seated e (.turn :: a)).step.1 = s.seated e' (requested r ++ a) := by
  rw [step_eq_work rfl rfl]
  exact turn_seated hd hl taken stores

/-- An engine that has nothing to report halts as soon as it is asked to go on. -/
theorem silent_of_not_ready (hd : s.held = true) (hl : e.listener = some .dialogue)
    (phase : e.phase = .step) (unready : e.isReady = false)
    (idle : ∀ i ∈ a, i = .lease ∨ ∃ r, i = .reply r) : Silent (s.seated e (.turn :: a)) := by
  have halts (around : Engine.Surroundings) (listening : around.listener = some .dialogue) :
      (e.turn around).1 = { e with hearer := some .dialogue, phase := .settle .halt } ∧
        (e.turn around).2.1 = .again := by
    cases hn : e.node with
    | none => simp [Engine.turn, phase, Engine.takeStep, listening, hn, Engine.goTo]
    | some node =>
      obtain ⟨destinations, hc⟩ : ∃ destinations, e.choices = some destinations := by
        cases hc : e.choices with
        | none => simp [Engine.isReady, hn, hc] at unready
        | some destinations => exact ⟨destinations, rfl⟩
      have undecided : e.selected = none := by
        simpa [Engine.isReady, hn, hc] using unready
      simp [Engine.turn, phase, Engine.takeStep, listening, hn, hc, undecided, Engine.goTo]
  -- one turn ends the step, and the next one the run
  have first : (s.seated e (.turn :: a)).step.1 =
      s.seated { e with hearer := some .dialogue, phase := .settle .halt } (.turn :: a) :=
    step_turn (r := .again) hd hl halts (by simp)
  have second :
      (s.seated { e with hearer := some .dialogue, phase := .settle .halt } (.turn :: a)).step.1 =
        s.seated { e with hearer := none, phase := .idle } a :=
    step_turn (r := .rest) hd (by simpa using hl) (fun _ _ => ⟨rfl, rfl⟩) (by simp)
  refine .of_step rfl rfl (by simp) ?_
  rw [first]
  refine .of_step rfl rfl (by simp) ?_
  rw [second]
  exact .of_agenda idle

end

/-! ### Every run -/

/-- What a resume does, whatever dialogue its command was reported in. -/
structure Resumes (s : Session) (h : History) (k : Nat) : Prop where
  /-- A resume that is forwarded asks the engine to go on. -/
  forwarded : s.isArmed k = true → ∀ e, s.engine = .script e →
    (works 2 (s.call (.resume k)).1 h).1.engine = .script e.continue?.1
  /-- One that is not leaves the engine alone. -/
  ignored : s.isArmed k = false → (s.call (.resume k)).1.engine = s.engine ∧
    (s.call (.resume k)).1.agenda = .reply .done :: s.agenda
  /-- With nothing else to do, the engine reports something before the resume is through if the
  resume is forwarded and the engine is not waiting for a choice that has not been made. -/
  loud : s.agenda = [] → s.isArmed k = true → s.isReady = true → Loud (s.call (.resume k)).1
  /-- Otherwise it reports nothing. -/
  silent : s.agenda = [] → s.isArmed k = false ∨ s.isReady = false →
    Silent (s.call (.resume k)).1

/-- A resume makes the engine report something exactly if its handle has not been used up and the
engine has something to report, whether or not the dialogue of its command has ended since. -/
theorem run_resumes (at₀ : s₀.IsAttached) (r : Run Driven s₀ s h) {k : Nat} (paused : Paused k h) :
    Resumes s h k := by
  obtain ⟨x, hx, hc⟩ := r.continuation at₀.toIsFresh (.inr paused) rfl
  obtain ⟨e, at_⟩ := r.attends at₀
  have armed_iff : s.isArmed k = true ↔ x.phase = .armed := by simp [isArmed, hx]
  have hd : (s.used k x).held = true := at_.held
  have hl : e.listener = some .dialogue := at_.coherent.listener
  -- the resume runs its continuation, which asks the engine to go on
  have called (armed : x.phase = .armed) := call_resume_of_armed at_.engine hx armed hc
  have resumed := step_resume (e := e) (k := k) (a := .reply .done :: s.agenda) hd
  have asked := step_continueEngine (s := s.used k x) (e := e)
    (a := .lease :: .reply .done :: s.agenda) (.command k)
  have idle (done : s.agenda = []) : e.phase = .idle := by
    have engages := at_.engages
    rw [done] at engages
    exact engages.idle_of_done
  have goesOn (done : s.agenda = []) : (s.used k x).seated e.continue?.1
      ((if e.continue?.2 then [.turn] else []) ++ .lease :: .reply .done :: s.agenda) =
        (s.used k x).seated { e with phase := .step, resumeRequested := false }
          [.turn, .lease, .reply .done] := by
    rw [e.continue?_of_idle (idle done), done]
    rfl
  refine ⟨fun armed e' he' => ?_, fun unarmed => ?_, fun done armed ready => ?_,
    fun done off => ?_⟩
  · obtain rfl : e = e' := EngineSeat.script.inj (at_.engine.symm.trans he')
    rw [called (armed_iff.1 armed), works_succ rfl rfl, resumed, works_succ rfl rfl, asked]
    rfl
  · have armed : x.phase ≠ .armed := fun armed => by simp [armed_iff.2 armed] at unarmed
    rw [call_resume_of_not_armed hx armed]
    exact ⟨rfl, rfl⟩
  · have armed := armed_iff.1 armed
    have word : s.awaitsHost = true := by simp [awaitsHost, done]
    have r₁ := r.call word (.resume k) ⟨rfl, by simp [done]⟩
    rw [called armed] at r₁ ⊢
    have r₂ := r₁.work rfl rfl
    refine .of_step rfl rfl ?_
    rw [resumed] at r₂ ⊢
    have r₃ := r₂.work rfl rfl
    refine .of_step rfl rfl ?_
    rw [asked, goesOn done] at r₃ ⊢
    refine .of_reports at₀ r₃ rfl ?_
    rw [isReady, at_.engine] at ready
    exact ready
  · cases armed : s.isArmed k with
    | false =>
      have armed : x.phase ≠ .armed := fun h => by simp [armed_iff.2 h] at armed
      rw [call_resume_of_not_armed hx armed]
      refine .of_agenda ?_
      simp [done]
    | true =>
      have armed := armed_iff.1 armed
      have unready : e.isReady = false := by
        simpa [armed_iff.2 armed, isReady, at_.engine] using off
      rw [called armed]
      refine .of_step rfl rfl (by simp) ?_
      rw [resumed]
      refine .of_step rfl rfl (by simp) ?_
      rw [asked, goesOn done]
      refine silent_of_not_ready hd (by simpa using hl) rfl ?_ (by simp)
      simpa [Engine.isReady] using unready

/-- A dialogue with one view and a pausing command, and a script of the command and a line. -/
def holdThenLine : Session :=
  { engine := .script
      { script := ⟨⟨[("Start", [.command "hold", .line "l1" "one" []])], by simp⟩⟩
        listener := some .dialogue }
    dialogue := { slots := [true] }
    commands := { handlers := ⟨⟨[("hold", ⟨[], true, 0⟩)], by simp⟩⟩ }
    storage := some {} }

theorem isAttached_holdThenLine : holdThenLine.IsAttached :=
  { agenda := rfl, handles := rfl, dialogue := rfl, engine := ⟨_, rfl⟩, held := rfl }

/-- The dialogue is stopped and started again while its command holds it. When the first command
resumes, the engine goes on after the second one. -/
theorem run_holdThenLine :
    ∃ s h s' h', Run Driven holdThenLine s h ∧ s.agenda = [] ∧ Late 0 h ∧ s.isArmed 0 = true ∧
      s.isReady = true ∧ Run Nested (s.call (.resume 0)).1 s' h' ∧
      .did (.hear .engine (.line ⟨"l1", "one", []⟩)) ∈ h' := by
  have r : Run Driven holdThenLine holdThenLine [] := .refl
  have r := r.call rfl (.start (some "Start")) ⟨rfl, nofun⟩
  -- the view hears of the start and of the node, and the command pauses
  have r := ((r.works 9).answer .heard rfl).works 9
  have r := (((r.answer .heard rfl).works 9).answer .heard rfl).works 9
  -- the dialogue is stopped
  have r := r.call rfl .stop ⟨rfl, nofun⟩
  have r := ((r.works 9).answer .heard rfl).works 9
  -- and started again, up to the same command
  have r := r.call rfl (.start (some "Start")) ⟨rfl, nofun⟩
  have r := ((r.works 9).answer .heard rfl).works 9
  have r := (((r.answer .heard rfl).works 9).answer .heard rfl).works 9
  refine ⟨_, _, _, _, r, rfl, ⟨_, _, (List.take_append_drop 28 _).symm, ?_, ?_⟩, rfl, rfl,
    Run.works .refl 4, ?_⟩
  · exact List.mem_of_getElem? (i := 3) rfl
  · exact List.mem_of_getElem? (i := 25) rfl
  · exact List.mem_of_getElem? (i := 0) rfl

/-- A resume may make the engine report an event although the dialogue of its command has ended. -/
theorem exists_late_report :
    ¬ ∀ s₀ s h k, IsAttached s₀ → Run Driven s₀ s h → s.agenda = [] → Late k h →
      Silent (s.call (.resume k)).1 := by
  intro isolated
  obtain ⟨s, h, s', h', r, done, late, -, -, r', reported⟩ := run_holdThenLine
  exact isolated _ s h 0 isAttached_holdThenLine r done late s' h' r' _ reported

/-- Here it does. -/
theorem resumes_of_holdThenLine :
    ∃ s h, Run Driven holdThenLine s h ∧ Late 0 h ∧ Loud (s.call (.resume 0)).1 ∧
      Resumes s h 0 := by
  obtain ⟨s, h, s', h', r, done, late, armed, ready, -⟩ := run_holdThenLine
  have resumes := run_resumes isAttached_holdThenLine r late.paused
  exact ⟨s, h, r, late, resumes.loud done armed ready, resumes⟩

end Session

end Prompter

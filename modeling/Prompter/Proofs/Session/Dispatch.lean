import Prompter.Proofs.Command.Meaning
import Prompter.Proofs.Session.Pause

/-!
# Prompter.Proofs.Session.Dispatch

The dispatch of a command does what the command means, once.

A dispatch leaves on the agenda what the host is to be told, if anything, and below it what settles
its outcome. Whatever the host does while it is told stays above that, so that the dispatch goes
through few stages (`Conduct`): the host is to be told, is being told, has been told, and the
outcome is settled. What the dispatch itself has told the host is known in each of them.
-/

namespace Prompter

namespace Resolution

/-- What the host is told because of what a command means. -/
def notices (r : Resolution) (listener : Option HostKey) (text : String) (handle : Option Nat) :
    List Notice :=
  match r with
  | .handler name h args => [.handler h.key name args handle]
  | .method m target args => [.method m target args handle]
  | .refused _ => []
  | .unhandled => (listener.map fun key => .unhandled key text).toList

/-- How the dispatch of a command that means this may end. -/
def Ends (r : Resolution) (o : DispatchOutcome) : Prop :=
  match r with
  | .refused e => o = .failed e
  | .unhandled => o = .unhandled
  | r => o = .done ∨ o = .pause ∧ r.mayPause = true

end Resolution

namespace Session

variable {allowed : Session → History → Call → Prop} {s₀ s s' : Session} {h : History} {m : Mark}

/-- What the dispatch that has led to `s` has told the host itself, and not because of what the host
has requested meanwhile: the agenda is then no longer than the dispatch has left it. -/
def said (s : Session) : History → List Notice
  | [] => []
  | .did (.tell n) :: h =>
    if (after s h).agenda.length ≤ s.agenda.length then n :: said s h else said s h
  | _ :: h => said s h

/-- What the dispatch of a command that means `r`, which has led to `s`, has done so far; `base` is
what is left to be done after it. -/
inductive Enacts (s : Session) (r : Resolution) (calls : List Notice) (handle : Option Nat)
    (use : OutcomeUse) (base : List Item) : History → Prop
  /-- It has not returned, and the host has been told everything or nothing. -/
  | executing {h : History} (executing : Executing s use base h)
      (told : said s h = [] ∨ said s h = calls) : Enacts s r calls handle use base h
  /-- It has returned, the host has been told everything, and the outcome is one that fits. -/
  | returned (later : History) {during : History} {o : DispatchOutcome}
      (executing : Executing s use base during)
      (top : (after s during).agenda = .outcome handle o use :: base)
      (told : said s during = calls) (ends : r.Ends o) :
      Enacts s r calls handle use base (later ++ .did (.outcome handle o use) :: during)

/-! ### What a dispatch leaves on the agenda -/

/-- What settles the dispatch of a command that means `r`, with `task` to be done before. -/
inductive Settling (r : Resolution) (use : OutcomeUse) : Option Nat → List Item → Item → Prop
  /-- The outcome is settled. -/
  | outcome {o : DispatchOutcome} (ends : r.Ends o) :
      Settling r use none [] (.outcome none o use)
  /-- The handle of the command has to be looked at. -/
  | look (k : Nat) (name : String) {task : List Item} (tasks : ∀ i ∈ task, i = .resumeWhenDone k)
      (pauses : r.mayPause = true) : Settling r use (some k) task (.afterCall name k use)

theorem dispatch_agenda (b : Session) (c : Command) (kont : Nat → Continuation)
    (use : OutcomeUse) {r : Resolution} (means : b.commands.Means c r) :
    ∃ task settle, Settling r use (b.handleFor c) task settle ∧
      (b.dispatch c kont use).1.agenda =
        (r.notices b.unhandled c.text (b.handleFor c)).map .tell ++
          (task ++ settle :: b.agenda) := by
  have found := CommandTables.means_iff.1 means
  unfold dispatch handleFor
  rcases hr : b.commands.resolve c with ⟨r', rs⟩
  rw [hr] at found
  obtain rfl : r' = r := found
  dsimp only
  cases pauses : r'.mayPause with
  | true =>
    cases r' with
    | handler name x args =>
      have pausing : x.pausing = true := pauses
      refine ⟨[], .afterCall name b.handles.length use, .look _ name (by simp) pauses, ?_⟩
      simp [Resolution.notices, pausing, newHandle, push]
    | method x target args =>
      have pausing : x.mayPause = true := pauses
      refine ⟨if x.kind = .task then [.resumeWhenDone b.handles.length] else [],
        .afterCall x.name b.handles.length use, .look _ x.name ?_ pauses, ?_⟩
      · split <;> simp
      · simp [Resolution.notices, pausing, newHandle, push]
    | refused | unhandled => cases pauses
  | false =>
    cases r' with
    | handler name x args =>
      have pausing : x.pausing = false := pauses
      refine ⟨[], .outcome none .done use, .outcome (.inl rfl), ?_⟩
      simp [Resolution.notices, pausing, push]
    | method x target args =>
      have pausing : x.mayPause = false := pauses
      refine ⟨[], .outcome none .done use, .outcome (.inl rfl), ?_⟩
      simp [Resolution.notices, pausing, push]
    | refused e =>
      exact ⟨[], .outcome none (.failed e) use, .outcome rfl, rfl⟩
    | unhandled =>
      refine ⟨[], .outcome none .unhandled use, .outcome rfl, ?_⟩
      dsimp only
      split
      · next key listens => simp [Resolution.notices, listens, push]
      · next deaf => simp [Resolution.notices, deaf, push]

/-! ### What is said -/

section

variable {b : Session}

/-- Nothing but telling the host is saying something. -/
theorem said_of_other (other : ∀ n, m ≠ .did (.tell n)) : said b (m :: h) = said b h := by
  cases m with
  | did i =>
    cases i with
    | tell n => exact absurd rfl (other n)
    | _ => rfl
  | _ => rfl

/-- What the host is told while it is being told something else is not said by the dispatch. -/
theorem said_of_above (above : b.agenda.length < (after b h).agenda.length) :
    said b (m :: h) = said b h := by
  cases m with
  | did i =>
    cases i with
    | tell n => simp only [said, Nat.not_le.2 above, if_false]
    | _ => rfl
  | _ => rfl

end

/-! ### The stages of a dispatch -/

/-- How far a dispatch has come that has led to `b`, with `plan` on top of `base`: `calls` is what
the host is to be told, and then come `task` and `settle`. -/
inductive Conduct (b : Session) (r : Resolution) (calls : List Notice) (handle : Option Nat)
    (use : OutcomeUse) (task : List Item) (settle : Item) (base : List Item) :
    Session → History → Prop
  /-- The host is to be told. -/
  | due {s : Session} {h : History} (n : Notice) (call : calls = [n])
      (agenda : s.agenda = .tell n :: (task ++ settle :: base)) (told : said b h = [])
      (executing : Executing b use base h) : Conduct b r calls handle use task settle base s h
  /-- The host is being told, and what it requests meanwhile is `above`. -/
  | calling {s : Session} {h : History} (n : Notice) (above : List Item)
      (agenda : s.agenda = above ++ .telling n :: (task ++ settle :: base))
      (length : b.agenda.length = (task ++ settle :: base).length + 1) (told : said b h = calls)
      (executing : Executing b use base h) : Conduct b r calls handle use task settle base s h
  /-- The host has been told. -/
  | back {s : Session} {h : History} (left : List Item) (part : left <:+ task)
      (agenda : s.agenda = left ++ settle :: base) (told : said b h = calls)
      (executing : Executing b use base h) : Conduct b r calls handle use task settle base s h
  /-- The outcome is settled. -/
  | settled {s : Session} {h : History} {o : DispatchOutcome} (ends : r.Ends o)
      (agenda : s.agenda = .outcome handle o use :: base) (told : said b h = calls)
      (executing : Executing b use base h) : Conduct b r calls handle use task settle base s h
  | returned {s : Session} (later : History) {during : History} {o : DispatchOutcome}
      (executing : Executing b use base during)
      (top : (after b during).agenda = .outcome handle o use :: base)
      (told : said b during = calls) (ends : r.Ends o) :
      Conduct b r calls handle use task settle base s
        (later ++ .did (.outcome handle o use) :: during)

section

variable {b : Session} {r : Resolution} {calls : List Notice} {handle : Option Nat}
  {use : OutcomeUse} {task base : List Item} {settle : Item}

theorem Settling.settles (settling : Settling r use handle task settle) :
    settle.settles use = true := by
  cases settling <;> simp [Item.settles]

/-- A dispatch that has not returned goes on. -/
theorem Settling.goes_on (settling : Settling r use handle task settle)
    (executing : Executing b use base h) (here : after b (m :: h) = s')
    (below : settle :: base <:+ s'.agenda) : Executing b use base (m :: h) :=
  executing.cons ⟨settle, settling.settles, here ▸ below⟩

theorem ends_of_mayPause {o : DispatchOutcome} (pauses : r.mayPause = true)
    (ho : o = .done ∨ o = .pause) : r.Ends o := by
  have may : o = .done ∨ o = .pause ∧ r.mayPause = true := ho.imp_right (⟨·, pauses⟩)
  cases r with
  | handler | method => exact may
  | refused | unhandled => cases pauses

/-- While the host is being told something it makes requests, until it has heard. -/
theorem Happens.telling {n : Notice} {rest : List Item} (happens : Happens s m s')
    (top : s.agenda = .telling n :: rest) :
    (∃ items, s'.agenda = items ++ .telling n :: rest) ∨ s'.agenda = rest := by
  cases happens with
  | work busy => simp [awaitsHost, top] at busy
  | call word c =>
    obtain ⟨items, rest', takes, -, agenda⟩ := call_posts (s := s) c
      (.call c _ (callsHost_of_awaitsHost word))
    cases takes
    exact .inl ⟨items, by rw [agenda, top]⟩
  | answer x fits =>
    right
    cases x with
    | heard => simp only [Session.answer, top]
    | action | value => simp [accepts, top] at fits

/-- What is below the first item of an agenda stays there. -/
theorem Happens.above {j : Item} {rest : List Item} (happens : Happens s m s')
    (top : s.agenda = j :: rest) : ∃ items, s'.agenda = items ++ rest := by
  obtain ⟨items, rest', takes, -, agenda⟩ := happens.posts
  rw [top] at takes
  cases takes with
  | call => exact ⟨items ++ [j], by rw [agenda, List.append_assoc]; rfl⟩
  | did | answer => exact ⟨items, agenda⟩

/-- The look at the handle of a command settles the outcome of its dispatch. -/
theorem Happens.look {k : Nat} {name : String} {rest : List Item} (happens : Happens s m s')
    (top : s.agenda = .afterCall name k use :: rest) {x : ResumeHandle Continuation}
    (hx : s.handles[k]? = some x) :
    m = .did (.afterCall name k use) ∧
      ∃ o, (o = .done ∨ o = .pause) ∧ s'.agenda = .outcome (some k) o use :: rest := by
  obtain rfl := happens.of_busy (i := .afterCall name k use) rfl (by rw [top]; rfl)
  obtain ⟨rest', top', rfl⟩ := happens.top
  rw [top] at top'
  obtain ⟨-, rfl⟩ := List.cons.inj top'
  refine ⟨rfl, ?_⟩
  simp only [Session.work, afterCall, hx]
  split
  · exact ⟨.pause, .inr rfl, rfl⟩
  · exact ⟨.done, .inl rfl, rfl⟩

/-- The handle of a command that is being called. -/
def IsCalled (s : Session) (k : Nat) : Prop := ∃ x, s.handles[k]? = some x ∧ x.isCalled = true

/-- Resuming the handle of a command that is being called lets nothing run. -/
theorem Happens.quiet_resume {k : Nat} {rest : List Item} (happens : Happens s m s')
    (top : s.agenda = .resumeWhenDone k :: rest) (called : s.IsCalled k) :
    m = .did (.resumeWhenDone k) ∧ s'.agenda = rest ∧ s'.IsCalled k := by
  obtain rfl := happens.of_busy (i := .resumeWhenDone k) rfl (by rw [top]; rfl)
  obtain ⟨x, hx, called⟩ := called
  obtain ⟨hk, -⟩ := List.getElem?_eq_some_iff.1 hx
  refine ⟨rfl, ?_⟩
  cases tasks : s.runsTasks with
  | false =>
    have drops : x.resume.2.1 = none := by
      rcases x.resume_cases with ⟨armed, -⟩ | ⟨-, drops⟩
      · simp [ResumeHandle.isCalled, armed] at called
      · exact drops
    rw [happens.resumed (by simp [isResume, tasks]) hx, drops]
    exact ⟨by simp [resumption, through, top], x.resume.1, by simp [hk], by simpa using called⟩
  | true =>
    obtain ⟨rest', top', rfl⟩ := happens.top
    rw [top] at top'
    obtain ⟨-, rfl⟩ := List.cons.inj top'
    have same :
        ({ s with agenda := rest }.work (.resumeWhenDone k)).1 = { s with agenda := rest } := by
      simp [Session.work, resumeWhenDone, tasks]
    rw [same]
    exact ⟨rfl, x, hx, called⟩

/-- Every mark leads from a stage of a dispatch to the next, or leaves it as it is. -/
theorem Conduct.next (settling : Settling r use handle task settle)
    (early : ∀ k ∈ handle, ∀ left, s.agenda = left ++ settle :: base → left <:+ task →
      s.IsCalled k)
    (length : b.agenda.length = calls.length + (task ++ settle :: base).length)
    (at_ : after b h = s) (happens : Happens s m s') (here : after b (m :: h) = s')
    (conduct : Conduct b r calls handle use task settle base s h) :
    Conduct b r calls handle use task settle base s' (m :: h) := by
  cases conduct with
  | due n call agenda told executing =>
    obtain rfl := happens.of_busy (i := .tell n) rfl (by rw [agenda]; rfl)
    obtain ⟨rest, top, rfl⟩ := happens.top
    rw [agenda] at top
    obtain ⟨-, rfl⟩ := List.cons.inj top
    have enough : (after b h).agenda.length ≤ b.agenda.length := by
      rw [at_, agenda, length, call]
      simp only [List.length_append, List.length_cons, List.length_nil]
      omega
    refine .calling n [] rfl (by rw [length, call, List.length_singleton, Nat.add_comm]) ?_
      (settling.goes_on executing here ?_)
    · rw [said, if_pos enough, told, call]
    · exact List.suffix_append (.telling n :: task) _
  | calling n above agenda more told executing =>
    cases above with
    | nil =>
      -- the host is not told anything else before it answers
      have quiet : said b (m :: h) = said b h := by
        refine said_of_other fun n' => ?_
        rintro rfl
        obtain ⟨_, top, -⟩ := happens.top
        rw [agenda] at top
        cases (List.cons.inj top).1
      rcases happens.telling agenda with ⟨items, agenda'⟩ | agenda'
      · refine .calling n items agenda' more (quiet.trans told) (settling.goes_on executing here ?_)
        rw [agenda']
        exact (List.suffix_append (.telling n :: task) _).trans (List.suffix_append items _)
      · refine .back task List.suffix_rfl agenda' (quiet.trans told)
          (settling.goes_on executing here ?_)
        rw [agenda']
        exact List.suffix_append _ _
    | cons j above =>
      have quiet : said b (m :: h) = said b h := by
        refine said_of_above ?_
        rw [at_, agenda, more]
        simp only [List.length_append, List.length_cons]
        omega
      rw [List.cons_append] at agenda
      obtain ⟨items, agenda'⟩ := happens.above agenda
      rw [← List.append_assoc] at agenda'
      refine .calling n (items ++ above) agenda' more (quiet.trans told)
        (settling.goes_on executing here ?_)
      rw [agenda']
      exact (List.suffix_append (.telling n :: task) _).trans (List.suffix_append _ _)
  | back left part agenda told executing =>
    cases settling with
    | @outcome o ends =>
      obtain rfl := List.suffix_nil.1 part
      obtain rfl := happens.of_busy (i := .outcome none o use) rfl (by rw [agenda]; rfl)
      exact .returned [] executing (at_ ▸ agenda) told ends
    | look k name tasks pauses =>
      have called := early k rfl left agenda part
      cases left with
      | nil =>
        obtain ⟨x, hx, -⟩ := called
        obtain ⟨rfl, o, ho, agenda'⟩ := happens.look agenda hx
        refine .settled (ends_of_mayPause pauses ho) agenda' ((said_of_other (by simp)).trans told)
          (executing.cons ⟨.outcome (some k) o use, by simp [Item.settles], ?_⟩)
        simp only [here, agenda', List.suffix_rfl]
      | cons j left =>
        obtain rfl := tasks j (part.mem List.mem_cons_self)
        obtain ⟨rfl, agenda', -⟩ := happens.quiet_resume agenda called
        refine .back left ((List.suffix_cons _ left).trans part) agenda'
          ((said_of_other (by simp)).trans told) (executing.cons ⟨.afterCall name k use, ?_, ?_⟩)
        · simp [Item.settles]
        · rw [here, agenda']
          exact List.suffix_append _ _
  | settled ends agenda told executing =>
    obtain rfl := happens.of_busy (i := .outcome handle _ use) rfl (by rw [agenda]; rfl)
    exact .returned [] executing (at_ ▸ agenda) told ends
  | returned later executing top told ends =>
    exact .returned (m :: later) executing top told ends

/-- While a dispatch has not looked at its handle, the command counts as being called. -/
theorem Stage.isCalled {k : Nat} {kont : Continuation} {name name' : String} {left : List Item}
    (stage : Stage b k kont name use base s h) (at_ : after b h = s)
    (agenda : s.agenda = left ++ .afterCall name' k use :: base)
    (tasks : ∀ i ∈ left, i = .resumeWhenDone k) : s.IsCalled k := by
  have there : .afterCall name' k use ∈ s.agenda := by
    rw [agenda]
    exact List.mem_append_right left List.mem_cons_self
  cases stage with
  | called top called =>
    refine ⟨_, called.phase, ?_⟩
    cases resumed b.runsTasks k h <;> rfl
  | settled settled =>
    have top := settled.top
    rw [at_, agenda] at top
    cases left with
    | nil => cases (List.cons.inj top).1
    | cons j left =>
      obtain rfl := tasks j List.mem_cons_self
      cases (List.cons.inj top).1
  | waiting _ _ _ gone | due _ _ _ gone | spent _ _ _ gone => exact absurd rfl (gone _ there)

theorem busy_of_top {i : Item} {rest : List Item} (top : s.agenda = i :: rest)
    (own : i.callsHost = false) : s.awaitsHost = false := by
  cases word : s.awaitsHost with
  | false => rfl
  | true =>
    rw [callsHost_of_awaitsHost word i (by rw [top]; rfl)] at own
    cases own

/-- If the host makes no requests, a dispatch that has only the look at its handle before it comes
to its outcome. -/
theorem Run.to_outcome {k : Nat} {name : String} (r : Run allowed s₀ s h) {left : List Item}
    (tasks : ∀ i ∈ left, i = .resumeWhenDone k)
    (agenda : s.agenda = left ++ .afterCall name k use :: base) (called : s.IsCalled k) :
    ∃ s' newer o, Run allowed s₀ s' (newer ++ h) ∧ (o = .done ∨ o = .pause) ∧
      s'.agenda = .outcome (some k) o use :: base := by
  induction left generalizing s h with
  | nil =>
    have r' := r.work (busy_of_top agenda rfl) agenda
    obtain ⟨x, hx, -⟩ := called
    obtain ⟨-, o, ho, agenda'⟩ := Happens.look (.work (busy_of_top agenda rfl) agenda) agenda hx
    exact ⟨_, [_], o, r', ho, agenda'⟩
  | cons j left ih =>
    obtain rfl := tasks j List.mem_cons_self
    have r' := r.work (busy_of_top agenda rfl) agenda
    obtain ⟨-, agenda', called'⟩ :=
      Happens.quiet_resume (.work (busy_of_top agenda rfl) agenda) agenda called
    obtain ⟨s', newer, o, r'', found⟩ := ih r' (fun i hi => tasks i (List.mem_cons_of_mem _ hi))
      agenda' called'
    exact ⟨s', newer ++ [_], o, by simpa using r'', found⟩

end

/-! ### Every dispatch -/

/-- A command is dispatched in the state `b`, which leads to `s`, and `h` happens after that: the
command means `r`, and what it means is done, once. -/
structure EnactsOnce (b s : Session) (c : Command) (r : Resolution) (use : OutcomeUse)
    (h : History) : Prop where
  means : b.commands.Means c r
  only : ∀ r', b.commands.Means c r' → r' = r
  enacts : Enacts s r (r.notices b.unhandled c.text (b.handleFor c)) (b.handleFor c) use b.agenda h
  /-- If the host makes no requests while it is told, the dispatch returns. -/
  returns : ∃ s' h' o, Run (fun _ _ _ => False) s s' h' ∧ r.Ends o ∧
    s'.agenda = .outcome (b.handleFor c) o use :: b.agenda

section

variable {c : Command} {kont : Nat → Continuation} {use : OutcomeUse} {newer older : History}

theorem Conduct.enacts {b : Session} {r : Resolution} {calls : List Notice} {handle : Option Nat}
    {task base : List Item} {settle : Item}
    (conduct : Conduct b r calls handle use task settle base s h) :
    Enacts b r calls handle use base h := by
  cases conduct with
  | due _ _ _ told executing => exact .executing executing (.inl told)
  | calling _ _ _ _ told executing => exact .executing executing (.inr told)
  | back _ _ _ told executing => exact .executing executing (.inr told)
  | settled _ _ told executing => exact .executing executing (.inr told)
  | returned later executing top told ends => exact .returned later executing top told ends

/-- A command tells the host of one thing at most. -/
theorem notices_cases (r : Resolution) (listener : Option HostKey) (text : String)
    (handle : Option Nat) :
    r.notices listener text handle = [] ∨ ∃ n, r.notices listener text handle = [n] := by
  cases r with
  | handler | method => exact .inr ⟨_, rfl⟩
  | refused => exact .inl rfl
  | unhandled =>
    cases listener with
    | none => exact .inl rfl
    | some key => exact .inr ⟨_, rfl⟩

/-- In every run a dispatch goes through its stages. -/
theorem Run.conduct {r : Resolution} {task : List Item} {settle : Item} (idle : s₀.agenda = [])
    (run : Run allowed s₀ s (newer ++ m :: older)) (begins : Begins m c kont use)
    (settling : Settling r use (((after s₀ older).dispatching m).handleFor c) task settle)
    {calls : List Notice} (few : calls = [] ∨ ∃ n, calls = [n])
    (agenda : (after s₀ (m :: older)).agenda =
      calls.map .tell ++ (task ++ settle :: ((after s₀ older).dispatching m).agenda)) :
    Conduct (after s₀ (m :: older)) r calls (((after s₀ older).dispatching m).handleFor c) use task
      settle ((after s₀ older).dispatching m).agenda s newer := by
  induction newer generalizing s with
  | nil =>
    obtain rfl : after s₀ (m :: older) = s := run.after_eq
    have executing : Executing (after s₀ (m :: older)) use ((after s₀ older).dispatching m).agenda
        [] := by
      intro older' part
      rw [List.suffix_nil.1 part]
      refine ⟨settle, settling.settles, ?_⟩
      simp only [after, agenda]
      exact (List.suffix_append _ _).trans (List.suffix_append _ _)
    rcases few with rfl | ⟨n, rfl⟩
    · exact .back task List.suffix_rfl agenda rfl executing
    · exact .due n rfl agenda rfl executing
  | cons m' newer ih =>
    obtain ⟨s', run', happens⟩ := run.last
    have run' : Run allowed s₀ s' (newer ++ m :: older) := run'
    refine (ih run').next settling ?_ ?_ run'.after_since.1 happens run.after_since.1
    · intro k hk left agenda' part
      obtain ⟨name, stage⟩ := run'.stage idle begins hk
      rw [hk] at settling
      cases settling with
      | look _ name' tasks =>
        exact stage.isCalled run'.after_since.1 agenda' fun i hi => tasks i (part.mem hi)
    · simp [agenda]

theorem dispatch_isCalled (b : Session) {k : Nat} (hk : b.handleFor c = some k) :
    (b.dispatch c kont use).1.IsCalled k := by
  obtain ⟨rfl, n, name, task, -, -, shape⟩ := dispatch_of_handle b c kont use hk
  rw [shape]
  exact ⟨.fresh name (kont b.handles.length), by simp, rfl⟩

/-- If the host makes no requests, a dispatch returns. -/
theorem Settling.returns {handle : Option Nat} {r : Resolution} {task base : List Item}
    {settle : Item} (settling : Settling r use handle task settle) {calls : List Notice}
    (few : calls = [] ∨ ∃ n, calls = [n])
    (agenda : s.agenda = calls.map .tell ++ (task ++ settle :: base))
    (called : ∀ k ∈ handle, s.IsCalled k) :
    ∃ s' h' o, Run (fun _ _ _ => False) s s' h' ∧ r.Ends o ∧
      s'.agenda = .outcome handle o use :: base := by
  obtain ⟨s₁, h₁, run, agenda₁, same⟩ : ∃ s₁ h₁, Run (fun _ _ _ => False) s s₁ h₁ ∧
      s₁.agenda = task ++ settle :: base ∧ s₁.handles = s.handles := by
    rcases few with rfl | ⟨n, rfl⟩
    · exact ⟨s, [], .refl, agenda, rfl⟩
    · -- the host is told, and answers
      have busy := busy_of_top agenda rfl
      have told : s.step.1 = { s with agenda := .telling n :: (task ++ settle :: base) } := by
        rw [step_eq_work busy agenda]
        rfl
      have run : Run (fun _ _ _ => False) s s [] := .refl
      have run := run.work busy agenda
      rw [told] at run
      exact ⟨_, _, run.answer .heard rfl, rfl, rfl⟩
  cases settling with
  | outcome ends => exact ⟨s₁, h₁, _, run, ends, agenda₁⟩
  | look k name tasks pauses =>
    have called₁ : s₁.IsCalled k := by
      rw [IsCalled, same]
      exact called k rfl
    obtain ⟨s', newer, o, run', ho, agenda'⟩ := run.to_outcome tasks agenda₁ called₁
    exact ⟨s', _, o, run', ends_of_mayPause pauses ho, agenda'⟩

/-- A command means one thing, and its dispatch does that, once. -/
theorem run_enactsOnce (idle : s₀.agenda = [])
    (run : Run allowed s₀ s (newer ++ m :: older)) (begins : Begins m c kont use) :
    ∃ r, EnactsOnce ((after s₀ older).dispatching m) (after s₀ (m :: older)) c r use newer := by
  obtain ⟨s₁, -, before, dispatched⟩ := run.dispatched begins
  have means := CommandTables.means_resolve ((after s₀ older).dispatching m).commands c
  obtain ⟨task, settle, settling, agenda⟩ :=
    dispatch_agenda ((after s₀ older).dispatching m) c kont use means
  rw [before, ← dispatched, ← before] at agenda
  refine ⟨_, means, fun r' means' => (CommandTables.means_iff.1 means').symm, ?_, ?_⟩
  · exact (run.conduct idle begins settling (notices_cases ..) agenda).enacts
  · refine settling.returns (notices_cases ..) agenda fun k hk => ?_
    rw [dispatched, ← before]
    exact dispatch_isCalled _ hk

end

/-- A session with a gate that is a door, which can be opened, and a host that hears of all other
commands. -/
def gateAlone : Session :=
  { commands :=
      { methods :=
          ⟨⟨[("open", ⟨"open", ⟨"Door"⟩, [], .suspending, 5⟩)], List.pairwise_singleton _ _⟩, []⟩
        resolver := some ⟨fun word => if word = "gate" then some word else none,
          fun _ type => if type = ⟨"Door"⟩ then some ⟨type, "oak"⟩ else none⟩ }
    unhandled := some 9 }

/-- The gate is opened, and while the door is told the host dispatches a command that nobody
handles. -/
theorem enactsOnce_of_gateAlone :
    ∃ s newer m kont use r, gateAlone.agenda = [] ∧
      Run (fun _ _ _ => True) gateAlone s (newer ++ m :: []) ∧ Begins m ⟨"open gate"⟩ kont use ∧
      .did (.tell (.unhandled 9 "sing")) ∈ newer ∧
      said (after gateAlone [m]) newer =
        [.method ⟨"open", ⟨"Door"⟩, [], .suspending, 5⟩ ⟨⟨"Door"⟩, "oak"⟩ [] (some 0)] ∧
      EnactsOnce (gateAlone.dispatching m) (after gateAlone [m]) ⟨"open gate"⟩ r use newer := by
  have r : Run (fun _ _ _ => True) gateAlone gateAlone [] := .refl
  have r := (r.call rfl (.dispatch ⟨"open gate"⟩ 7) trivial).works 9
  have r := (r.call rfl (.dispatch ⟨"sing"⟩ 8) trivial).works 9
  have r := (r.answer .heard rfl).works 9
  have r := (r.answer .heard rfl).works 9
  have begins : Begins (.call (.dispatch ⟨"open gate"⟩ 7)) ⟨"open gate"⟩ (fun _ => .host 7)
      .reply := .request _ 7
  obtain ⟨meaning, once⟩ := run_enactsOnce rfl (r.at_mark 10 rfl) begins
  exact ⟨_, _, _, _, _, meaning, rfl, r.at_mark 10 rfl, begins,
    List.mem_of_getElem? (i := 7) rfl, rfl, once⟩

/-! ### What becomes of an outcome -/

/-- The outcome with which a dispatch returns is given back as it is: to the host as the reply to
its request, and for an event as the answer, which is to wait if and only if it is a pause. -/
theorem run_givesBack {newer older : History} {handle : Option Nat} {o : DispatchOutcome}
    {use : OutcomeUse} (run : Run allowed s₀ s (newer ++ .did (.outcome handle o use) :: older)) :
    ∃ rest, (after s₀ older).agenda = .outcome handle o use :: rest ∧
      (use = .reply → (after s₀ older).step =
        ({ after s₀ older with agenda := rest }, [.reply (.outcome o)])) ∧
      ∀ r, use = .event r → ∃ x, (x = .wait ↔ o = .pause) ∧
        (after s₀ older).step = { after s₀ older with agenda := rest }.conclude r x := by
  obtain ⟨s₁, rest, before, busy, top, -⟩ := run.at_did
  rw [before.after_eq, step_eq_work busy top]
  refine ⟨rest, top, ?_, ?_⟩
  · intro same
    rw [same]
    rfl
  · intro r same
    rw [same]
    refine ⟨if o = .pause then .wait else .next, ?_, rfl⟩
    split <;> simp_all

end Session

end Prompter

import Mathlib.Data.List.Basic
import Prompter.Proofs.Session.Release

/-!
# Prompter.Proofs.Session.Pause

A command that pauses is resumed once, and after its dispatch has returned.

The dispatch of a command goes through stages (`Stage`): the command is called, the look at its
handle has settled the outcome, and the dispatch has returned; a command that has paused is then
waited for until the first resume of its handle, which lets its continuation run at once. Every mark
leads from a stage to the next or leaves it as it is (`Stage.next`), whatever the host does.
-/

namespace Prompter

namespace Session

variable {allowed : Session → History → Call → Prop} {s₀ s s' : Session} {h : History} {m : Mark}

/-- A mark at which a dispatch returns because its command has paused. -/
def Mark.pauses (k : Nat) : Mark → Bool
  | .did (.outcome handle o _) => handle = some k && o = .pause
  | _ => false

section

variable (tasks : Bool) (k : Nat)

/-- Whether a handle has been resumed. -/
def resumed (h : History) : Bool := h.any (isResume tasks k)

/-- Whether a dispatch has returned because its command has paused, and the handle has not been
resumed since. -/
def waits : History → Bool
  | [] => false
  | m :: h => m.pauses k || (!isResume tasks k m && waits h)

end

/-- The continuation of a handle has run once since `s`, at a resume for which its command was
waited for. -/
def RanOnce (s : Session) (k : Nat) (kont : Continuation) (h : History) : Prop :=
  ran s (some k) h = 1 ∧ ∃ latest m middle, h = latest ++ .did (.resume kont) :: m :: middle ∧
    isResume s.runsTasks k m = true ∧ waits s.runsTasks k middle = true

/-! ### What has been proved of a dispatch -/

/-- A dispatch that has led to `s` has settled its outcome. -/
structure Settled (s : Session) (handle : Option Nat) (use : OutcomeUse) (base : List Item)
    (o : DispatchOutcome) (during : History) : Prop where
  executing : Executing s use base during
  top : (after s during).agenda = .outcome handle o use :: base
  /-- The outcome is a pause if the command was run with a handle that was not resumed before it
  returned. -/
  verdict : o = .pause ↔ ∃ k ∈ handle, Began k during ∧ resumed s.runsTasks k during = false
  /-- The look at a handle settles the outcome and does nothing else. -/
  looked : ∀ k ∈ handle, ∃ name before, during = .did (.afterCall name k use) :: before ∧
    after s during = { after s before with
      handles := (after s before).handles.modify k fun x => x.arm.1
      agenda := .outcome handle o use :: base }
  silent : ran s handle during = 0

/-- How far a dispatch has come that has led to `s`. -/
inductive Course (s : Session) (handle : Option Nat) (use : OutcomeUse) (base : List Item) :
    History → Prop
  /-- It has not returned, and its continuation has not run. -/
  | executing {h : History} (executing : Executing s use base h)
      (silent : ran s handle h = 0) : Course s handle use base h
  /-- It has returned; without a pause its continuation never runs. -/
  | returned (later : History) {during : History} {o : DispatchOutcome}
      (settled : Settled s handle use base o during)
      (unused : o ≠ .pause → ran s handle (later ++ .did (.outcome handle o use) :: during) = 0) :
      Course s handle use base (later ++ .did (.outcome handle o use) :: during)

/-- A command is dispatched in the state `b`, which leads to `s`, and `h` happens after that: its
continuation runs once at most, at the first resume after a pause. -/
structure PausesOnce (b s : Session) (c : Command) (kont : Nat → Continuation) (use : OutcomeUse)
    (h : History) : Prop where
  dispatched : s = (b.dispatch c kont use).1
  /-- The handle of the command is given its continuation. -/
  given : s.continuations = b.continuations ++ (b.handleFor c).toList.map kont
  /-- What others keep is their own. -/
  kept : ∀ older, older <:+ h → Kept s older
  course : Course s (b.handleFor c) use b.agenda h
  /-- A command without a handle drops its continuation. -/
  dropped : b.handleFor c = none → ∀ kont', b.dispatch c kont' use = b.dispatch c kont use
  /-- Apart from what others have let go of, no continuation is run but this, and this but once. -/
  once : ran s (b.handleFor c) h = 0 ∨ ∃ k ∈ b.handleFor c, RanOnce s k (kont k) h
  /-- What a continuation is for is done only behind a run of it. -/
  enacted : ∀ x i latest older, h = latest ++ .did i :: older → x.sequel? = some i →
    ∃ before, older = .did (.resume x) :: before
  /-- The first resume after a pause lets the continuation run as the next thing. -/
  forwarded : ∀ k ∈ b.handleFor c, ∀ latest m middle, h = latest ++ m :: middle →
    isResume s.runsTasks k m = true → waits s.runsTasks k middle = true →
    after s (m :: middle) = { after s middle with
      handles := (after s middle).handles.modify k fun x => x.resume.1
      agenda := .resume (kont k) :: through m (after s middle).agenda }
  /-- Any other resume does nothing but tell the handle. -/
  ignored : ∀ k ∈ b.handleFor c, ∀ latest m middle, h = latest ++ m :: middle →
    isResume s.runsTasks k m = true → waits s.runsTasks k middle = false →
    after s (m :: middle) = { after s middle with
      handles := (after s middle).handles.modify k fun x => x.resume.1
      agenda := through m (after s middle).agenda }

/-! ### Resumes and what they let run -/

section

variable {tasks : Bool} {k : Nat}

theorem pauses_eq_false {m : Mark} (resumes : isResume tasks k m = true) : m.pauses k = false := by
  unfold Mark.pauses
  split
  · cases resumes
  · rfl

theorem waits_of_resume (resumes : isResume tasks k m = true) : waits tasks k (m :: h) = false := by
  rw [waits, pauses_eq_false resumes, resumes]
  rfl

/-- A mark that is neither a resume nor a pause leaves it open whether a command is waited for. -/
theorem waits_of_quiet (quiet : isResume tasks k m = false) (other : m.pauses k = false) :
    waits tasks k (m :: h) = waits tasks k h := by
  rw [waits, other, quiet]
  rfl

end

/-! ### The stages of a dispatch -/

/-- A command is being called, with `top` to be done before the look at its handle. -/
structure Called (b : Session) (k : Nat) (kont : Continuation) (name : String) (use : OutcomeUse)
    (base top : List Item) (s : Session) (h : History) : Prop where
  agenda : s.agenda = top ++ .afterCall name k use :: base
  own : ∀ i ∈ top, i.handle? ≠ some k
  phase : s.handles[k]? =
    some ⟨name, if resumed b.runsTasks k h then .resumedEarly else .invoking, kont⟩
  began : Began k h ∨ ∃ n : Notice, n.handle? = some k ∧ top.head? = some (.tell n)
  executing : Executing b use base h
  unpaused : waits b.runsTasks k h = false
  silent : ran b (some k) h = 0
  calm : Calm b (some k) s h

/-- How far the dispatch of a command with the handle `k` has come, which has led to `b`. -/
inductive Stage (b : Session) (k : Nat) (kont : Continuation) (name : String) (use : OutcomeUse)
    (base : List Item) : Session → History → Prop
  | called {s : Session} {h : History} (top : List Item)
      (called : Called b k kont name use base top s h) : Stage b k kont name use base s h
  /-- The look at the handle has settled the outcome. -/
  | settled {s : Session} {h : History} {o : DispatchOutcome}
      (settled : Settled b (some k) use base o h)
      (phase : s.handles[k]? = some ⟨name, if o = .pause then .armed else .finished, kont⟩)
      (unpaused : waits b.runsTasks k h = false) (calm : Calm b (some k) s h) :
      Stage b k kont name use base s h
  /-- The dispatch has returned with a pause, and the command is waited for. -/
  | waiting {s : Session} (later : History) {during : History}
      (settled : Settled b (some k) use base .pause during)
      (phase : s.handles[k]? = some ⟨name, .armed, kont⟩)
      (gone : ∀ i ∈ s.agenda, i.handle? ≠ some k)
      (waiting :
        waits b.runsTasks k (later ++ .did (.outcome (some k) .pause use) :: during) = true)
      (silent : ran b (some k) (later ++ .did (.outcome (some k) .pause use) :: during) = 0)
      (calm : Calm b (some k) s (later ++ .did (.outcome (some k) .pause use) :: during)) :
      Stage b k kont name use base s (later ++ .did (.outcome (some k) .pause use) :: during)
  /-- The command has just been resumed, and its continuation runs next. -/
  | due {s : Session} (later : History) {during : History} {m : Mark}
      (settled : Settled b (some k) use base .pause during)
      (phase : s.handles[k]? = some ⟨name, .finished, kont⟩)
      (gone : ∀ i ∈ s.agenda, i.handle? ≠ some k)
      (resumes : isResume b.runsTasks k m = true)
      (waited : waits b.runsTasks k (later ++ .did (.outcome (some k) .pause use) :: during) = true)
      (silent : ran b (some k) (later ++ .did (.outcome (some k) .pause use) :: during) = 0)
      (own : elsewhere b (some k) kont
        (m :: later ++ .did (.outcome (some k) .pause use) :: during) = false)
      (top : s.agenda.head? = some (.resume kont)) :
      Stage b k kont name use base s (m :: later ++ .did (.outcome (some k) .pause use) :: during)
  /-- The command is not waited for any more, or never was. -/
  | spent {s : Session} (later : History) {during : History} {o : DispatchOutcome}
      (settled : Settled b (some k) use base o during)
      (phase : s.handles[k]? = some ⟨name, .finished, kont⟩)
      (gone : ∀ i ∈ s.agenda, i.handle? ≠ some k)
      (resumed : waits b.runsTasks k (later ++ .did (.outcome (some k) o use) :: during) = false)
      (count :
        (o ≠ .pause ∧ ran b (some k) (later ++ .did (.outcome (some k) o use) :: during) = 0) ∨
        (o = .pause ∧
          RanOnce b k kont (later ++ .did (.outcome (some k) o use) :: during)))
      (calm : Calm b (some k) s (later ++ .did (.outcome (some k) o use) :: during)) :
      Stage b k kont name use base s (later ++ .did (.outcome (some k) o use) :: during)

section

variable {b : Session} {k : Nat} {kont : Continuation} {name : String} {use : OutcomeUse}
  {base : List Item}

/-- No items of a command are put on the agenda unless it returns just now. -/
theorem Happens.puts_others (happens : Happens s m s') (hk : k < s.handles.length)
    (others : ∀ name use, m ≠ .did (.afterCall name k use)) :
    ∃ items rest, Takes m s.agenda rest ∧ s'.agenda = items ++ rest ∧
      ∀ i ∈ items, i.handle? ≠ some k := by
  obtain ⟨items, rest, takes, agenda, new⟩ := happens.puts
  refine ⟨items, rest, takes, agenda, fun i hi handle => ?_⟩
  rcases new i hi k handle with ⟨rfl, -⟩ | ⟨-, name, use, same⟩
  · exact Nat.lt_irrefl _ hk
  · exact others name use same

/-- What is done is none of a command whose items are gone. -/
theorem Happens.not_of_gone (happens : Happens s m s') (gone : ∀ i ∈ s.agenda, i.handle? ≠ some k)
    (i : Item) (hi : i.handle? = some k) : m ≠ .did i := by
  intro same
  rw [same] at happens
  obtain ⟨rest, top, -⟩ := happens.top
  exact gone i (top ▸ List.mem_cons_self) hi

/-- The items of a command that has returned are gone for good. -/
theorem Happens.gone (happens : Happens s m s') (hk : k < s.handles.length)
    (gone : ∀ i ∈ s.agenda, i.handle? ≠ some k) : ∀ i ∈ s'.agenda, i.handle? ≠ some k := by
  obtain ⟨items, rest, takes, agenda, others⟩ :=
    happens.puts_others hk fun name use => happens.not_of_gone gone (.afterCall name k use) rfl
  rw [agenda]
  exact List.forall_mem_append.2 ⟨others, fun i hi => gone i (takes.mem hi)⟩

theorem pauses_of_others (others : ∀ i : Item, i.handle? = some k → m ≠ .did i) :
    m.pauses k = false := by
  cases hp : m.pauses k with
  | false => rfl
  | true =>
    unfold Mark.pauses at hp
    split at hp
    · next handle o use =>
      obtain ⟨rfl, -⟩ : handle = some k ∧ o = .pause := by simpa using hp
      exact absurd rfl (others (.outcome (some k) o use) rfl)
    · cases hp

theorem modify_eq_set {hs : List (ResumeHandle Continuation)} {x : ResumeHandle Continuation}
    (hx : hs[k]? = some x) (f : ResumeHandle Continuation → ResumeHandle Continuation) :
    hs.modify k f = hs.set k (f x) := by
  obtain ⟨hk, rfl⟩ := List.getElem?_eq_some_iff.1 hx
  exact List.modify_eq_set_get f hk

variable (use) in
/-- The look at a handle whose command has returned, and was resumed before that or not. -/
theorem afterCall_eq {early : Bool}
    (hx : s.handles[k]? = some ⟨name, if early then .resumedEarly else .invoking, kont⟩) :
    (s.afterCall name k use).1 = { s with
      handles := s.handles.modify k fun x => x.arm.1
      agenda := .outcome (some k) (if early then .done else .pause) use :: s.agenda } ∧
    (s.handles.modify k fun x => x.arm.1)[k]? =
      some ⟨name, if early then .finished else .armed, kont⟩ := by
  obtain ⟨hk, -⟩ := List.getElem?_eq_some_iff.1 hx
  rw [modify_eq_set hx, List.getElem?_set_self hk]
  unfold afterCall
  rw [hx]
  cases early <;> exact ⟨rfl, rfl⟩

/-- A resume tells the handle, runs the continuation if the handle lets go of it, and does nothing
else. -/
theorem Happens.resume_eq (happens : Happens s m s') (resumes : isResume s.runsTasks k m = true)
    {x : ResumeHandle Continuation} (hx : s.handles[k]? = some x) :
    s' = { s with
      handles := s.handles.modify k fun x => x.resume.1
      agenda := resumption x.resume.2.1 ++ through m s.agenda } := by
  rw [happens.resumed resumes hx, modify_eq_set hx]

/-- What a resume does to a handle with a given phase. -/
theorem Happens.resume_phase (happens : Happens s m s') (resumes : isResume s.runsTasks k m = true)
    {phase : ResumePhase} (hx : s.handles[k]? = some ⟨name, phase, kont⟩) :
    s'.handles[k]? = some (ResumeHandle.resume ⟨name, phase, kont⟩).1 ∧
    s'.agenda = resumption (ResumeHandle.resume ⟨name, phase, kont⟩).2.1 ++ through m s.agenda := by
  rw [happens.resume_eq resumes hx]
  exact ⟨by rw [List.getElem?_modify_eq, hx]; rfl, rfl⟩

/-- What happens while the command is called. -/
theorem Called.goes_on {j : Item} {top : List Item}
    (called : Called b k kont name use base (j :: top) s h)
    (at_ : after b h = s) (tasks : s.runsTasks = b.runsTasks)
    (prompt : ∀ i ∈ s.agenda.tail, i.isPrompt = false) (happens : Happens s m s')
    (here : after b (m :: h) = s') : ∃ top', Called b k kont name use base top' s' (m :: h) := by
  obtain ⟨hk, -⟩ := List.getElem?_eq_some_iff.1 called.phase
  have others (i : Item) (hi : i.handle? = some k) : m ≠ .did i := by
    intro same
    rw [same] at happens
    obtain ⟨rest, top', -⟩ := happens.top
    rw [called.agenda, List.cons_append] at top'
    obtain ⟨rfl, -⟩ := List.cons.inj top'
    exact called.own _ List.mem_cons_self hi
  obtain ⟨items, rest, takes, agenda, own⟩ := happens.puts_others hk fun _ _ => others _ rfl
  obtain ⟨top', below, owned⟩ : ∃ top', rest = top' ++ .afterCall name k use :: base ∧
      ∀ i ∈ top', i.handle? ≠ some k := by
    have start := called.agenda
    rw [List.cons_append] at start
    generalize s.agenda = a at takes start
    cases takes with
    | call c => exact ⟨j :: top, start, called.own⟩
    | did i rest | answer x i rest =>
      exact ⟨top, (List.cons.inj start).2, fun i hi => called.own i (List.mem_cons_of_mem j hi)⟩
  have here' : s'.agenda = (items ++ top') ++ .afterCall name k use :: base := by
    rw [agenda, below, List.append_assoc]
  refine ⟨items ++ top', here', List.forall_mem_append.2 ⟨own, owned⟩, ?_, .inl ?_, ?_, ?_, ?_, ?_⟩
  · cases resumes : isResume b.runsTasks k m with
    | true =>
      rw [(happens.resume_phase (tasks ▸ resumes) called.phase).1]
      cases hr : resumed b.runsTasks k h <;> simp [resumed, resumes, ResumeHandle.resume]
    | false =>
      rw [happens.keeps hk (tasks ▸ resumes) fun _ _ => others _ rfl, called.phase]
      simp [resumed, resumes]
  · rcases called.began with ⟨n, hn, told⟩ | ⟨n, hn, top⟩
    · exact ⟨n, hn, List.mem_cons_of_mem m told⟩
    · obtain rfl : j = .tell n := Option.some.inj top
      obtain rfl := happens.of_busy (i := .tell n) rfl (by rw [called.agenda]; rfl)
      exact ⟨n, hn, List.mem_cons_self⟩
  · refine called.executing.cons ⟨.afterCall name k use, by simp [Item.settles], ?_⟩
    rw [here, here']
    exact List.suffix_append _ _
  · cases resumes : isResume b.runsTasks k m with
    | true => exact waits_of_resume resumes
    | false => exact (waits_of_quiet resumes (pauses_of_others others)).trans called.unpaused
  · exact (happens.ran_eq called.calm).trans called.silent
  · refine happens.calm_of_phase prompt at_ called.phase ?_
    cases resumed b.runsTasks k h <;> simp

theorem Called.next {top : List Item} (called : Called b k kont name use base top s h)
    (at_ : after b h = s) (tasks : s.runsTasks = b.runsTasks)
    (prompt : ∀ i ∈ s.agenda.tail, i.isPrompt = false) (happens : Happens s m s')
    (here : after b (m :: h) = s') : Stage b k kont name use base s' (m :: h) := by
  have count : ran b (some k) (m :: h) = 0 := (happens.ran_eq called.calm).trans called.silent
  cases top with
  | nil =>
    -- the command returns
    obtain rfl := happens.of_busy (i := .afterCall name k use) rfl (by rw [called.agenda]; rfl)
    have calm := happens.calm_of_quiet (k := k) prompt at_ rfl
    obtain ⟨rest, top, look⟩ := happens.top
    obtain rfl : base = rest := (List.cons.inj (called.agenda.symm.trans top)).2
    obtain ⟨settles, phase⟩ := afterCall_eq use (s := { s with agenda := base }) called.phase
    rw [work, settles] at look
    have began : Began k (.did (.afterCall name k use) :: h) := by
      rcases called.began with ⟨n, hn, told⟩ | ⟨n, -, top⟩
      · exact ⟨n, hn, List.mem_cons_of_mem _ told⟩
      · cases top
    have same : resumed b.runsTasks k (.did (.afterCall name k use) :: h) =
        resumed b.runsTasks k h := rfl
    have top := (congrArg Session.agenda here).trans (congrArg Session.agenda look)
    refine .settled (o := if resumed b.runsTasks k h then .done else .pause)
      ⟨called.executing.cons ⟨_, ?_, [], top.symm⟩, top, ?_, ?_, count⟩ ?_
      ((waits_of_quiet rfl rfl).trans called.unpaused) calm
    · simp [Item.settles]
    · cases hr : resumed b.runsTasks k h <;> simp [same, hr, began]
    · intro k' same
      obtain rfl := Option.some.inj same
      refine ⟨name, h, rfl, ?_⟩
      rw [here, at_, look]
    · rw [look, phase]
      cases hr : resumed b.runsTasks k h <;> rfl
  | cons j top =>
    obtain ⟨top', called⟩ := called.goes_on at_ tasks prompt happens here
    exact .called top' called

theorem RanOnce.cons (once : RanOnce b k kont h)
    (same : ran b (some k) (m :: h) = ran b (some k) h) : RanOnce b k kont (m :: h) := by
  obtain ⟨count, latest, m', middle, rfl, resumes, waited⟩ := once
  exact ⟨same.trans count, m :: latest, m', middle, rfl, resumes, waited⟩

theorem runs?_of_resume {tasks : Bool} (resumes : isResume tasks k m = true) :
    m.runs? = none := by
  unfold Mark.runs?
  split
  · cases resumes
  · rfl

/-- Whatever happens, a dispatch stays at its stage or comes to the next. -/
theorem Stage.next (stage : Stage b k kont name use base s h)
    (fresh : ∀ i ∈ base, i.handle? ≠ some k) (at_ : after b h = s)
    (tasks : s.runsTasks = b.runsTasks) (prompt : ∀ i ∈ s.agenda.tail, i.isPrompt = false)
    (happens : Happens s m s') (here : after b (m :: h) = s') :
    Stage b k kont name use base s' (m :: h) := by
  cases stage with
  | called _ called => exact called.next at_ tasks prompt happens here
  | @settled _ o settled phase unpaused calm =>
    -- the dispatch returns
    obtain ⟨hk, -⟩ := List.getElem?_eq_some_iff.1 phase
    have top := settled.top
    rw [at_] at top
    obtain rfl := happens.of_busy (i := .outcome (some k) o use) rfl (by rw [top]; rfl)
    have phase' : s'.handles[k]? = s.handles[k]? := happens.keeps hk rfl (by simp)
    have gone : ∀ i ∈ s'.agenda, i.handle? ≠ some k := by
      obtain ⟨items, rest, takes, agenda, others⟩ := happens.puts_others hk (by simp)
      rw [top] at takes
      cases takes
      rw [agenda]
      exact List.forall_mem_append.2 ⟨others, fresh⟩
    have count : ran b (some k) (.did (.outcome (some k) o use) :: h) = 0 :=
      (happens.ran_eq calm).trans settled.silent
    have calm := happens.calm_of_quiet (k := k) prompt at_ rfl
    by_cases pause : o = .pause
    · subst pause
      refine .waiting [] settled (phase'.trans phase) gone ?_ count calm
      simp [waits, Mark.pauses]
    · rw [if_neg pause] at phase
      refine .spent [] settled (phase'.trans phase) gone ?_ (.inl ⟨pause, count⟩) calm
      refine (waits_of_quiet rfl ?_).trans unpaused
      simp [Mark.pauses, pause]
  | @waiting later during settled phase gone waiting silent calm =>
    obtain ⟨hk, -⟩ := List.getElem?_eq_some_iff.1 phase
    have others := happens.not_of_gone gone
    cases resumes : isResume b.runsTasks k m with
    | true =>
      obtain ⟨phase', agenda⟩ := happens.resume_phase (tasks ▸ resumes) phase
      have released := released?_of_resume (tasks ▸ resumes)
      rw [armed?, phase] at released
      refine .due later settled phase' (happens.gone hk gone) resumes waiting silent
        (not_elsewhere at_ released) ?_
      rw [agenda]
      rfl
    | false =>
      refine .waiting (m :: later) settled ?_ (happens.gone hk gone)
        ((waits_of_quiet resumes (pauses_of_others others)).trans waiting)
        ((happens.ran_eq calm).trans silent)
        (happens.calm_of_quiet prompt at_ (tasks ▸ resumes))
      rw [happens.keeps hk (tasks ▸ resumes) fun _ _ => others _ rfl, phase]
  | @due later during m' settled phase gone resumes waited silent own top =>
    -- the continuation runs
    obtain ⟨hk, -⟩ := List.getElem?_eq_some_iff.1 phase
    obtain rfl := happens.of_busy (i := .resume kont) rfl top
    refine .spent (.did (.resume kont) :: m' :: later) settled ?_ (happens.gone hk gone)
      ((waits_of_quiet rfl rfl).trans (waits_of_resume resumes)) (.inr ⟨rfl, ?_, ?_⟩)
      (happens.calm_of_quiet prompt at_ rfl)
    · rw [happens.keeps hk rfl (by simp), phase]
    · rw [List.cons_append] at own
      rw [List.cons_append, List.cons_append, ran, Mark.runs?, Option.any_some, own,
        ran_of_other (runs?_of_resume resumes), silent]
      rfl
    · exact ⟨[], m', _, rfl, resumes, waited⟩
  | @spent later during o settled phase gone resumed count calm =>
    obtain ⟨hk, -⟩ := List.getElem?_eq_some_iff.1 phase
    have others := happens.not_of_gone gone
    have same := happens.ran_eq calm
    refine .spent (m :: later) settled ?_ (happens.gone hk gone) ?_ ?_ ?_
    · cases resumes : isResume b.runsTasks k m with
      | true => exact (happens.resume_phase (tasks ▸ resumes) phase).1
      | false => rw [happens.keeps hk (tasks ▸ resumes) fun _ _ => others _ rfl, phase]
    · cases resumes : isResume b.runsTasks k m with
      | true => exact waits_of_resume resumes
      | false => exact (waits_of_quiet resumes (pauses_of_others others)).trans resumed
    · rcases count with ⟨other, count⟩ | ⟨pause, once⟩
      · exact .inl ⟨other, same.trans count⟩
      · exact .inr ⟨pause, once.cons same⟩
    · exact happens.calm_of_phase prompt at_ phase (by simp)

/-- The first resume after a pause is forwarded. -/
theorem Stage.forwarded (stage : Stage b k kont name use base s h)
    (tasks : s.runsTasks = b.runsTasks) (waited : waits b.runsTasks k h = true)
    (resumes : isResume b.runsTasks k m = true) (happens : Happens s m s') :
    s' = { s with
      handles := s.handles.modify k fun x => x.resume.1
      agenda := .resume kont :: through m s.agenda } := by
  cases stage with
  | called _ called => exact Bool.noConfusion (called.unpaused.symm.trans waited)
  | settled _ _ unpaused => exact Bool.noConfusion (unpaused.symm.trans waited)
  | waiting _ _ phase => exact happens.resume_eq (tasks ▸ resumes) phase
  | due _ _ _ _ resumes' => exact Bool.noConfusion ((waits_of_resume resumes').symm.trans waited)
  | spent _ _ _ _ resumed => exact Bool.noConfusion (resumed.symm.trans waited)

/-- Any other resume is ignored. -/
theorem Stage.ignored (stage : Stage b k kont name use base s h) (at_ : after b h = s)
    (tasks : s.runsTasks = b.runsTasks) (waited : waits b.runsTasks k h = false)
    (resumes : isResume b.runsTasks k m = true) (happens : Happens s m s') :
    s' = { s with
      handles := s.handles.modify k fun x => x.resume.1
      agenda := through m s.agenda } := by
  cases stage with
  | called _ called =>
    have resumed_ := happens.resume_eq (tasks ▸ resumes) called.phase
    cases hr : resumed b.runsTasks k h <;> rw [hr] at resumed_ <;> exact resumed_
  | @settled _ o settled =>
    have top := settled.top
    rw [at_] at top
    obtain rfl := happens.of_busy (i := .outcome (some k) o use) rfl (by rw [top]; rfl)
    cases resumes
  | waiting _ _ _ _ waiting => exact Bool.noConfusion (waiting.symm.trans waited)
  | due _ _ _ _ _ _ _ _ top =>
    obtain rfl := happens.of_busy (i := .resume kont) rfl top
    cases resumes
  | spent _ _ phase => exact happens.resume_eq (tasks ▸ resumes) phase

theorem Stage.course (stage : Stage b k kont name use base s h) :
    Course b (some k) use base h := by
  cases stage with
  | called _ called => exact .executing called.executing called.silent
  | settled settled => exact .executing settled.executing settled.silent
  | waiting later settled => exact .returned later settled fun other => absurd rfl other
  | @due later during m settled =>
    exact .returned (m :: later) settled fun other => absurd rfl other
  | spent later settled _ _ _ count =>
    refine .returned later settled fun other => ?_
    rcases count with ⟨-, count⟩ | ⟨pause, -⟩
    · exact count
    · exact absurd pause other

theorem Stage.once (stage : Stage b k kont name use base s h) :
    ran b (some k) h = 0 ∨ RanOnce b k kont h := by
  cases stage with
  | called _ called => exact .inl called.silent
  | settled settled => exact .inl settled.silent
  | waiting _ _ _ _ _ silent => exact .inl silent
  | due _ _ _ _ resumes _ silent =>
    exact .inl ((ran_of_other (runs?_of_resume resumes)).trans silent)
  | spent _ _ _ _ _ count =>
    rcases count with ⟨-, count⟩ | ⟨-, once⟩
    · exact .inl count
    · exact .inr once

end

/-! ### Every run -/

section

variable {c : Command} {kont : Nat → Continuation} {use : OutcomeUse} {newer older : History}

/-- In every run the dispatch of a command with a handle goes through its stages. -/
theorem Run.stage (idle : s₀.agenda = []) (r : Run allowed s₀ s (newer ++ m :: older))
    (begins : Begins m c kont use) {k : Nat}
    (hk : ((after s₀ older).dispatching m).handleFor c = some k) :
    ∃ name, Stage (after s₀ (m :: older)) k (kont k) name use
      ((after s₀ older).dispatching m).agenda s newer := by
  obtain ⟨s₁, r₁, before, dispatched⟩ := r.dispatched begins
  rw [before] at hk ⊢
  obtain ⟨rfl, n, name, task, hn, tasks, shape⟩ :=
    dispatch_of_handle (s₁.dispatching m) c kont use hk
  have fresh : ∀ i ∈ (s₁.dispatching m).agenda, i.handle? ≠ some s₁.handles.length := by
    intro i hi handle
    have known := r₁.handles idle
    refine Nat.lt_irrefl _ (known i ?_ _ handle)
    cases begins with
    | request =>
      rcases List.mem_cons.1 hi with rfl | hi
      · cases handle
      · exact hi
    | event => exact List.mem_of_mem_tail hi
  refine ⟨name, ?_⟩
  induction newer generalizing s with
  | nil =>
    obtain rfl : after s₀ (m :: older) = s := r.after_eq
    rw [dispatched, shape]
    refine .called (.tell n :: task) ⟨rfl, ?_, ?_, .inr ⟨n, hn, rfl⟩, ?_, rfl, rfl, ?_⟩
    · refine List.forall_mem_cons.2 ⟨by simp [Item.handle?], fun i hi => ?_⟩
      rw [tasks i hi]
      simp [Item.handle?]
    · simp [resumed, ResumeHandle.fresh]
    · intro older part
      rw [List.suffix_nil.1 part]
      exact ⟨.afterCall name _ use, by simp [Item.settles], List.suffix_append (.tell n :: task) _⟩
    · intro x top
      cases top
  | cons m' newer ih =>
    obtain ⟨s', r', happens⟩ := r.last
    have r' : Run allowed s₀ s' (newer ++ m :: older) := r'
    obtain ⟨at_, same⟩ := r'.after_since
    exact (ih r').next fresh at_ same (r'.prompt idle) happens r.after_since.1

/-- A command without a handle has no part in the continuations that are run. -/
theorem Run.ran_of_none (idle : s₀.agenda = []) (r : Run allowed s₀ s (newer ++ m :: older))
    (begins : Begins m c kont use) (simple : ((after s₀ older).dispatching m).handleFor c = none) :
    ran (after s₀ (m :: older)) none newer = 0 ∧ Calm (after s₀ (m :: older)) none s newer := by
  obtain ⟨s₁, r₁, before, dispatched⟩ := r.dispatched begins
  induction newer generalizing s with
  | nil =>
    obtain rfl : after s₀ (m :: older) = s := r.after_eq
    refine ⟨rfl, fun x top => ?_⟩
    rw [before] at simple
    obtain ⟨told, o, -, tells, shape⟩ := dispatch_of_none (s₁.dispatching m) c use simple
    rw [dispatched, shape kont] at top
    cases told with
    | nil => cases top
    | cons i told =>
      obtain ⟨n, rfl, -⟩ := tells i List.mem_cons_self
      cases top
  | cons m' newer ih =>
    obtain ⟨s', r', happens⟩ := r.last
    have r' : Run allowed s₀ s' (newer ++ m :: older) := r'
    obtain ⟨silent, calm⟩ := ih r'
    exact ⟨(happens.ran_eq calm).trans silent,
      happens.calm (r'.prompt idle) r'.after_since.1 (by simp)⟩

/-- In every run the dispatch of a command without a handle comes to an outcome that is no pause. -/
theorem Run.course_of_none (idle : s₀.agenda = []) (r : Run allowed s₀ s (newer ++ m :: older))
    (begins : Begins m c kont use) (simple : ((after s₀ older).dispatching m).handleFor c = none) :
    Course (after s₀ (m :: older)) none use ((after s₀ older).dispatching m).agenda newer := by
  obtain ⟨s₁, r₁, before, dispatched⟩ := r.dispatched begins
  -- the outcome waits on the agenda, or the dispatch has returned
  suffices course : (Executing (after s₀ (m :: older)) use (s₁.dispatching m).agenda newer ∧
      ∃ o, o ≠ .pause ∧ .outcome none o use :: (s₁.dispatching m).agenda <:+ s.agenda) ∨
      ∃ later during o, newer = later ++ .did (.outcome none o use) :: during ∧
        Settled (after s₀ (m :: older)) none use (s₁.dispatching m).agenda o during by
    have silent := (r.ran_of_none idle begins simple).1
    rw [before]
    rcases course with ⟨executing, -⟩ | ⟨later, during, o, rfl, settled⟩
    · exact .executing executing silent
    · exact .returned later settled fun _ => silent
  induction newer generalizing s with
  | nil =>
    obtain rfl : after s₀ (m :: older) = s := r.after_eq
    rw [before] at simple
    obtain ⟨told, o, other, -, shape⟩ := dispatch_of_none (s₁.dispatching m) c use simple
    rw [dispatched, shape kont]
    refine .inl ⟨?_, o, other, List.suffix_append _ _⟩
    intro older part
    rw [List.suffix_nil.1 part]
    exact ⟨.outcome none o use, by simp [Item.settles], List.suffix_append _ _⟩
  | cons m' newer ih =>
    obtain ⟨s', r', happens⟩ := r.last
    have r' : Run allowed s₀ s' (newer ++ m :: older) := r'
    rcases ih r' with ⟨executing, o, other, waits⟩ | ⟨later, during, o, rfl, settled⟩
    · rcases happens.stays rfl waits with waits | ⟨rfl, top⟩
      · refine .inl ⟨executing.cons ⟨.outcome none o use, by simp [Item.settles], ?_⟩, o, other,
          waits⟩
        rw [r.after_since.1]
        exact waits
      · refine .inr ⟨[], newer, o, rfl, executing, ?_, ?_, by simp,
          (r'.ran_of_none idle begins simple).1⟩
        · rw [r'.after_since.1, top]
        · simp [other]
    · exact .inr ⟨m' :: later, during, o, rfl, settled⟩

/-- The continuation of a command that is dispatched goes to its handle. -/
theorem dispatch_continuations (b : Session) (c : Command) (kont : Nat → Continuation)
    (use : OutcomeUse) : (b.dispatch c kont use).1.continuations =
      b.continuations ++ (b.handleFor c).toList.map kont := by
  cases hk : b.handleFor c with
  | none =>
    obtain ⟨told, o, -, -, shape⟩ := dispatch_of_none b c use hk
    rw [shape]
    exact (List.append_nil _).symm
  | some k =>
    obtain ⟨-, n, name, task, -, -, shape⟩ := dispatch_of_handle b c kont use hk
    rw [shape, Session.continuations, List.map_append]
    rfl

end

/-- A command that pauses is resumed once, and only after its dispatch has returned. -/
theorem run_pausesOnce (idle : s₀.agenda = []) {newer older : History} {c : Command}
    {kont : Nat → Continuation} {use : OutcomeUse}
    (r : Run allowed s₀ s (newer ++ m :: older)) (begins : Begins m c kont use) :
    PausesOnce ((after s₀ older).dispatching m) (after s₀ (m :: older)) c kont use newer := by
  obtain ⟨s₁, -, before, dispatched⟩ := r.dispatched begins
  -- the part of the run up to a mark and the mark itself
  have split {latest middle : History} {m' : Mark} (parts : newer = latest ++ m' :: middle) :
      ∃ s' s'', Run allowed s₀ s' (middle ++ m :: older) ∧ Happens s' m' s'' ∧
        after (after s₀ (m :: older)) middle = s' ∧
        after (after s₀ (m :: older)) (m' :: middle) = s'' := by
    subst parts
    rw [List.append_assoc] at r
    obtain ⟨s'', r''⟩ := r.earlier
    have r'' : Run allowed s₀ s'' ((m' :: middle) ++ m :: older) := r''
    obtain ⟨s', r', happens⟩ := r''.last
    have r' : Run allowed s₀ s' (middle ++ m :: older) := r'
    exact ⟨s', s'', r', happens, r'.after_since.1, r''.after_since.1⟩
  refine ⟨?_, ?_, ?_, ?_, ?_, ?_, ?_, ?_, ?_⟩
  · rw [before, dispatched]
  · rw [dispatched, before]
    exact dispatch_continuations _ c kont use
  · intro part hp
    obtain ⟨latest, rfl⟩ := hp
    rw [List.append_assoc] at r
    obtain ⟨s', r'⟩ := r.earlier
    obtain ⟨s'', r'', later⟩ := r'.later
    rw [r''.after_eq]
    exact later.kept
  · cases hk : ((after s₀ older).dispatching m).handleFor c with
    | none => exact r.course_of_none idle begins hk
    | some k =>
      obtain ⟨name, stage⟩ := r.stage idle begins hk
      exact stage.course
  · exact fun simple => dispatch_dropped _ c kont use simple
  · cases hk : ((after s₀ older).dispatching m).handleFor c with
    | none => exact .inl (r.ran_of_none idle begins hk).1
    | some k =>
      obtain ⟨name, stage⟩ := r.stage idle begins hk
      exact stage.once.imp_right fun once => ⟨k, rfl, once⟩
  · intro x i latest part parts sequel
    rw [parts, List.append_assoc] at r
    obtain ⟨start, behind⟩ := r.of_sequel idle sequel
    cases part with
    | nil =>
      obtain ⟨rfl, -⟩ := List.cons.inj behind
      cases begins
    | cons m' part =>
      obtain ⟨rfl, -⟩ := List.cons.inj behind
      exact ⟨part, rfl⟩
  · intro k hk latest m' middle parts resumes waited
    obtain ⟨s', s'', r', happens, at_, here⟩ := split parts
    obtain ⟨name, stage⟩ := r'.stage idle begins hk
    rw [here, at_]
    exact stage.forwarded r'.after_since.2 waited resumes happens
  · intro k hk latest m' middle parts resumes waited
    obtain ⟨s', s'', r', happens, at_, here⟩ := split parts
    obtain ⟨name, stage⟩ := r'.stage idle begins hk
    rw [here, at_]
    exact stage.ignored at_ r'.after_since.2 waited resumes happens

/-- A session with nothing but a command that pauses. -/
def stayAlone : Session :=
  { commands := { handlers := ⟨⟨[("stay", ⟨[], true, 0⟩)], List.pairwise_singleton _ _⟩⟩ } }

/-- The command is dispatched, and resumed twice after that. -/
theorem pausesOnce_of_stayAlone :
    ∃ s newer m kont use, stayAlone.agenda = [] ∧
      Run (fun _ _ _ => True) stayAlone s (newer ++ m :: []) ∧ Begins m ⟨"stay"⟩ kont use ∧
      newer.countP (isResume false 0) = 2 ∧ ran (after stayAlone [m]) (some 0) newer = 1 ∧
      PausesOnce (stayAlone.dispatching m) (after stayAlone [m]) ⟨"stay"⟩ kont use newer := by
  have r : Run (fun _ _ _ => True) stayAlone stayAlone [] := .refl
  have r := (r.call rfl (.dispatch ⟨"stay"⟩ 7) trivial).works 9
  have r := (r.answer .heard rfl).works 9
  -- the dispatch has returned, and what it has left to the host runs
  have r := (r.call rfl (.resume 0) trivial).works 9
  have r := (r.answer .heard rfl).works 9
  have r := (r.call rfl (.resume 0) trivial).works 9
  have begins : Begins (.call (.dispatch ⟨"stay"⟩ 7)) ⟨"stay"⟩ (fun _ => .host 7) .reply :=
    .request _ 7
  exact ⟨_, _, _, _, _, rfl, r.at_mark 12 rfl, begins, rfl, rfl,
    run_pausesOnce rfl (r.at_mark 12 rfl) begins⟩

end Session

end Prompter

import Prompter.Proofs.Session.Handles

/-!
# Prompter.Proofs.Session.Sequels

What is done for nothing but its cause, and directly behind it.

The continuation of a command tells the host that it has resumed, or lets the engine go on. Whatever
an engine is asked for, one of the host's own is told as a notice. Such an item is put on top of the
agenda at the mark that calls for it and at no other (`Happens.hasSequel`), so it is done as the
very next thing (`Run.of_sequel`). The notices that the engine of the host gets are therefore the
requests of the session to its engine, one for one and in the same order (`run_passesOn`): what
holds of how often the engine is asked to go on holds of how often the host is told so.
-/

namespace Prompter

/-- Whether an item is done for nothing but what has called for it. -/
def Item.isSequel : Item → Bool
  | .tell .engineContinue | .tell (.engineSelect _) | .tell (.resumed _) => true
  | .continueEngine (.command _) => true
  | _ => false

/-- What the continuation of a command is for. -/
def Continuation.sequel? : Continuation → Option Item
  | .host key => some (.tell (.resumed key))
  | .commandDone k => some (.continueEngine (.command k))
  | .lineShown _ | .lineGone _ => none

namespace Session

variable {allowed : Session → History → Call → Prop} {s₀ s s' : Session} {h : History} {m : Mark}

/-! ### What something calls for -/

/-- Whether the engine is one of the host's own. -/
def isHosted (s : Session) : Bool :=
  match s.engine with
  | .host _ => true
  | _ => false

/-- What something that happens to a session calls for. -/
def sequel? (s : Session) : Mark → Option Item
  | .did (.continueEngine _) => if s.isHosted then some (.tell .engineContinue) else none
  | .did (.chooseOption _ id) | .call (.chooseOption id) =>
    if s.isHosted then some (.tell (.engineSelect id)) else none
  | .did (.resume (.host key)) => some (.tell (.resumed key))
  | .did (.resume x) => if s.exists? then x.sequel? else none
  | _ => none

/-- What is called for is put on top of the agenda, and nothing else that has to be called for. -/
structure HasSequel (s : Session) (m : Mark) (s' : Session) : Prop where
  seat : s'.isHosted = s.isHosted
  puts : ∃ items, s'.agenda = items ++ s.agenda ∧
    items.filter Item.isSequel = (s.sequel? m).toList ∧ ∀ i ∈ items.tail, i.isSequel = false

theorem isHosted_of_host {x : HostEngine} (seat : s.engine = .host x) : s.isHosted = true := by
  rw [isHosted, seat]

theorem not_isHosted_of_script {e : Engine} (seat : s.engine = .script e) :
    s.isHosted = false := by
  rw [isHosted, seat]

theorem not_isHosted_of_empty (seat : s.engine = .empty) : s.isHosted = false := by
  rw [isHosted, seat]

theorem eq_of_sequel? {x y : Continuation} {i : Item} (hx : x.sequel? = some i)
    (hy : y.sequel? = some i) : x = y := by
  cases x <;> cases hx <;> cases y <;> cases hy <;> rfl

/-- What the continuation of a command is for is called for only where it is run. -/
theorem eq_resume_of_sequel? {x : Continuation} {i : Item} (sequel : x.sequel? = some i)
    (calls : s.sequel? m = some i) : m = .did (.resume x) := by
  -- no continuation is for what the engine of the host is told
  have told {hosted : Bool} {n : Notice}
      (calls : (if hosted then some (.tell n) else none) = some i)
      (other : ∀ key, n ≠ .resumed key) : m = .did (.resume x) := by
    cases hosted with
    | false => cases calls
    | true =>
      obtain rfl := Option.some.inj calls
      cases x with
      | host key =>
        obtain rfl := Item.tell.inj (Option.some.inj sequel)
        exact absurd rfl (other key)
      | _ => cases sequel
  unfold sequel? at calls
  split at calls
  · exact told calls (by simp)
  · exact told calls (by simp)
  · exact told calls (by simp)
  · next key => rw [eq_of_sequel? (y := .host key) sequel calls]
  · next y _ =>
    split at calls
    · rw [eq_of_sequel? sequel calls]
    · cases calls
  · cases calls

section

variable {p : Progress}

/-- Nothing is called for. -/
theorem HasSequel.quiet (quiet : s.sequel? m = none)
    (seat : s'.isHosted = s.isHosted) (items : List Item)
    (agenda : s'.agenda = items ++ s.agenda) (others : ∀ i ∈ items, i.isSequel = false) :
    HasSequel s m s' := by
  refine ⟨seat, items, agenda, ?_, fun i hi => others i (List.mem_of_mem_tail hi)⟩
  rw [quiet]
  exact List.filter_eq_nil_iff.2 fun i hi => by simp [others i hi]

theorem HasSequel.calls {i : Item} (calls : s.sequel? m = some i) (sequel : i.isSequel = true)
    (seat : s'.isHosted = s.isHosted) (items : List Item)
    (agenda : s'.agenda = i :: items ++ s.agenda) (others : ∀ i ∈ items, i.isSequel = false) :
    HasSequel s m s' := by
  refine ⟨seat, i :: items, agenda, ?_, others⟩
  rw [calls, List.filter_cons_of_pos sequel,
    List.filter_eq_nil_iff.2 fun j hj => by simp [others j hj]]
  rfl

theorem isSequel_of_requested {r : Engine.Request} : ∀ i ∈ requested r, i.isSequel = false := by
  cases r with
  | report l event => cases l <;> simp [requested, Item.isSequel]
  | _ => simp [requested, Item.isSequel]

attribute [local simp] Item.isSequel push

theorem Chooses.hasSequel {id : OptionId} {l : List Item} (chooses : Chooses (s.push l) id p)
    (calls : s.sequel? m = if s.isHosted then some (.tell (.engineSelect id)) else none)
    (others : ∀ i ∈ l, i.isSequel = false) : HasSequel s m p.1 := by
  cases chooses with
  | nobody seat =>
    have seat : s.engine = .empty := seat
    rw [not_isHosted_of_empty seat] at calls
    exact .quiet calls rfl l rfl others
  | script seat =>
    have seat : s.engine = .script _ := seat
    rw [not_isHosted_of_script seat] at calls
    exact .quiet calls (not_isHosted_of_script seat).symm l rfl others
  | host seat =>
    have seat : s.engine = .host _ := seat
    rw [isHosted_of_host seat] at calls
    exact .calls calls rfl rfl l rfl others

theorem Concludes.hasSequel {r : Reporter} {y : NextAction} (concludes : Concludes s r y p)
    (quiet : s.sequel? m = none) : HasSequel s m p.1 := by
  cases concludes with
  | host | nobody => exact .quiet quiet rfl [] rfl (by simp)
  | engine seat =>
    exact .quiet quiet (not_isHosted_of_script seat).symm [.turn] rfl (by simp)

theorem Unpauses.hasSequel {k : Nat} {l : List Item} (unpauses : Unpauses (s.push l) k p)
    (quiet : s.sequel? m = none) (others : ∀ i ∈ l, i.isSequel = false) : HasSequel s m p.1 := by
  cases unpauses with
  | unknown => exact .quiet quiet rfl l rfl others
  | resumed =>
    exact .quiet quiet rfl _ (List.append_assoc ..).symm
      (List.forall_mem_append.2 ⟨forall_mem_resumption (fun _ => rfl) _, others⟩)

theorem Spawns.hasSequel {k : Nat} {l : List Item} (spawns : Spawns (s.push l) k p)
    (quiet : s.sequel? m = none) (others : ∀ i ∈ l, i.isSequel = false) : HasSequel s m p.1 := by
  cases spawns with
  | spawned => exact .quiet quiet rfl l rfl others
  | resumes _ unpauses => exact unpauses.hasSequel quiet others

theorem Dispatches.hasSequel {c : Command} {kont : Nat → Continuation} {use : OutcomeUse}
    {l : List Item} (dispatches : Dispatches (s.push l) c kont use p)
    (quiet : s.sequel? m = none) (others : ∀ i ∈ l, i.isSequel = false) : HasSequel s m p.1 := by
  have put (items : List Item) (more : ∀ i ∈ items, i.isSequel = false) (s' : Session)
      (seat : s'.isHosted = s.isHosted) (agenda : s'.agenda = items ++ (l ++ s.agenda)) :
      HasSequel s m s' :=
    .quiet quiet seat (items ++ l) (by rw [agenda, List.append_assoc])
      (List.forall_mem_append.2 ⟨more, others⟩)
  cases dispatches with
  | handler | pausingHandler | method | refused | unhandled | unheard =>
    exact put _ (by simp) _ rfl rfl
  | pausingMethod =>
    refine put _ ?_ _ rfl rfl
    split <;> simp

theorem Idles.sequel? {i : Item} (idles : Idles s i) : s.sequel? (.did i) = none := by
  cases idles with
  | continueEngine c nobody => exact if_neg (by simp [not_isHosted_of_empty nobody])
  | @resume x own gone =>
    cases x with
    | host key => exact absurd rfl (own key)
    | _ => exact if_neg (by simp [gone])
  | _ => rfl

theorem Works.hasSequel {i : Item} (works : Works s i p) : HasSequel s (.did i) p.1 := by
  cases works with
  | idle idles => exact .quiet idles.sequel? rfl [] rfl (by simp)
  | turn seat =>
    exact .quiet rfl (not_isHosted_of_script seat).symm _ rfl isSequel_of_requested
  | continueScript _ seat =>
    refine .quiet (if_neg ?_) (not_isHosted_of_script seat).symm _ rfl ?_
    · simp [not_isHosted_of_script seat]
    · split <;> simp
  | continueHost _ seat =>
    exact .calls (if_pos (isHosted_of_host seat)) rfl rfl [] rfl (by simp)
  | chooseOption n chooses => exact Chooses.hasSequel (l := []) chooses rfl (by simp)
  | command dispatches => exact Dispatches.hasSequel (l := []) dispatches rfl (by simp)
  | conclude concludes | outcomeOf _ concludes => exact concludes.hasSequel rfl
  | resumeWhenDone spawns => exact Spawns.hasSequel (l := []) spawns rfl (by simp)
  | options r set opens =>
    exact .quiet rfl rfl _ rfl (forall_mem_tellViews_append (fun _ => rfl) (by simp))
  | nodeStart | nodeEnd =>
    exact .quiet rfl rfl _ rfl (forall_mem_tellViews_append (fun _ => rfl) (by simp))
  | resumeHost key => exact .calls rfl rfl rfl [] rfl (by simp)
  | @lineShown n here d line =>
    refine .quiet (if_pos here) rfl ((s.tellViews (.lineStatus n line) ++
      if d.settings.autoAdvance then [.closeLine n] else []) ++ [.lease])
      (by rw [List.append_assoc]; rfl) (List.forall_mem_append.2 ⟨?_, by simp⟩)
    refine forall_mem_tellViews_append (fun _ => rfl) ?_
    split <;> simp
  | lineGone here => exact .quiet (if_pos here) rfl [_, .lease] rfl (by simp)
  | stale here old =>
    refine .quiet ?_ rfl [.lease] rfl (by simp)
    rcases old with ⟨n, rfl, -⟩ | ⟨n, rfl, -⟩ <;> exact if_pos here
  | commandDone k here => exact .calls (if_pos here) rfl rfl [.lease] rfl (by simp)
  | closeLine =>
    exact .quiet rfl rfl _ rfl (forall_mem_tellViews_append (fun _ => rfl) (by simp))
  | finish => exact .quiet rfl rfl _ rfl (forall_mem_tellViews fun _ => rfl)
  | reply | outcome => exact .quiet rfl rfl [] rfl (by simp)
  | _ => exact .quiet rfl rfl _ rfl (by simp)

theorem Declines.sequel? {c : Call} {outputs : List Output} (declines : Declines s c outputs) :
    s.sequel? (.call c) = none := by
  cases declines with
  | unseated concerns =>
    rcases concerns with rfl | rfl | ⟨_, rfl⟩ | ⟨_, rfl⟩ | ⟨_, rfl⟩ <;> rfl
  | _ => rfl

theorem Requests.hasSequel {c : Call} (requests : Requests s c p) : HasSequel s (.call c) p.1 := by
  cases requests with
  | declined declines => exact .quiet declines.sequel? rfl [] rfl (by simp)
  | start named can places =>
    refine .quiet rfl ?_ _ rfl (forall_mem_tellViews_append (fun _ => rfl) (by simp))
    cases places with
    | script seat => exact (not_isHosted_of_script seat).symm
    | host seat => exact (isHosted_of_host seat).symm
  | place seat | stopEngine seat | bind seat | attach _ seat | detach seat =>
    exact .quiet rfl (not_isHosted_of_script seat).symm [] rfl (by simp)
  | stopScript _ seat =>
    exact .quiet rfl (not_isHosted_of_script seat).symm _ rfl (by simp)
  | interrupt =>
    exact .quiet rfl rfl _ rfl (forall_mem_tellViews_append (fun _ => rfl) (by simp))
  | dismiss =>
    exact .quiet rfl rfl _ rfl (List.forall_mem_append.2
      ⟨forall_mem_tellViews_append (fun _ => rfl) (by simp), by simp⟩)
  | select =>
    refine .quiet rfl rfl _ rfl
      (List.forall_mem_cons.2 ⟨rfl, List.forall_mem_cons.2 ⟨?_, by simp⟩⟩)
    split <;> rfl
  | complete =>
    exact .quiet rfl rfl _ rfl
      (List.forall_mem_append.2 ⟨forall_mem_resumption (fun _ => rfl) _, by simp⟩)
  | resume unpauses => exact unpauses.hasSequel rfl (by simp)
  | resumeWhenDone spawns => exact spawns.hasSequel rfl (by simp)
  | dispatch dispatches => exact dispatches.hasSequel rfl (by simp)
  | chooseOption chooses => exact chooses.hasSequel rfl (by simp)
  | stopEmpty | stopHost | deliver | function | continueEngine =>
    exact .quiet rfl rfl _ rfl (by simp)
  | _ => exact .quiet rfl rfl [] rfl (by simp)

theorem isSequel_of_callsHost {i : Item} (calls : i.callsHost = true) : i.isSequel = false := by
  cases i <;> first | rfl | cases calls

theorem Happens.hasSequel (happens : Happens s m s') :
    ∃ s₁ : Session, s₁.isHosted = s.isHosted ∧ Takes m s.agenda s₁.agenda ∧ HasSequel s₁ m s' := by
  cases happens with
  | @work busy i rest top =>
    rw [step_eq_work busy top, top]
    exact ⟨{ s with agenda := rest }, rfl, .did i rest, (work_works _ i).hasSequel⟩
  | call word c =>
    exact ⟨s, rfl, .call c _ (callsHost_of_awaitsHost word), (call_requests s c).hasSequel⟩
  | answer y fits =>
    have answered := answered_of_accepts fits
    generalize (s.answer y).1 = s' at answered ⊢
    cases answered with
    | heard n rest top | replied key args rest v top =>
      rw [top]
      exact ⟨{ s with agenda := rest }, rfl, .answer _ _ rest rfl, .quiet rfl rfl [] rfl (by simp)⟩
    | action key event rest y top =>
      rw [top]
      exact ⟨{ s with agenda := rest }, rfl, .answer _ _ rest rfl,
        (conclude_concludes _ .engine y).hasSequel rfl⟩
    | received key args rest v top =>
      rw [top]
      refine ⟨{ s with agenda := rest }, rfl, .answer _ _ rest rfl, ?_⟩
      unfold mapEngine
      split
      · next seat =>
        have seat : s.engine = .script _ := seat
        exact .quiet rfl (not_isHosted_of_script seat).symm [.turn] rfl (by simp)
      · exact .quiet rfl rfl [.turn] rfl (by simp)

/-! ### Every run -/

/-- What has to be called for is on the agenda only while it is first, and has just been called
for. -/
theorem Run.sequels (idle : s₀.agenda = []) (r : Run allowed s₀ s h) :
    (∀ i ∈ s.agenda.tail, i.isSequel = false) ∧
    ∀ i ∈ s.agenda, i.isSequel = true → ∃ m before, ∃ s' : Session, h = m :: before ∧
      s'.sequel? m = some i := by
  induction h generalizing s with
  | nil =>
    cases r
    simp [idle]
  | cons m h ih =>
    obtain ⟨s', r', happens⟩ := r.last
    obtain ⟨s₁, -, takes, -, items, agenda, called, below⟩ := happens.hasSequel
    have waits : ∀ i ∈ s₁.agenda, i.isSequel = false :=
      takes.forall_rest (fun _ => isSequel_of_callsHost) (ih r').1
    rw [agenda]
    refine ⟨?_, fun i hi sequel => ?_⟩
    · cases items with
      | nil => exact fun i hi => waits i (List.mem_of_mem_tail hi)
      | cons j items => exact List.forall_mem_append.2 ⟨below, waits⟩
    · rcases List.mem_append.1 hi with new | old
      · have new := List.mem_filter.2 ⟨new, sequel⟩
        rw [called] at new
        exact ⟨m, h, s₁, rfl, Option.mem_toList.1 new⟩
      · exact Bool.noConfusion ((waits i old).symm.trans sequel)

/-- What the continuation of a command is for is done only behind a run of the continuation. -/
theorem Run.of_sequel (idle : s₀.agenda = []) {newer older : History} {x : Continuation} {i : Item}
    (sequel : x.sequel? = some i) (r : Run allowed s₀ s (newer ++ .did i :: older)) :
    ∃ before, older = .did (.resume x) :: before := by
  obtain ⟨s₁, rest, r₁, top⟩ := r.before_did
  have isSequel : i.isSequel = true := by
    cases x <;> cases sequel <;> rfl
  obtain ⟨m, before, s', rfl, called⟩ :=
    (r₁.sequels idle).2 i (top ▸ List.mem_cons_self) isSequel
  rw [eq_resume_of_sequel? sequel called]
  exact ⟨before, rfl⟩

/-! ### What an engine of the host is told -/

/-- What the engine is asked for when something happens. -/
def asks? : Mark → Option Notice
  | .did (.continueEngine _) => some .engineContinue
  | .did (.chooseOption _ id) | .call (.chooseOption id) => some (.engineSelect id)
  | _ => none

/-- What an item asks the engine of the host for. -/
def passesOn? : Item → Option Notice
  | .tell .engineContinue => some .engineContinue
  | .tell (.engineSelect id) => some (.engineSelect id)
  | _ => none

/-- What the engine of the host is told at a mark. -/
def told? : Mark → Option Notice
  | .did i => passesOn? i
  | _ => none

theorem passesOn?_eq_none {i : Item} (other : i.isSequel = false) : passesOn? i = none := by
  unfold passesOn?
  split
  · cases other
  · cases other
  · rfl

/-- What is called for is what the engine is asked for, or is not for the engine. -/
theorem passesOn?_of_sequel? (hosted : s.isHosted = true) (m : Mark) :
    (s.sequel? m).bind passesOn? = asks? m := by
  unfold sequel?
  split
  · rw [if_pos hosted]
    rfl
  · rw [if_pos hosted]
    rfl
  · rw [if_pos hosted]
    rfl
  · rfl
  · next x _ =>
    split
    · cases x <;> rfl
    · rfl
  · unfold asks?
    split <;> simp_all

/-- What is put on the agenda passes on what the engine is asked for. -/
theorem HasSequel.passesOn (has : HasSequel s m s') (hosted : s.isHosted = true) :
    s'.agenda.filterMap passesOn? = (asks? m).toList ++ s.agenda.filterMap passesOn? := by
  obtain ⟨-, items, agenda, called, -⟩ := has
  have same : (fun i => if i.isSequel = true then passesOn? i else none) = passesOn? := by
    funext i
    cases sequel : i.isSequel with
    | true => rfl
    | false => exact (passesOn?_eq_none sequel).symm
  rw [agenda, List.filterMap_append, ← same, ← List.filterMap_filter, called, same,
    ← passesOn?_of_sequel? hosted m]
  cases s.sequel? m with
  | none => rfl
  | some i =>
    rw [Option.toList_some, List.filterMap_cons, Option.bind_some]
    cases passesOn? i <;> rfl

/-- What waits to be passed on is passed on now. -/
theorem Takes.passedOn {a rest : List Item} (takes : Takes m a rest) :
    a.filterMap passesOn? = (told? m).toList ++ rest.filterMap passesOn? := by
  cases takes with
  | did i =>
    rw [List.filterMap_cons, told?]
    cases passesOn? i <;> rfl
  | answer y i _ called =>
    rw [List.filterMap_cons, passesOn?_eq_none (isSequel_of_callsHost called)]
    rfl
  | call => rfl

/-- The engine of the host is told what the engine is asked for, as often and in the same order.
What is still to be told is on the agenda, so nothing is missing when nothing is left to be done. -/
theorem run_passesOn (hosted : s₀.isHosted = true) (idle : s₀.agenda = [])
    (r : Run allowed s₀ s h) :
    h.filterMap asks? = s.agenda.filterMap passesOn? ++ h.filterMap told? := by
  suffices known : s.isHosted = true ∧
      h.filterMap asks? = s.agenda.filterMap passesOn? ++ h.filterMap told? from known.2
  induction h generalizing s with
  | nil =>
    cases r
    simp [hosted, idle]
  | cons m h ih =>
    obtain ⟨s', r', happens⟩ := r.last
    obtain ⟨hosted', known⟩ := ih r'
    obtain ⟨s₁, same, takes, has⟩ := happens.hasSequel
    have hosted₁ := same.trans hosted'
    refine ⟨has.seat.trans hosted₁, ?_⟩
    have none_waits : s₁.agenda.filterMap passesOn? = [] := by
      refine List.filterMap_eq_nil_iff.2 fun i hi => passesOn?_eq_none ?_
      exact takes.forall_rest (fun _ => isSequel_of_callsHost) (r'.sequels idle).1 i hi
    rw [takes.passedOn, none_waits, List.append_nil] at known
    rw [has.passesOn hosted₁, none_waits, List.append_nil, List.filterMap_cons, List.filterMap_cons,
      known]
    cases asks? m <;> cases told? m <;> rfl

/-- When nothing is left to be done, it has been told all of it. -/
theorem run_told (hosted : s₀.isHosted = true) (idle : s₀.agenda = []) (r : Run allowed s₀ s h)
    (through : s.agenda = []) : h.filterMap told? = h.filterMap asks? := by
  rw [run_passesOn hosted idle r, through]
  rfl

end

end Session

end Prompter

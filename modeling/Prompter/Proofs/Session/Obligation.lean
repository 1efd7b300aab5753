import Prompter.Proofs.Session.Play

/-!
# Prompter.Proofs.Session.Obligation

What a host owes a dialogue: the answer to an offer, and the resume of a command.

An offer that is open has been put to every view (`Tendered`), and when it stays open after a
dutiful answer, none of its options can be chosen (`Run.refused`). Every handle is given out, and
when all have been resumed no command is waited for any more (`Run.unheld`).
-/

namespace Prompter

/-- The handle that an item gives to the host, or to a task. -/
def Item.entrusts? : Item → Option Nat
  | .tell n => n.handle?
  | .resumeWhenDone k => some k
  | _ => none

namespace Session

variable {allowed : Session → History → Call → Prop} {p : Play} {s₀ s s' : Session} {h : History}
  {m : Mark}

/-- What is requested was allowed at the time. -/
theorem Run.allowed_of_mem {c : Call} (r : Run allowed s₀ s h) (hc : .call c ∈ h) :
    ∃ s' newer older, h = newer ++ .call c :: older ∧ Run allowed s₀ s' older ∧
      allowed s' older c := by
  obtain ⟨newer, older, rfl⟩ := List.append_of_mem hc
  obtain ⟨_, r'⟩ := r.earlier
  cases r' with
  | call r' _ _ ok => exact ⟨_, newer, older, rfl, r', ok⟩

/-! ### Offers -/

/-- What the views have been told of offers. -/
structure Tendered (s : Session) (h : History) : Prop where
  /-- Nobody is told of an offer before there is one, or of other options than it has. -/
  known : ∀ v options serial, Seen (.tell (.view v (.offerOptions options serial))) s h →
    serial ≤ s.dialogue.offerSerial ∧
      ∀ o, s.dialogue.offer = some o → o.serial = serial → o.options = options
  /-- The offer that is open is put to every view. -/
  put : ∀ o, s.dialogue.offer = some o → o.serial = s.dialogue.offerSerial ∧
    ∀ v ∈ s.dialogue.views, Seen (.tell (.view v (.offerOptions o.options o.serial))) s h

theorem Run.tendered (fresh : s₀.IsFresh) (r : Run allowed s₀ s h) : Tendered s h := by
  refine r.posts (motive := Tendered) ?_ fun {s s' h m} _ _ posts tendered => ?_
  · have closed : s₀.dialogue.offer = none := by rw [fresh.dialogue]
    refine ⟨fun v options serial seen => ?_, fun o opened => ?_⟩
    · rw [Seen, fresh.agenda] at seen
      rcases seen with seen | seen <;> cases seen
    · cases closed.symm.trans opened
  · obtain ⟨items, rest, takes, post, agenda⟩ := posts
    have earlier {i : Item} (seen : Seen i s' (m :: h)) : i ∈ items ∨ Seen i s h := by
      rw [Seen, agenda, List.mem_append, List.mem_cons] at seen
      rcases seen with (new | old) | rfl | done
      · exact .inl new
      · exact .inr (.inl (takes.mem old))
      · exact .inr (.inl takes.mem_did)
      · exact .inr (.inr done)
    rcases post.offers with ⟨r, set, options, rfl, opened, serial, views, rfl⟩ |
      ⟨offer, serial, views, none⟩
    · refine ⟨fun v options' n seen => ?_, fun o opened' => ?_⟩
      · rw [serial, opened]
        rcases earlier seen with new | old
        · rcases List.mem_append.1 new with new | new
          · obtain ⟨_, -, same⟩ := mem_tells.1 new
            cases same
            refine ⟨Nat.le_refl _, ?_⟩
            rintro _ ⟨⟩ -
            rfl
          · cases List.mem_singleton.1 new
        · have le := (tendered.known v options' n old).1
          refine ⟨by omega, ?_⟩
          rintro _ ⟨⟩ same
          dsimp only at same
          omega
      · obtain rfl := Option.some.inj (opened.symm.trans opened')
        refine ⟨serial.symm, fun v hv => .inl ?_⟩
        rw [agenda]
        exact List.mem_append_left _ (List.mem_append_left _ (mem_tells.2 ⟨v, views ▸ hv, rfl⟩))
    · have same (o : Offer) (opened : s'.dialogue.offer = some o) : s.dialogue.offer = some o := by
        rcases offer with offer | offer
        · exact offer.symm.trans opened
        · cases offer.symm.trans opened
      refine ⟨fun v options n seen => ?_, fun o opened => ?_⟩
      · obtain ⟨le, known⟩ := tendered.known v options n
          ((earlier seen).resolve_left (none v options n))
        exact ⟨serial ▸ le, fun o opened => known o (same o opened)⟩
      · obtain ⟨last, put⟩ := tendered.put o (same o opened)
        exact ⟨serial ▸ last, fun v hv => (put v (views ▸ hv)).after rfl takes agenda⟩

/-- The session holds on to its dialogue. -/
theorem Run.held (set : IsSet p s₀) (r : Run (Dutiful p) s₀ s h) : s.held = true := by
  obtain ⟨e, b⟩ := Run.ballot set.isAttached set.engine (r.weaken fun _ _ _ => Dutiful.considerate)
  exact b.attended.held

/-- An offer that is open although it has been answered has no option that can be chosen. -/
theorem Run.refused (set : IsSet p s₀) (r : Run (Dutiful p) s₀ s h) {o : Offer}
    (opened : s.dialogue.offer = some o) {id : OptionId}
    (answered : .call (.select o.serial id) ∈ h) : p.choice? o.options = none := by
  induction h generalizing s with
  | nil => cases answered
  | cons m h ih =>
    obtain ⟨s₁, r₁, happens⟩ := r.last
    have tendered := r₁.tendered set.toIsFresh
    obtain ⟨items, rest, takes, post, agenda⟩ := happens.posts
    rcases post.offers with ⟨reporter, os, options, rfl, opened', serial, -⟩ | ⟨offer, serial, -⟩
    · -- nobody has answered an offer before it was made
      obtain rfl := Option.some.inj (opened'.symm.trans opened)
      have answered := (List.mem_cons.1 answered).resolve_left nofun
      obtain ⟨_, _, _, rfl, _, _, _, told, -⟩ := r₁.allowed_of_mem answered
      have le := (tendered.known _ _ _
        (.inr (List.mem_append_right _ (List.mem_cons_of_mem _ told)))).1
      dsimp only at le
      omega
    · have before : s₁.dialogue.offer = some o := by
        rcases offer with offer | offer
        · exact offer.symm.trans opened
        · cases offer.symm.trans opened
      rcases List.mem_cons.1 answered with rfl | answered
      · obtain ⟨v, options, told, rfl⟩ := r₁.allowed_of_call r
        obtain rfl := (tendered.known _ _ _ (.inr told)).2 o before rfl
        cases happens with
        | call word =>
          rcases select_cases (s := s₁) o.serial (p.pick o.options) with (gone | cannot) |
            ⟨_, _, _, selects⟩
          · simp [exists?, r₁.held set] at gone
          · rw [Play.choice?]
            cases found : o.options.find? (·.id = p.pick o.options) with
            | none => rfl
            | some x => simp [cannot o before rfl x found]
          · rw [selects.chosen] at opened
            cases opened
      · exact ih r₁ before answered

/-! ### Handles -/

/-- What a session puts on its agenda gives out none but handles that there are, and gives out those
that come into being. -/
structure Trusts (s s' : Session) : Prop where
  given : ∀ i ∈ s'.agenda, ∀ k, i.entrusts? = some k → i ∈ s.agenda ∨ k < s'.handles.length
  new : ∀ k, s.handles.length ≤ k → k < s'.handles.length →
    ∃ n, n.handle? = some k ∧ .tell n ∈ s'.agenda

section

theorem Trusts.of_items (items : List Item) (others : ∀ i ∈ items, i.entrusts? = none)
    (agenda : s'.agenda = items ++ s.agenda) (handles : s'.handles.length = s.handles.length) :
    Trusts s s' where
  given i hi k given := by
    rcases List.mem_append.1 (agenda ▸ hi) with new | old
    · cases (others i new).symm.trans given
    · exact .inl old
  new k le lt := by omega

theorem Trusts.refl (s : Session) : Trusts s s := .of_items [] nofun rfl rfl

/-- What was already done of the agenda makes no difference. -/
theorem Trusts.of_tail {i : Item} {rest : List Item} (top : s.agenda = i :: rest)
    (trusts : Trusts { s with agenda := rest } s') : Trusts s s' where
  given j hj k given := by
    rw [top]
    exact (trusts.given j hj k given).imp_left (List.mem_cons_of_mem i)
  new := trusts.new

theorem Trusts.of_push (items : List Item) (others : ∀ i ∈ items, i.entrusts? = none)
    (trusts : Trusts (s.push items) s') : Trusts s s' where
  given i hi k given := by
    rcases trusts.given i hi k given with old | new
    · rcases List.mem_append.1 (push_agenda s items ▸ old) with own | old
      · cases (others i own).symm.trans given
      · exact .inl old
    · exact .inr new
  new := trusts.new

attribute [local simp] Item.entrusts? Notice.handle?

variable {q : Progress}

theorem Chooses.trusts {id : OptionId} (chooses : Chooses s id q) : Trusts s q.1 := by
  cases chooses with
  | nobody | script => exact .of_items [] (by simp) rfl rfl
  | host => exact .of_items [_] (by simp) rfl rfl

theorem Concludes.trusts {r : Reporter} {x : NextAction} (concludes : Concludes s r x q) :
    Trusts s q.1 := by
  cases concludes with
  | host | nobody => exact .refl s
  | engine => exact .of_items [.turn] (by simp) rfl rfl

theorem Unpauses.trusts {k : Nat} (unpauses : Unpauses s k q) : Trusts s q.1 := by
  cases unpauses with
  | unknown => exact .refl s
  | resumed =>
    exact .of_items _ (forall_mem_resumption (fun _ => rfl) _) rfl (List.length_set ..)

theorem Spawns.trusts {k : Nat} (spawns : Spawns s k q) : Trusts s q.1 := by
  cases spawns with
  | spawned => exact .refl s
  | resumes _ unpauses => exact unpauses.trusts

/-- A command that may pause gets the handle that comes into being with it. -/
theorem Dispatches.trusts {c : Command} {kont : Nat → Continuation} {use : OutcomeUse}
    (dispatches : Dispatches s c kont use q) : Trusts s q.1 := by
  have pausing (n : Notice) (name : String) (task : List Item)
      (handle : n.handle? = some s.handles.length)
      (tasks : ∀ i ∈ task, i = .resumeWhenDone s.handles.length) (s' : Session)
      (handles : s'.handles = s.handles ++ [.fresh name (kont s.handles.length)])
      (agenda : s'.agenda = .tell n :: task ++ .afterCall name s.handles.length use :: s.agenda) :
      Trusts s s' := by
    refine ⟨fun i hi k entrusted => ?_, fun k le lt => ⟨n, ?_, by simp [agenda]⟩⟩
    · rw [handles, List.length_append]
      rcases List.mem_cons.1 (agenda ▸ hi) with rfl | hi
      · have same := Option.some.inj (handle.symm.trans entrusted)
        exact .inr (same ▸ Nat.lt_succ_self _)
      · rcases List.mem_append.1 hi with hi | hi
        · rw [tasks i hi] at entrusted
          cases entrusted
          exact .inr (Nat.lt_succ_self _)
        · rcases List.mem_cons.1 hi with rfl | hi
          · cases entrusted
          · exact .inl hi
    · rw [handles, List.length_append, List.length_singleton] at lt
      rw [handle]
      exact congrArg some (by omega)
  cases dispatches with
  | handler | method | refused | unhandled | unheard => exact .of_items _ (by simp) rfl rfl
  | pausingHandler => exact pausing _ _ [] rfl (by simp) _ rfl rfl
  | @pausingMethod m target args =>
    refine pausing (.method m target args (some s.handles.length)) m.name
      (if m.kind = .task then [.resumeWhenDone s.handles.length] else []) rfl ?_ _ rfl (by simp)
    split <;> simp

/-- Whatever else a session does gives out no handle. -/
theorem Works.trusts {i : Item} (works : Works s i q) : Trusts s q.1 := by
  cases works with
  | idle | reply | outcome => exact .refl s
  | tell | continueHost | line | dialogueEnd | present | immediate | waiting | resumeHost | stale
  | commandDone => exact .of_items _ (by simp) rfl rfl
  | turn =>
    refine .of_items _ ?_ rfl rfl
    unfold requested
    split <;> simp
  | continueScript =>
    refine .of_items _ ?_ rfl rfl
    split <;> simp
  | chooseOption n chooses => exact chooses.trusts
  | options | nodeStart | nodeEnd | closeLine =>
    exact .of_items _ (forall_mem_tellViews_append (fun _ => rfl) (by simp)) rfl rfl
  | command dispatches => exact dispatches.trusts
  | conclude concludes | outcomeOf k concludes => exact concludes.trusts
  | callNext b => exact .of_items _ (by cases b <;> simp [LineBroadcast.notice]) rfl rfl
  | lineShown =>
    refine .of_push [.lease] (by simp) (.of_items _ (forall_mem_tellViews_append (fun _ => rfl) ?_)
      rfl rfl)
    split <;> simp
  | lineGone => exact .of_items [_, .lease] (by simp) rfl rfl
  | finish => exact .of_items _ (forall_mem_tellViews fun _ => rfl) rfl rfl
  | afterCall => exact .of_items [_] (by simp) rfl (List.length_set ..)
  | resumeWhenDone spawns => exact spawns.trusts

theorem Requests.trusts {c : Call} (requests : Requests s c q) (ok : Dutiful p s h c) :
    Trusts s q.1 := by
  cases requests with
  | declined => exact .refl s
  | start =>
    exact .of_items _ (forall_mem_tellViews_append (fun _ => rfl) (by simp)) rfl rfl
  | select =>
    refine .of_items _ ?_ rfl rfl
    split <;> simp
  | complete =>
    refine .of_items _ (List.forall_mem_append.2 ⟨?_, by simp⟩) rfl rfl
    exact forall_mem_resumption (fun _ => rfl) _
  | resume unpauses => exact .of_push [.reply .done] (by simp) unpauses.trusts
  | resumeWhenDone spawns => exact .of_push [.reply .done] (by simp) spawns.trusts
  | _ => exact ok.elim

theorem answer_trusts (s : Session) (x : Answer) : Trusts s (s.answer x).1 := by
  unfold answer
  split
  · next top => exact .of_tail top (.refl _)
  · next top => exact .of_tail top (conclude_concludes _ _ _).trusts
  · next top =>
    refine .of_tail top ?_
    simp only [mapEngine]
    split <;> exact .of_items [.turn] (by simp [Item.entrusts?]) rfl rfl
  · next top => exact .of_tail top (.refl _)
  · exact .refl s

end

theorem Happens.trusts (happens : Happens s m s') (ok : ∀ c, m = .call c → Dutiful p s h c) :
    Trusts s s' := by
  cases happens with
  | @work busy i rest top =>
    rw [step_eq_work busy top]
    exact .of_tail top (work_works _ i).trusts
  | call word c => exact (call_requests _ c).trusts (ok c rfl)
  | answer x fits => exact s.answer_trusts x

/-- What has become of the handles. -/
structure Entrusted (s : Session) (h : History) : Prop where
  /-- Only handles that there are have been given out. -/
  given : ∀ i, Seen i s h → ∀ k, i.entrusts? = some k → k < s.handles.length
  /-- Every handle is given out. -/
  told : ∀ k, k < s.handles.length → ∃ n, n.handle? = some k ∧ Seen (.tell n) s h
  known : ∀ tasks k, resumed tasks k h = true → k < s.handles.length
  /-- A handle that can still be waited for has not been resumed. -/
  unused : ∀ k x, s.handles[k]? = some x → x.isUsed = false → resumed s.runsTasks k h = false

/-- Nobody resumes a handle that there is not. -/
theorem Entrusted.lt_of_isResume (entrusted : Entrusted s h) (happens : Happens s m s')
    (ok : ∀ c, m = .call c → Dutiful p s h c) {tasks : Bool} {k : Nat}
    (resumes : isResume tasks k m = true) : k < s.handles.length := by
  have of_began (began : Began k h) : k < s.handles.length := by
    obtain ⟨n, named, told⟩ := began
    exact entrusted.given _ (.inr told) k named
  unfold isResume at resumes
  split at resumes
  · next k' =>
    obtain rfl : k' = k := by simpa using resumes
    exact of_began (ok _ rfl)
  · next k' =>
    obtain ⟨-, rfl⟩ : tasks = false ∧ k' = k := by simpa using resumes
    exact of_began (ok _ rfl)
  · next k' =>
    obtain ⟨-, rfl⟩ : tasks = false ∧ k' = k := by simpa using resumes
    obtain ⟨rest, top, -⟩ := happens.top
    exact entrusted.given (.resumeWhenDone k') (.inl (top ▸ List.mem_cons_self)) k' rfl
  · cases resumes

/-- A handle that can be waited for could be before. -/
theorem Happens.unused (happens : Happens s m s') {k : Nat} {x' : ResumeHandle Continuation}
    (lt : k < s.handles.length) (now : s'.handles[k]? = some x') (unused : x'.isUsed = false) :
    isResume s.runsTasks k m = false ∧ ∃ x, s.handles[k]? = some x ∧ x.isUsed = false := by
  obtain ⟨x, hx⟩ : ∃ x, s.handles[k]? = some x := ⟨_, List.getElem?_eq_getElem lt⟩
  cases resumes : isResume s.runsTasks k m with
  | true =>
    rw [happens.resumed resumes hx, List.getElem?_set_self lt] at now
    cases now
    cases x.resume_isUsed.symm.trans unused
  | false =>
    refine ⟨rfl, x, hx, ?_⟩
    by_cases called : ∃ name use, m = .did (.afterCall name k use)
    · obtain ⟨name, use, rfl⟩ := called
      obtain ⟨rest, -, rfl⟩ := happens.top
      have handles : ({ s with agenda := rest }.work (.afterCall name k use)).1.handles =
          s.handles.set k x.arm.1 := by
        simp only [Session.work, afterCall, hx]
        split <;> rfl
      rw [handles, List.getElem?_set_self lt] at now
      cases now
      exact x.arm_isUsed.symm.trans unused
    · have same := happens.keeps lt resumes fun name use hm => called ⟨name, use, hm⟩
      rw [same, hx] at now
      cases now
      exact unused

theorem Run.entrusted (fresh : s₀.IsFresh) (r : Run (Dutiful p) s₀ s h) : Entrusted s h := by
  induction h generalizing s with
  | nil =>
    cases r
    refine ⟨fun i seen => ?_, fun k lt => ?_, nofun, fun k x hx => ?_⟩
    · rw [Seen, fresh.agenda] at seen
      rcases seen with seen | seen <;> cases seen
    · rw [fresh.handles] at lt
      cases lt
    · rw [fresh.handles] at hx
      cases hx
  | cons m h ih =>
    obtain ⟨s₁, r₁, happens⟩ := r.last
    have entrusted := ih r₁
    have ok (c : Call) (hm : m = .call c) : Dutiful p s₁ h c := by
      subst hm
      exact r₁.allowed_of_call r
    have trusts := happens.trusts ok
    have known (tasks : Bool) (k : Nat) (resumes : resumed tasks k (m :: h) = true) :
        k < s₁.handles.length := by
      rw [resumed, List.any_cons, Bool.or_eq_true] at resumes
      exact resumes.elim (entrusted.lt_of_isResume happens ok) (entrusted.known tasks k)
    refine ⟨fun i seen k given => ?_, fun k lt => ?_, fun tasks k resumes => ?_,
      fun k x hx unused => ?_⟩
    · rcases seen with seen | seen
      · rcases trusts.given i seen k given with old | new
        · exact Nat.lt_of_lt_of_le (entrusted.given i (.inl old) k given) happens.length_le
        · exact new
      · refine Nat.lt_of_lt_of_le ?_ happens.length_le
        rcases List.mem_cons.1 seen with rfl | seen
        · obtain ⟨rest, top, -⟩ := happens.top
          exact entrusted.given i (.inl (top ▸ List.mem_cons_self)) k given
        · exact entrusted.given i (.inr seen) k given
    · rcases Nat.lt_or_ge k s₁.handles.length with old | new
      · obtain ⟨n, named, seen⟩ := entrusted.told k old
        refine ⟨n, named, ?_⟩
        rcases seen with seen | seen
        · rcases happens.posts.pending rfl seen with left | rfl
          · exact .inl left
          · exact .inr List.mem_cons_self
        · exact .inr (List.mem_cons_of_mem m seen)
      · obtain ⟨n, named, told⟩ := trusts.new k new lt
        exact ⟨n, named, .inl told⟩
    · exact Nat.lt_of_lt_of_le (known tasks k resumes) happens.length_le
    · rw [happens.runsTasks]
      rcases Nat.lt_or_ge k s₁.handles.length with old | new
      · obtain ⟨quiet, x₁, hx₁, unused₁⟩ := happens.unused old hx unused
        rw [resumed, List.any_cons, quiet, Bool.false_or]
        exact entrusted.unused k x₁ hx₁ unused₁
      · exact Bool.eq_false_iff.2 fun resumes => Nat.not_lt.2 new (known _ k resumes)

/-- When nothing is outstanding, no command is waited for. -/
theorem Run.unheld (fresh : s₀.IsFresh) (r : Run (Dutiful p) s₀ s h)
    (discharged : Discharged s h) (k : Nat) : ¬ IsHeld s h k := by
  rintro ⟨-, armed⟩
  obtain ⟨x, hx, phase⟩ : ∃ x, s.handles[k]? = some x ∧ x.phase = .armed := by
    unfold isArmed at armed
    split at armed
    · next x hx => exact ⟨x, hx, by simpa using armed⟩
    · cases armed
  have entrusted := r.entrusted fresh
  obtain ⟨n, named, seen⟩ := entrusted.told k (List.getElem?_eq_some_iff.1 hx).1
  have told : .did (.tell n) ∈ h := seen.resolve_left (by rw [discharged.done]; nofun)
  obtain ⟨m, hm, resumes⟩ := discharged.resumed k ⟨n, named, told⟩
  have unresumed := entrusted.unused k x hx (by simp [ResumeHandle.isUsed, phase])
  cases (List.any_eq_true.2 ⟨m, hm, resumes⟩).symm.trans unresumed

end Session

end Prompter

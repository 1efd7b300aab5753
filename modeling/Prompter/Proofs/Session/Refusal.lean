import Prompter.Proofs.Session.Finality
import Prompter.Proofs.Session.Handles
import Prompter.Proofs.Session.LateResume

/-!
# Prompter.Proofs.Session.Refusal

A request that is replied to with an error has done nothing.

`Refuses` says of each request when it cannot be met. Then it is refused at once, which leaves the
whole session as it was (`Refused`): nothing is on the agenda because of it, so that nobody is
called. Every other request, and everything that happens later, is `Clean`: it neither tells the
host of an error nor leaves one to be told.
-/

namespace Prompter

/-- Whether a reply tells the host of an error. -/
def Reply.isError : Reply → Bool
  | .failed _ | .refused _ => true
  | _ => false

/-- Whether the host is told of an error. -/
def Output.isError : Output → Bool
  | .reply r => r.isError
  | _ => false

/-- Whether the host will be told of an error. -/
def Item.isError : Item → Bool
  | .reply r => r.isError
  | _ => false

namespace Session

variable {allowed : Session → History → Call → Prop} {s₀ s s' : Session} {h : History} {m : Mark}

/-! ### Requests that cannot be met -/

/-- Why a dialogue cannot start at a node. -/
def CannotStart (s : Session) (node : String) : Prop :=
  s.dialogue.views = [] ∨ s.storage = none ∨ s.dialogue.running = true ∨ s.hasNode node = false

/-- Why an option of the offer with a serial number cannot be chosen. -/
def CannotChoose (s : Session) (serial : Nat) (id : OptionId) : Prop :=
  s.exists? = false ∨ ∀ offer, s.dialogue.offer = some offer → offer.serial = serial →
    ∀ o, offer.options.find? (·.id = id) = some o → o.available = false

/-- Whether a request cannot be met. -/
def Refuses (s : Session) : Call → Prop
  | .start node => ∀ node', node.or s.dialogue.settings.startNode = some node' → s.CannotStart node'
  | .proceed => s.dialogue.line = none
  | .select serial id => s.CannotChoose serial id
  | .place node => ∃ e, s.engine = .script e ∧ e.hasNode node = false
  | .register name _ => s.commands.handlers.handlers.contains name = true
  | .addFunction name _ => s.functions.functions.contains name = true
  | .setVariable name _ => s.storage.isSome = true ∧ Variables.isName name = false
  | _ => False

/-- A request is answered with an error, and that is all. -/
def Refused (s : Session) (p : Progress) : Prop :=
  p.1 = s ∧ ∃ rs r, r.isError = true ∧ p.2 = remarks rs ++ [.reply r]

/-- The host is not told of an error, and none is left to be told. -/
structure Clean (p : Progress) : Prop where
  outputs : ∀ o ∈ p.2, o.isError = false
  agenda : ∀ i ∈ p.1.agenda, i.isError = false

/-- What comes out of a session when something happens. -/
def yields (s : Session) : Mark → List Output
  | .call c => (s.call c).2
  | .answer x => (s.answer x).2
  | .did _ => s.step.2

/-! ### Whatever is done -/

section

theorem isError_remarks (rs : List Remark) : ∀ o ∈ remarks rs, o.isError = false := by
  intro o ho
  obtain ⟨r, -, rfl⟩ := List.mem_map.1 ho
  rfl

/-- Items are put on a clean agenda, and remarks are made. -/
theorem Clean.of_items (clean : ∀ i ∈ s.agenda, i.isError = false) (items : List Item)
    (fine : ∀ i ∈ items, i.isError = false) {outputs : List Output}
    (agenda : s'.agenda = items ++ s.agenda) (out : ∀ o ∈ outputs, o.isError = false) :
    Clean (s', outputs) where
  outputs := out
  agenda := by
    rw [agenda]
    exact List.forall_mem_append.2 ⟨fine, clean⟩

attribute [local simp] Item.isError Output.isError Reply.isError

variable {p : Progress}

theorem Chooses.clean {id : OptionId} (chooses : Chooses s id p)
    (clean : ∀ i ∈ s.agenda, i.isError = false) : Clean p := by
  cases chooses with
  | nobody => exact .of_items clean [] (by simp) rfl (by simp)
  | script => exact .of_items clean [] (by simp) rfl (isError_remarks _)
  | host => exact .of_items clean [_] (by simp) rfl (by simp)

theorem Concludes.clean {r : Reporter} {x : NextAction} (concludes : Concludes s r x p)
    (clean : ∀ i ∈ s.agenda, i.isError = false) : Clean p := by
  cases concludes with
  | host | nobody => exact .of_items clean [] (by simp) rfl (by simp)
  | engine => exact .of_items clean [.turn] (by simp) rfl (by simp)

theorem Unpauses.clean {k : Nat} (unpauses : Unpauses s k p)
    (clean : ∀ i ∈ s.agenda, i.isError = false) : Clean p := by
  cases unpauses with
  | unknown => exact .of_items clean [] (by simp) rfl (by simp)
  | resumed =>
    exact .of_items clean _ (forall_mem_resumption (fun _ => rfl) _) rfl (isError_remarks _)

theorem Spawns.clean {k : Nat} (spawns : Spawns s k p)
    (clean : ∀ i ∈ s.agenda, i.isError = false) : Clean p := by
  cases spawns with
  | spawned => exact .of_items clean [] (by simp) rfl (by simp)
  | resumes _ unpauses more =>
    obtain ⟨out, agenda⟩ := unpauses.clean clean
    exact ⟨List.forall_mem_append.2 ⟨isError_remarks more, out⟩, agenda⟩

theorem Dispatches.clean {c : Command} {k : Nat → Continuation} {use : OutcomeUse}
    (dispatches : Dispatches s c k use p) (clean : ∀ i ∈ s.agenda, i.isError = false) :
    Clean p := by
  cases dispatches with
  | handler | pausingHandler | method | refused | unhandled | unheard =>
    exact .of_items clean _ (by simp) rfl (isError_remarks _)
  | pausingMethod => exact .of_items clean _ (by split <;> simp) rfl (isError_remarks _)

/-- Whatever comes of an item that is no error, it brings none. -/
theorem Works.clean {i : Item} (works : Works s i p) (clean : ∀ i ∈ s.agenda, i.isError = false)
    (fine : i.isError = false) : Clean p := by
  cases works with
  | idle => exact .of_items clean [] (by simp) rfl (isError_remarks _)
  | tell | continueHost | dialogueEnd | callNext | resumeHost | stale | commandDone =>
    exact .of_items clean _ (by simp) rfl (by simp)
  | reply r => exact .of_items clean [] (by simp) rfl (List.forall_mem_singleton.2 fine)
  | turn =>
    refine .of_items clean _ ?_ rfl (isError_remarks _)
    unfold requested
    split <;> simp
  | continueScript => exact .of_items clean _ (by split <;> simp) rfl (by simp)
  | chooseOption n chooses => exact chooses.clean clean
  | line | present | immediate | waiting | afterCall =>
    exact .of_items clean _ (by simp) rfl (isError_remarks _)
  | options | nodeStart | nodeEnd | closeLine =>
    exact .of_items clean _ (forall_mem_tellViews_append (fun _ => rfl) (by simp))
      rfl (isError_remarks _)
  | command dispatches => exact dispatches.clean clean
  | conclude concludes | outcomeOf k concludes => exact concludes.clean clean
  | lineShown =>
    have leased : ∀ i ∈ (s.push [.lease]).agenda, i.isError = false :=
      List.forall_mem_cons.2 ⟨rfl, clean⟩
    refine .of_items leased _ (forall_mem_tellViews_append (fun _ => rfl) ?_) rfl
      (isError_remarks _)
    split <;> simp
  | lineGone => exact .of_items clean [_, .lease] (by simp) rfl (by simp)
  | finish =>
    exact .of_items clean _ (forall_mem_tellViews fun _ => rfl) rfl (isError_remarks _)
  | resumeWhenDone spawns => exact spawns.clean clean
  | outcome => exact .of_items clean [] (by simp) rfl (by simp)

variable (s)

theorem answer_clean (clean : ∀ i ∈ s.agenda, i.isError = false) (x : Answer) :
    Clean (s.answer x) := by
  unfold answer
  split
  · next agenda =>
    rw [agenda] at clean
    exact ⟨by simp, (List.forall_mem_cons.1 clean).2⟩
  · next rest x agenda =>
    rw [agenda] at clean
    exact (conclude_concludes { s with agenda := rest } _ x).clean (List.forall_mem_cons.1 clean).2
  · next rest v agenda =>
    rw [agenda] at clean
    refine ⟨by simp, ?_⟩
    rw [show (mapEngine _ _).agenda = _ from congrArg Ledger.agenda (mapEngine_ledger _)]
    exact List.forall_mem_cons.2 ⟨rfl, (List.forall_mem_cons.1 clean).2⟩
  · next agenda =>
    rw [agenda] at clean
    exact ⟨by simp [Output.isError, Reply.isError], (List.forall_mem_cons.1 clean).2⟩
  · exact ⟨by simp, clean⟩

/-! ### Whatever is requested -/

theorem startError?_eq_none {node : String} : s.dialogue.startError? s.storage.isSome
    (s.hasNode node) node = none ↔ ¬ s.CannotStart node := by
  rw [Dialogue.startError?_eq_none, CannotStart]
  cases s.storage <;> cases s.dialogue.running <;> cases s.hasNode node <;> simp

variable {s} in
/-- An option that can be chosen is one of the offer, and available. -/
theorem not_cannotChoose {n : Nat} {id : OptionId} {d : Dialogue} {o : LocalizedOption}
    (here : s.exists? = true) (chooses : s.dialogue.choose n id = .ok (d, o)) :
    ¬ s.CannotChoose n id := by
  obtain ⟨offer, opened, serial, found, on, -⟩ := Dialogue.choose_eq_ok.1 chooses
  rintro (gone | unavailable)
  · cases here.symm.trans gone
  · cases on.symm.trans (unavailable offer opened serial o found)

theorem cannotChoose_of_error {n : Nat} {id : OptionId} {e : DialogueError}
    (refuses : s.dialogue.choose n id = .error e) : s.CannotChoose n id := by
  refine .inr fun offer opened serial o found => ?_
  cases on : o.available with
  | false => rfl
  | true =>
    cases refuses.symm.trans (Dialogue.choose_eq_ok.2 ⟨offer, opened, serial, found, on, rfl⟩)

/-- A request that cannot be met is refused. -/
theorem call_refused {c : Call} (refuses : s.Refuses c) : s.Refused (s.call c) := by
  have refused {r : Reply} (error : r.isError = true) (rs : List Remark) :
      s.Refused (s, remarks rs ++ [.reply r]) := ⟨rfl, rs, r, error, rfl⟩
  have requests := s.call_requests c
  generalize s.call c = p at requests ⊢
  cases requests with
  | declined declines =>
    cases declines with
    | unnamed | vanished | place => exact refused rfl []
    | unstartable | proceed | select | register | addFunction => exact refused rfl _
    | setVariable => exact refused rfl []
    | unplaced named can => exact absurd (refuses _ named) (s.startError?_eq_none.1 can)
    | ignored ignores =>
      have gone : s.dialogue.line = none := refuses
      simp [Dialogue.proceed?, gone] at ignores
    | unseated concerns other =>
      obtain rfl | rfl | ⟨node, rfl⟩ | ⟨l, rfl⟩ | ⟨key, rfl⟩ := concerns
      case inr.inr.inl =>
        obtain ⟨e, seat, -⟩ := refuses
        exact absurd seat (other e)
      all_goals exact refuses.elim
    | unstored nowhere => simp [Refuses, nowhere] at refuses
    | _ => exact refuses.elim
  | start named can => exact absurd (refuses _ named) (s.startError?_eq_none.1 can)
  | interrupt proceeds | dismiss proceeds =>
    have gone : s.dialogue.line = none := refuses
    simp [Dialogue.proceed?, gone] at proceeds
  | select here chooses => exact absurd refuses (not_cannotChoose here chooses)
  | place seat placed =>
    obtain ⟨e, seat', unknown⟩ := refuses
    cases seat.symm.trans seat'
    cases unknown.symm.trans (Engine.place_eq_ok.1 placed).1
  | register takes =>
    have bound : _ = true := refuses
    simp [HandlerTable.register, bound] at takes
  | addFunction takes =>
    have bound : _ = true := refuses
    simp [FunctionTable.register, bound] at takes
  | setVariable stored sets =>
    obtain ⟨-, other⟩ := refuses
    simp [Variables.set, other] at sets
  | _ => exact refuses.elim

/-- Why a request that comes to nothing is replied to with an error, if it is. -/
theorem Declines.fine {s : Session} {e : Engine} (he : s.engine = .script e) {c : Call}
    {outputs : List Output} (declines : Declines s c outputs) (meets : ¬ s.Refuses c) :
    ∀ o ∈ outputs, o.isError = false := by
  have told (rs : List Remark) {r : Reply} (fine : r.isError = false) :
      ∀ o ∈ remarks rs ++ [.reply r], o.isError = false :=
    List.forall_mem_append.2 ⟨isError_remarks rs, List.forall_mem_singleton.2 fine⟩
  cases declines with
  | unnamed unnamed => simp [Refuses, unnamed] at meets
  | unstartable named cannot =>
    refine absurd (fun node named' => Classical.byContradiction fun can => ?_) meets
    cases named.symm.trans named'
    rw [s.startError?_eq_none.2 can] at cannot
    cases cannot
  | unplaced _ _ seat => cases he.symm.trans seat
  | stop | complete | unseated | detach | unstored => exact told [] rfl
  | ignored | function => exact told _ rfl
  | proceed nothing => exact absurd (Option.map_eq_none_iff.1 nothing) meets
  | vanished gone => exact absurd (.inl gone) meets
  | select refuses => exact absurd (s.cannotChoose_of_error refuses) meets
  | @place node e seat err refuses =>
    have known : e.hasNode node = true := by simpa [Refuses, seat] using meets
    cases refuses.symm.trans (Engine.place_eq_ok.2 ⟨known, rfl⟩)
  | register refuses =>
    have free : _ = false := Bool.not_eq_true _ ▸ meets
    simp [HandlerTable.register, free] at refuses
  | addFunction refuses =>
    have free : _ = false := Bool.not_eq_true _ ▸ meets
    simp [FunctionTable.register, free] at refuses
  | @setVariable name v vs stored err refuses =>
    have named : Variables.isName name = true := by simpa [Refuses, stored] using meets
    simp [Variables.set, named] at refuses

/-- Any other request is accepted. -/
theorem call_clean {e : Engine} (he : s.engine = .script e)
    (clean : ∀ i ∈ s.agenda, i.isError = false) {c : Call} (meets : ¬ s.Refuses c) :
    Clean (s.call c) := by
  have owed : ∀ i ∈ (s.push [.reply .done]).agenda, i.isError = false :=
    List.forall_mem_cons.2 ⟨rfl, clean⟩
  have done (rs : List Remark) : ∀ o ∈ remarks rs ++ [.reply .done], o.isError = false :=
    List.forall_mem_append.2 ⟨isError_remarks rs, List.forall_mem_singleton.2 rfl⟩
  have requests := s.call_requests c
  generalize s.call c = p at requests ⊢
  cases requests with
  | declined declines => exact .of_items clean [] (by simp) rfl (declines.fine he meets)
  | start named can places rs =>
    have told : ∀ o ∈ remarks rs, o.isError = false := isError_remarks rs
    refine .of_items clean _ ?_ rfl ?_
    · exact forall_mem_tellViews_append (fun _ => rfl) (by simp)
    · cases places with
      | script => exact told
      | host => exact List.forall_mem_append.2 ⟨by simp, told⟩
  | stopEmpty | stopHost | deliver | continueEngine =>
    exact .of_items clean _ (by simp) rfl (by simp)
  | stopScript | function => exact .of_items clean _ (by simp) rfl (isError_remarks _)
  | interrupt =>
    exact .of_items clean _ (forall_mem_tellViews_append (fun _ => rfl) (by simp))
      rfl (isError_remarks _)
  | dismiss =>
    refine .of_items clean _ ?_ rfl (isError_remarks _)
    simp only [dismissal, List.forall_mem_append]
    exact ⟨⟨forall_mem_tellViews fun _ => rfl, by simp⟩, by simp⟩
  | select =>
    refine .of_items clean _ ?_ rfl (isError_remarks _)
    split <;> simp
  | complete =>
    refine .of_items clean _ (List.forall_mem_append.2 ⟨?_, by simp⟩) rfl (isError_remarks _)
    exact forall_mem_resumption (fun _ => rfl) _
  | resume unpauses => exact unpauses.clean owed
  | resumeWhenDone spawns => exact spawns.clean owed
  | dispatch dispatches => exact dispatches.clean (List.forall_mem_cons.2 ⟨rfl, clean⟩)
  | chooseOption chooses => exact chooses.clean owed
  | stopEngine | register | unregister | addFunction =>
    exact .of_items clean [] (by simp) rfl (done _)
  | place | bind | attach | detach | release | listen | removeFunction | setVariable
  | clearVariables | resolveWith => exact .of_items clean [] (by simp) rfl (done [])

end

/-! ### Every run -/

/-- The engine that runs a script stays in its seat. -/
theorem Run.script {e₀ : Engine} (he : s₀.engine = .script e₀) (r : Run allowed s₀ s h) :
    ∃ e, s.engine = .script e := by
  obtain ⟨e, he, -⟩ := r.engine_events (motive := fun _ _ => True) (fun _ _ => trivial)
    (fun _ _ _ => trivial) (fun _ _ _ _ => trivial) he trivial
  exact ⟨e, he⟩

/-- Whatever happens, no error is left to be told, and one is told only by a request that cannot be
met. -/
theorem Happens.clean {e : Engine} (he : s.engine = .script e)
    (clean : ∀ i ∈ s.agenda, i.isError = false) (happens : Happens s m s') :
    (∀ i ∈ s'.agenda, i.isError = false) ∧
      ∀ o ∈ s.yields m, o.isError = true → ∃ c, m = .call c ∧ s.Refuses c := by
  have done {p : Progress} (fine : Clean p) : (∀ i ∈ p.1.agenda, i.isError = false) ∧
      ∀ o ∈ p.2, o.isError = true → ∃ c, m = .call c ∧ s.Refuses c :=
    ⟨fine.agenda, fun o ho error => Bool.noConfusion ((fine.outputs o ho).symm.trans error)⟩
  cases happens with
  | @work busy i rest top =>
    have fine : Clean s.step := by
      rw [step_eq_work busy top]
      rw [top] at clean
      exact (work_works { s with agenda := rest } i).clean (List.forall_mem_cons.1 clean).2
        (List.forall_mem_cons.1 clean).1
    exact done fine
  | answer x => exact done (s.answer_clean clean x)
  | call word c =>
    by_cases refuses : s.Refuses c
    · obtain ⟨same, -⟩ := s.call_refused refuses
      rw [same]
      exact ⟨clean, fun _ _ _ => ⟨c, rfl, refuses⟩⟩
    · exact done (s.call_clean he clean refuses)

/-- What has been proved of errors along a history. -/
structure Traceless (s₀ : Session) (h : History) : Prop where
  /-- An error is the immediate reply to a request that cannot be met. -/
  immediate : ∀ newer m older, h = newer ++ m :: older →
    ∀ o ∈ (after s₀ older).yields m, o.isError = true →
      ∃ c, m = .call c ∧ (after s₀ older).Refuses c
  /-- Every such request is replied to with an error. -/
  refused : ∀ newer c older, h = newer ++ .call c :: older → (after s₀ older).Refuses c →
    ∃ o ∈ (after s₀ older).yields (.call c), o.isError = true
  /-- A request that is replied to with an error leaves the session as it was, and nothing comes out
  but remarks and the error. -/
  unchanged : ∀ newer c older, h = newer ++ .call c :: older →
    (∃ o ∈ (after s₀ older).yields (.call c), o.isError = true) →
      after s₀ (.call c :: older) = after s₀ older ∧
        ∃ rs r, (after s₀ older).yields (.call c) = remarks rs ++ [.reply r]

/-- In every run over an engine that runs a script, errors leave no trace. -/
theorem run_traceless {e₀ : Engine} (he : s₀.engine = .script e₀) (idle : s₀.agenda = [])
    (r : Run allowed s₀ s h) : Traceless s₀ h := by
  have clean {s : Session} {h : History} (r : Run allowed s₀ s h) :
      ∀ i ∈ s.agenda, i.isError = false := by
    induction h generalizing s with
    | nil =>
      cases r
      simp [idle]
    | cons m h ih =>
      obtain ⟨s', r', happens⟩ := r.last
      obtain ⟨e, he⟩ := r'.script he
      exact (happens.clean he (ih r')).1
  have immediate (newer : History) (m : Mark) (older : History) (parts : h = newer ++ m :: older) :
      ∀ o ∈ (after s₀ older).yields m, o.isError = true →
        ∃ c, m = .call c ∧ (after s₀ older).Refuses c := by
    subst parts
    obtain ⟨s₂, r₂⟩ := r.earlier
    obtain ⟨s₁, r₁, happens⟩ := r₂.last
    obtain ⟨e, he⟩ := r₁.script he
    rw [r₁.after_eq]
    exact (happens.clean he (clean r₁)).2
  refine ⟨immediate, ?_, ?_⟩
  · rintro newer c older - refuses
    obtain ⟨-, rs, r, error, out⟩ := call_refused _ refuses
    exact ⟨.reply r, by simp [yields, out], error⟩
  · rintro newer c older parts ⟨o, ho, error⟩
    obtain ⟨c', same, refuses⟩ := immediate newer (.call c) older parts o ho error
    cases same
    obtain ⟨same, rs, r, -, out⟩ := call_refused _ refuses
    exact ⟨same, rs, r, out⟩

/-- While a command is being called, the host makes six requests that cannot be met. -/
theorem traceless_of_holdThenLine :
    ∃ e s h, holdThenLine.engine = .script e ∧ holdThenLine.agenda = [] ∧
      Run (fun _ _ _ => True) holdThenLine s h ∧ s.dialogue.running = true ∧
      (h.take 6).length = 6 ∧ (∀ m ∈ h.take 6, ∃ c, m = .call c ∧ s.Refuses c) ∧
      Traceless holdThenLine h := by
  have r : Run (fun _ _ _ => True) holdThenLine holdThenLine [] := .refl
  have r := (r.call rfl (.start (some "Start")) trivial).works 9
  have r := ((r.answer .heard rfl).works 9).answer .heard rfl
  have r := r.works 9
  have r := r.call rfl (.start (some "Start")) trivial
  have r := r.call rfl .proceed trivial
  have r := r.call rfl (.select 1 0) trivial
  have r := r.call rfl (.place "Nowhere") trivial
  have r := r.call rfl (.register "hold" ⟨[], false, 3⟩) trivial
  have r := r.call rfl (.setVariable "x" (.bool true)) trivial
  refine ⟨_, _, _, rfl, rfl, r, rfl, rfl, ?_, run_traceless rfl rfl r⟩
  intro m hm
  simp only [List.take_succ_cons, List.take_zero, List.mem_cons, List.not_mem_nil, or_false] at hm
  rcases hm with rfl | rfl | rfl | rfl | rfl | rfl
  · exact ⟨_, rfl, rfl, rfl⟩
  · exact ⟨_, rfl, rfl⟩
  · exact ⟨_, rfl, _, rfl, rfl⟩
  · exact ⟨_, rfl, .inr nofun⟩
  · exact ⟨_, rfl, rfl⟩
  · exact ⟨_, rfl, fun _ _ => .inr (.inr (.inl rfl))⟩

end Session

end Prompter

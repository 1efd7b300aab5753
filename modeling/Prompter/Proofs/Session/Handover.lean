import Prompter.Proofs.Session.Baton

/-!
# Prompter.Proofs.Session.Handover

How the engine hands on what keeps the dialogue going, and how it gets it back.

The engine takes its turns, goes on after a line, a choice or a command, and is told what was
chosen. What it reports is heard, and answered at the end of what comes of the event. The host
starts the dialogue and makes the choices. Each of these keeps the baton.
-/

namespace Prompter

namespace Session

open Engine (Use Turned)

variable {s : Session} {h : History} {e e' : Engine} {rest items : List Item} {i : Item}

/-! ### The engine goes on -/

/-- An engine that goes on by itself has no choice to make. -/
theorem Baton.decided (b : Baton s h e) (top : s.agenda = .turn :: rest)
    (goesOn : e.phase.goesOn = true) : e.isUndecided = false := by
  have total := b.total
  have choice := b.choice
  have one := Bool.toNat_le s.dialogue.running
  rw [stake, booked, Engine.stake, goesOn, Bool.toNat_true] at total
  have none : s.agenda.countP Item.isChoice = 0 := by
    refine List.countP_eq_zero.2 fun i hi choice => ?_
    rw [top] at hi
    unfold Item.isChoice at choice
    split at choice
    · next set =>
      have pos := stake_le_owing (top ▸ hi)
      rw [show (Item.hear .engine (.options set)).stake = 1 from rfl] at pos
      omega
    · next n id =>
      rcases List.mem_cons.1 hi with same | hi
      · cases same
      · exact b.front n id (by rw [top]; exact hi)
    · cases choice
  rw [none] at choice
  have offer : s.dialogue.offer.isSome.toNat = 0 := by omega
  rw [offer] at choice
  cases hu : e.isUndecided with
  | false => rfl
  | true =>
    rw [hu] at choice
    cases choice

/-- A turn asks for one thing at most, and puts a report of its own on the agenda. -/
theorem requested_of_turned {r : Engine.Request} (t : Turned .dialogue e e' r) :
    owing (requested r) = r.stake ∧ (requested r).countP Item.isChoice = r.offers.toNat ∧
      (requested r).tail = [] ∧ ∀ i ∈ requested r, i.ofEngine = true := by
  have reported (event : Event) :
      (requested (.report .dialogue event)).countP Item.isChoice =
        (Engine.Request.report .dialogue event).offers.toNat := by
    cases event <;> rfl
  cases t with
  | depart | begin | report | offer | closed =>
    exact ⟨rfl, reported _, rfl, List.forall_mem_singleton.2 rfl⟩
  | done p index r quiet =>
    rcases quiet with rfl | ⟨_, _, rfl⟩
    all_goals exact ⟨rfl, rfl, rfl, List.forall_mem_singleton.2 rfl⟩
  | pause | halt | still => exact ⟨rfl, rfl, rfl, nofun⟩
  | _ => exact ⟨rfl, rfl, rfl, List.forall_mem_singleton.2 rfl⟩

theorem Baton.turn (b : Baton s h e) (top : s.agenda = .turn :: rest) :
    ∃ e', Baton (Session.turn { s with agenda := rest }).1 (.did .turn :: h) e' := by
  obtain ⟨turns, clean⟩ := Expects.of_turn (top ▸ b.expects)
  have running : s.dialogue.running = true := by
    refine b.started fun idle => ?_
    rw [idle] at turns
    cases turns
  have node : e.node.isSome = true := by
    refine (b.inside running).resolve_right fun phase => ?_
    rw [phase] at turns
    cases turns
  have decided := b.decided top
  have one : e.stake ≤ 1 := by
    have total := b.total
    have one := Bool.toNat_le s.dialogue.running
    rw [stake] at total
    omega
  have hl := listener_surroundings (s := { s with agenda := rest }) b.held b.coherent.listener
  have t := turned_of_engages b.coherent hl
  have leaves := Engine.leaves_of_turn t turns (fun _ => node) decided
  obtain ⟨storage, shape⟩ := turn_shape (s := { s with agenda := rest }) b.engine
  rw [shape]
  generalize e.turn (Session.surroundings { s with agenda := rest } e) = turned at *
  obtain ⟨owed, choices, single, parts⟩ := requested_of_turned t
  refine ⟨turned.1, b.steered _ top (top ▸ .did .turn rest) rfl rfl rfl rfl (t.coherent b.coherent)
    rfl
    (expects_of_leaves t leaves clean) ?_ (fun _ => running) (fun _ => t.inside node) ?_ ?_ ?_⟩
  · rw [owed, Nat.add_comm, t.stake one (fun _ => node) decided]
    exact (Nat.zero_add _).symm
  · rw [choices]
    exact t.isUndecided leaves decided
  · rw [single]
    exact fun _ _ => List.not_mem_nil
  · exact fun i hi => .inr (.inr (.inl (parts i hi)))

/-- An engine that others ask to go on does not do so by itself. -/
theorem Baton.stake_eq_zero (b : Baton s h e) (top : s.agenda = i :: rest) (one : i.stake = 1) :
    s.dialogue.running = true ∧ s.booked = 0 ∧ owing rest = 0 ∧ e.stake = 0 := by
  have total := b.total
  have le := Bool.toNat_le s.dialogue.running
  rw [stake, top, owing_cons, one] at total
  refine ⟨?_, by omega, by omega, by omega⟩
  cases running : s.dialogue.running with
  | true => rfl
  | false =>
    rw [running, Bool.toNat_false] at total
    omega

theorem Baton.continueEngine {c : Cause} (b : Baton s h e)
    (top : s.agenda = .continueEngine c :: rest) :
    ∃ e', Baton (Session.continueEngine { s with agenda := rest }).1
      (.did (.continueEngine c) :: h) e' := by
  obtain ⟨running, -, -, zero⟩ := b.stake_eq_zero top rfl
  have takes : Takes (.did (.continueEngine c)) s.agenda rest := top ▸ .did _ rest
  have expects : Expects e rest := b.expects.congr (by simp [top]) (by rw [top]; rfl)
  rcases b.expects.phase_cases (by simp [top]) with ⟨phase, -⟩ | ⟨use, phase⟩ | ⟨_, _, phase⟩
  · have clean : rest.filter Item.ofEngine = [] := by
      unfold Expects at expects
      rw [phase] at expects
      exact expects.1
    have coherent := b.coherent.continue? (.inl phase)
    rw [e.continue?_of_idle phase] at coherent
    simp only [Session.continueEngine, b.engine, e.continue?_of_idle phase, if_true]
    refine ⟨_, b.steered [.turn] top takes rfl rfl rfl rfl coherent rfl
      (expects_of_turns rfl clean) ?_ (fun _ => running) (fun running => ?_) rfl ?_ ?_⟩
    · rw [zero]
      rfl
    · refine .inl ((b.inside running).resolve_right fun reported => ?_)
      rw [phase] at reported
      cases reported
    · exact fun _ _ => List.not_mem_nil
    · exact List.forall_mem_singleton.2 (.inr (.inr (.inl rfl)))
  · have coherent := b.coherent.continue? (.inr ⟨use, phase⟩)
    rw [e.continue?_of_reported phase] at coherent
    simp only [Session.continueEngine, b.engine, e.continue?_of_reported phase, Bool.false_eq_true,
      if_false]
    refine ⟨_, b.steered [] top takes rfl rfl rfl rfl coherent rfl ?_ ?_ b.started b.inside
      rfl (fun _ _ => List.not_mem_nil) (List.forall_mem_nil _)⟩
    · unfold Expects at expects ⊢
      rw [phase] at expects
      simp only [phase]
      exact expects
    · rw [zero]
      simp only [Engine.stake, Engine.Phase.goesOn, phase]
      rfl
  · rw [Engine.stake, phase, Engine.Phase.goesOn, Bool.toNat_true] at zero
    omega

theorem Baton.chooseOption {n : Nat} {id : OptionId} (b : Baton s h e)
    (top : s.agenda = .chooseOption n id :: rest) :
    ∃ e', Baton (Session.chooseOption { s with agenda := rest } id).1
      (.did (.chooseOption n id) :: h) e' := by
  have undecided : e.isUndecided = true := by
    have choice := b.choice
    rw [top, List.countP_cons, if_pos (show Item.isChoice (.chooseOption n id) = true from rfl)]
      at choice
    cases hu : e.isUndecided with
    | true => rfl
    | false =>
      rw [hu, Bool.toNat_false] at choice
      omega
  have chosen : e.choose id = ({ e with selected := some id }, []) := by
    simp only [Engine.isUndecided, Bool.and_eq_true] at undecided
    rw [Engine.choose, if_pos undecided.1]
  have coherent := b.coherent.choose id
  rw [chosen] at coherent
  simp only [Session.chooseOption, b.engine, chosen]
  refine ⟨_, b.steered [] top (top ▸ .did _ rest) rfl rfl rfl rfl coherent rfl ?_ ?_
    b.started b.inside ?_ (fun _ _ => List.not_mem_nil) (List.forall_mem_nil _)⟩
  · exact b.expects.congr (by simp [top]) (by rw [top]; rfl)
  · exact rfl
  · rw [undecided]
    simp [Engine.isUndecided, Item.isChoice]

/-! ### An event is answered -/

theorem expects_answer {use : Use} (phase : e.phase = .reported use) (awaits : use.awaits i = true)
    (others : ∀ j ∈ items, j.ofEngine = false) (clean : rest.filter Item.ofEngine = []) :
    Expects e (items ++ [i] ++ rest) := by
  unfold Expects
  rw [phase]
  refine ⟨i, ?_, awaits⟩
  simp only [List.filter_append, filter_of_others others, clean,
    List.filter_cons_of_pos (ofEngine_of_awaits awaits), List.filter_nil, List.nil_append,
    List.append_nil]

theorem not_choice_of_outside (outside : ∀ j ∈ items, j.isOutside = true) :
    items.countP Item.isChoice = 0 :=
  List.countP_eq_zero.2 fun j hj => by simp [isChoice_of_isOutside (outside j hj)]

theorem front_of_outside (outside : ∀ j ∈ items, j.isOutside = true) (awaits : i.isChoice = false)
    (n : Nat) (id : OptionId) : .chooseOption n id ∉ (items ++ [i]).tail := by
  intro hm
  rcases List.mem_append.1 (List.mem_of_mem_tail hm) with hm | hm
  · cases outside _ hm
  · cases List.mem_singleton.1 hm
    cases awaits

theorem regular_of_outside {hs : List (ResumeHandle Continuation)}
    (outside : ∀ j ∈ items, j.isOutside = true) (part : i.ofEngine = true) :
    ∀ j ∈ items ++ [i], Regular hs j :=
  List.forall_mem_append.2 ⟨fun j hj => .inl (outside j hj),
    List.forall_mem_singleton.2 (.inr (.inr (.inl part)))⟩

/-- A part of an answer is done, which leads to the next part and does not touch the books. -/
theorem Baton.answering {use : Use} (b : Baton s h e) (items : List Item) (i' : Item)
    (top : s.agenda = i :: rest) (phase : e.phase = .reported use)
    (clean : rest.filter Item.ofEngine = []) (awaits : use.awaits i' = true)
    (outside : ∀ j ∈ items, j.isOutside = true)
    (handed : owing items + i'.stake = i.stake) (plain : i.isChoice = false)
    (plain' : i'.isChoice = false) :
    Baton { s with agenda := items ++ [i'] ++ rest } (.did i :: h) e := by
  refine b.steered (items ++ [i']) top (top ▸ .did i rest) rfl rfl rfl b.engine b.coherent rfl
    (expects_answer phase awaits (fun j hj => ofEngine_of_isOutside (outside j hj)) clean) ?_
    b.started b.inside ?_ (front_of_outside outside plain')
    (regular_of_outside outside (ofEngine_of_awaits awaits))
  · rw [owing_append, owing_cons, owing_nil, ← handed]
    rfl
  · rw [List.countP_append, not_choice_of_outside outside, List.countP_cons, plain, plain']
    rfl

theorem awaits_hear {use : Use} {event : Event} :
    use.awaits (.hear .engine event) = use.takes event := by
  cases use <;> rfl

/-- Options are heard, and offered. -/
theorem Baton.hear_options {set : OptionSet} (b : Baton s h e)
    (top : s.agenda = .hear .engine (.options set) :: rest) :
    Baton (Session.hear { s with agenda := rest } .engine (.options set)).1
      (.did (.hear .engine (.options set)) :: h) e := by
  obtain ⟨use, phase, awaits, clean⟩ := Expects.of_answers (top ▸ b.expects) rfl
  obtain ⟨running, booked, owed, zero⟩ := b.stake_eq_zero top rfl
  obtain rfl : use = .choice := by
    rw [awaits_hear] at awaits
    cases use <;> first | rfl | cases awaits
  simp only [Session.booked, Nat.add_eq_zero_iff] at booked
  obtain ⟨⟨line, offer⟩, holds⟩ := booked
  rw [toNat_isSome_eq_zero] at line
  have choice := b.choice
  rw [top, List.countP_cons, offer,
    if_pos (show Item.isChoice (.hear .engine (.options set)) = true from rfl)] at choice
  have tells := outside_tellViews s
  -- a new offer is all that the books have now
  let d := Dialogue.openOffer { s.dialogue with
    barrier := ⟨s.dialogue.barrier.generation + 1, [], none⟩ }
      (s.dialogue.localizeOptions set.options).1
  let told := s.tellViews (.offerOptions (s.dialogue.localizeOptions set.options).1 d.offerSerial)
  have shape : (Session.hear { s with agenda := rest } .engine (.options set)).1 =
      { s with dialogue := d, agenda := told ++ [.conclude .engine .wait] ++ rest } := rfl
  rw [shape]
  refine b.moved _ (top ▸ .did _ rest)
    ⟨rfl, fun _ => ⟨rfl, .inl line⟩, (fun _ hk => by cases hk), fun _ x hx => ⟨x, hx, rfl⟩,
      fun _ x hx hold => .inl ⟨x, hx, hold⟩⟩
    b.engine b.coherent rfl
    (expects_answer phase rfl (fun j hj => ofEngine_of_isOutside (tells _ j hj)) clean) ?_
    b.started b.inside ?_ (front_of_outside (tells _) rfl) (regular_of_outside (tells _) rfl)
  · rw [owing_append, owing_tellViews, owed, zero, show d.running = true from running]
    exact congrArg (0 + 1 + ·) holds
  · rw [List.countP_append, not_choice_of_outside (tells _), choice]
    simp [d, Dialogue.openOffer, Item.isChoice]
    omega

/-- A command is heard, and dispatched. -/
theorem Baton.hear_command {c : Command} (b : Baton s h e)
    (top : s.agenda = .hear .engine (.command c) :: rest) :
    Baton (Session.hear { s with agenda := rest } .engine (.command c)).1
      (.did (.hear .engine (.command c)) :: h) e := by
  obtain ⟨use, phase, awaits, clean⟩ := Expects.of_answers (top ▸ b.expects) rfl
  obtain ⟨running, booked, owed, zero⟩ := b.stake_eq_zero top rfl
  obtain rfl : use = .plain := by
    rw [awaits_hear] at awaits
    cases use <;> first | rfl | cases awaits
  cases hk : Session.handleFor { s with agenda := rest } c with
  | none =>
    obtain ⟨told, o, unpaused, tells, shape⟩ := dispatch_of_none _ c (.event .engine) hk
    have outside : ∀ i ∈ told, i.isOutside = true ∧ i.stake = 0 := by
      intro i hi
      obtain ⟨n, rfl, -⟩ := tells i hi
      exact ⟨rfl, rfl⟩
    have answered := b.answering told (.outcome none o (.event .engine)) top phase clean rfl
      (fun i hi => (outside i hi).1) ?_ rfl rfl
    · simp only [Session.hear, shape]
      rwa [List.append_assoc] at answered
    · rw [owing_eq_zero fun i hi => (outside i hi).2]
      simp [Item.stake, unpaused]
  | some k =>
    obtain ⟨rfl, n, name, task, -, tasks, shape⟩ :=
      dispatch_of_handle _ c .commandDone (.event .engine) hk
    have fresh : (ResumeHandle.fresh name (.commandDone s.handles.length)).holds = false := rfl
    have outside : ∀ i ∈ Item.tell n :: task, i.isOutside = true ∧ i.stake = 0 := by
      rw [List.forall_mem_cons]
      refine ⟨⟨rfl, rfl⟩, fun i hi => ?_⟩
      obtain rfl := tasks i hi
      exact ⟨rfl, rfl⟩
    simp only [Session.hear, shape]
    refine b.moved (.tell n :: task ++ [.afterCall name s.handles.length (.event .engine)])
      (top ▸ .did _ rest)
      ⟨rfl, fun none => ⟨rfl, .inl none⟩, fun _ hk => .inl hk, fun j x hx => ?_,
        fun j x hx hold => .inl ⟨x, ResumeHandle.getElem?_of_holds fresh hx hold, hold⟩⟩
      b.engine b.coherent (by simp) (expects_answer phase rfl
        (fun j hj => ofEngine_of_isOutside (outside j hj).1) clean) ?_
      b.started b.inside ?_ (front_of_outside (fun i hi => (outside i hi).1) rfl)
      (regular_of_outside (fun i hi => (outside i hi).1) rfl)
    · exact ⟨x, (List.getElem?_append_left (List.getElem?_eq_some_iff.1 hx).1).trans hx, rfl⟩
    · rw [owing_append, owing_eq_zero fun i hi => (outside i hi).2, owed, zero,
        show s.dialogue.running = true from running]
      have counted : (s.handles ++ [ResumeHandle.fresh name
          (Continuation.commandDone s.handles.length)]).countP ResumeHandle.holds =
          s.handles.countP ResumeHandle.holds := by
        rw [List.countP_append, List.countP_singleton, fresh]
        rfl
      unfold Session.booked at booked ⊢
      dsimp only at counted ⊢
      rw [counted, booked]
      rfl
    · have choice := b.choice
      rw [top, List.countP_cons, if_neg (by simp [Item.isChoice])] at choice
      rw [List.countP_append, not_choice_of_outside fun i hi => (outside i hi).1, choice]
      simp [Item.isChoice]

/-- Any event but the end of the dialogue is heard. -/
theorem Baton.hear {event : Event} (b : Baton s h e) (top : s.agenda = .hear .engine event :: rest)
    (ongoing : event ≠ .dialogueEnd) :
    Baton (Session.hear { s with agenda := rest } .engine event).1
      (.did (.hear .engine event) :: h) e := by
  obtain ⟨use, phase, awaits, clean⟩ := Expects.of_answers (top ▸ b.expects) rfl
  rw [awaits_hear] at awaits
  have tells := outside_tellViews s
  have told (n : ViewNotice) : owing (s.tellViews n) + (Item.conclude .engine .next).stake = 1 := by
    rw [owing_tellViews]
    rfl
  cases event with
  | options set => exact b.hear_options top
  | command c => exact b.hear_command top
  | dialogueEnd => exact absurd rfl ongoing
  | line l =>
    obtain rfl : use = .plain := by
      cases use <;> first | rfl | cases awaits
    exact b.answering [.present _ none] (.conclude .engine .wait) top phase clean
      rfl (by simp [Item.isOutside]) rfl rfl rfl
  | nodeStart node =>
    obtain rfl : use = .plain := by
      cases use <;> first | rfl | cases awaits
    exact b.answering _ (.conclude .engine .next) top phase clean rfl (tells _) (told _) rfl rfl
  | nodeEnd node =>
    refine b.answering _ (.conclude .engine .next) top phase clean ?_ (tells _) (told _) rfl rfl
    cases use <;> first | rfl | cases awaits

/-- A command has returned, and it is seen whether it has paused. -/
theorem Baton.afterCall {name : String} {k : Nat} {x : ResumeHandle Continuation}
    (b : Baton s h e) (top : s.agenda = .afterCall name k (.event .engine) :: rest)
    (hx : s.handles[k]? = some x) (own : x.continuation = .commandDone k) :
    Baton (Session.afterCall { s with agenda := rest } name k (.event .engine)).1
      (.did (.afterCall name k (.event .engine)) :: h) e := by
  obtain ⟨use, phase, awaits, clean⟩ := Expects.of_answers (top ▸ b.expects) rfl
  obtain ⟨running, booked, owed, zero⟩ := b.stake_eq_zero top rfl
  obtain rfl : use = .plain := by cases use <;> first | rfl | cases awaits
  have holds (y : ResumeHandle Continuation) (same : y.continuation = x.continuation) :
      y.holds = (y.phase = .armed : Bool) := by
    rw [ResumeHandle.holds, same, own]
    exact Bool.and_true _
  have unheld : x.holds = false := by
    cases hold : x.holds with
    | false => rfl
    | true =>
      have pos : 0 < s.handles.countP ResumeHandle.holds :=
        List.countP_pos_iff.2 ⟨x, List.mem_of_getElem? hx, hold⟩
      rw [Session.booked] at booked
      omega
  -- the script waits for the command exactly if its handle is armed now
  have waits : x.arm.2 = x.arm.1.holds := by
    rw [holds x rfl] at unheld
    rw [holds _ x.arm_continuation]
    unfold ResumeHandle.arm
    cases hp : x.phase <;> simp [hp] at unheld ⊢
  have shape : (Session.afterCall { s with agenda := rest } name k (.event .engine)).1 = { s with
      handles := s.handles.set k x.arm.1
      agenda := [] ++ [.outcome (some k) (if x.arm.2 then .pause else .done) (.event .engine)] ++
        rest } := by
    simp only [Session.afterCall, hx]
    cases x.arm.2 <;> rfl
  have counted := countP_holds_set hx x.arm.1
  rw [shape]
  refine b.moved _ (top ▸ .did _ rest) ⟨rfl, fun none => ⟨rfl, .inl none⟩, fun _ hk => .inl hk,
    fun j z hz => ?_, fun j z hz hold => ?_⟩ b.engine b.coherent rfl
    (expects_answer phase rfl (by simp) clean) ?_ b.started b.inside ?_
    (front_of_outside (by simp) rfl)
    (regular_of_outside (by simp) rfl)
  · by_cases hj : k = j
    · subst hj
      obtain rfl := Option.some.inj (hx.symm.trans hz)
      exact ⟨_, List.getElem?_set_self (List.getElem?_eq_some_iff.1 hx).1, x.arm_continuation⟩
    · exact ⟨z, (List.getElem?_set_ne hj).trans hz, rfl⟩
  · by_cases hj : k = j
    · subst hj
      rw [List.getElem?_set_self (List.getElem?_eq_some_iff.1 hx).1] at hz
      cases hz
      rw [waits, hold]
      exact .inr List.mem_cons_self
    · exact .inl ⟨z, (List.getElem?_set_ne hj).symm.trans hz, hold⟩
  · rw [owed, zero, show s.dialogue.running = true from running]
    have handed : owing ([] ++ [.outcome (some k) (if x.arm.2 then .pause else .done)
        (.event .engine)]) + x.arm.1.holds.toNat = 1 := by
      rw [waits]
      cases x.arm.1.holds <;> rfl
    rw [unheld, Bool.toNat_false] at counted
    unfold Session.booked at booked ⊢
    dsimp only
    rw [Bool.toNat_true]
    omega
  · have choice := b.choice
    rw [top, List.countP_cons, if_neg (by simp [Item.isChoice])] at choice
    rw [choice]
    simp [Item.isChoice]

/-- The engine hears the answer. -/
theorem Baton.heard {use : Use} {x : NextAction} (b : Baton s h e) (top : s.agenda = i :: rest)
    (phase : e.phase = .reported use) (clean : rest.filter Item.ofEngine = [])
    (handed : (Engine.Phase.heard use x).goesOn.toNat = i.stake)
    (turns : (Engine.Phase.heard use x).turns = true) (plain : i.isChoice = false) :
    ∃ e', Baton (Session.conclude { s with agenda := rest } .engine x).1 (.did i :: h) e' := by
  have running : s.dialogue.running = true := by
    refine b.started fun idle => ?_
    rw [phase] at idle
    cases idle
  have node : e.node.isSome = true := by
    refine (b.inside running).resolve_right fun halts => ?_
    rw [phase] at halts
    cases halts
    cases turns
  have coherent := b.coherent.hear x
  simp only [Session.conclude, b.engine, e.hear_of_reported phase] at coherent ⊢
  refine ⟨_, b.steered [.turn] top (top ▸ .did i rest) rfl rfl rfl rfl coherent rfl
    (expects_of_turns turns clean) ?_ (fun _ => running) (fun _ => .inl node) ?_
    (fun _ _ => List.not_mem_nil) ?_⟩
  · simp only [Engine.stake, handed, phase]
    simp [Item.stake, Engine.Phase.goesOn]
  · rw [plain]
    rfl
  · exact List.forall_mem_singleton.2 (.inr (.inr (.inl rfl)))

theorem Baton.conclude {x : NextAction} (b : Baton s h e)
    (top : s.agenda = .conclude .engine x :: rest) :
    ∃ e', Baton (Session.conclude { s with agenda := rest } .engine x).1
      (.did (.conclude .engine x) :: h) e' := by
  obtain ⟨use, phase, awaits, clean⟩ := Expects.of_answers (top ▸ b.expects) rfl
  refine b.heard top phase clean ?_ ?_ rfl
  · cases use <;> cases x <;> first | rfl | cases awaits
  · cases use <;> first | rfl | cases awaits

/-- The outcome of a command is known. -/
theorem Baton.outcome {k : Option Nat} {o : DispatchOutcome} (b : Baton s h e)
    (top : s.agenda = .outcome k o (.event .engine) :: rest) :
    ∃ e', Baton (Session.useOutcome { s with agenda := rest } o (.event .engine)).1
      (.did (.outcome k o (.event .engine)) :: h) e' := by
  obtain ⟨use, phase, awaits, clean⟩ := Expects.of_answers (top ▸ b.expects) rfl
  obtain rfl : use = .plain := by cases use <;> first | rfl | cases awaits
  refine b.heard top phase clean ?_ rfl rfl
  by_cases paused : o = .pause <;> simp [paused, Item.stake, Engine.Phase.goesOn]

/-- A function that the engine has called returns. -/
theorem Baton.receive {key : HostKey} {args : List Value} (b : Baton s h e)
    (top : s.agenda = .invoke key args .engine :: rest) (v : Value) :
    ∃ e', Baton ({ s with agenda := .turn :: rest }.mapEngine fun e => e.receive v)
      (.answer (.value v) :: h) e' := by
  obtain ⟨⟨purpose, stack, phase⟩, clean⟩ := Expects.of_invoke (top ▸ b.expects)
  have running : s.dialogue.running = true := by
    refine b.started fun idle => ?_
    rw [phase] at idle
    cases idle
  have node : e.node.isSome = true := by
    refine (b.inside running).resolve_right fun halts => ?_
    rw [phase] at halts
    cases halts
  have coherent := b.coherent.receive v
  have takes : Takes (.answer (.value v)) s.agenda rest := top ▸ .answer _ _ rest rfl
  simp only [mapEngine, b.engine, e.receive_of_calling phase] at coherent ⊢
  refine ⟨_, b.steered [.turn] top takes rfl rfl rfl rfl coherent rfl
    (expects_of_turns rfl clean) ?_ (fun _ => running) (fun _ => .inl node) rfl
    (fun _ _ => List.not_mem_nil) ?_⟩
  · simp only [Engine.stake, phase]
    rfl
  · exact List.forall_mem_singleton.2 (.inr (.inr (.inl rfl)))

/-! ### What the host requests -/

theorem Baton.same {c : Call} (b : Baton s h e) (takes : Takes (.call c) s.agenda s.agenda)
    (free : .turn ∉ s.agenda.head?) : Baton s (.call c :: h) e :=
  b.passes [] takes rfl (by simp) free (.refl s)

/-- The dialogue starts, or does not. -/
theorem Baton.start {n : Option String} (b : Baton s h e) (idle : s.agenda = []) :
    ∃ e', Baton (s.start n).1 (.call (.start n) :: h) e' := by
  have takes : Takes (.call (.start n)) s.agenda s.agenda := .call _ _ (by simp [idle])
  have free : .turn ∉ s.agenda.head? := by simp [idle]
  obtain ⟨phase, unasked⟩ := Expects.idle_of_done (idle ▸ b.expects)
  have kept {seat : EngineSeat} {a : List Item} {running : Bool} :
      Keeps s { s with engine := seat, agenda := a, dialogue.running := running } :=
    ⟨rfl, fun none => ⟨rfl, .inl none⟩, fun _ hk => .inl hk, fun _ x hx => ⟨x, hx, rfl⟩,
      fun _ x hx hold => .inl ⟨x, hx, hold⟩⟩
  have requests := s.start_requests n
  generalize s.start n = p at requests ⊢
  cases requests with
  | declined => exact ⟨e, b.same takes free⟩
  | start _ legal places =>
    cases places with
    | host seat => cases b.engine.symm.trans seat
    | script seat placed =>
      cases b.engine.symm.trans seat
      have coherent := b.coherent.bound.place (.inl phase) placed
      obtain ⟨-, rfl⟩ := Engine.place_eq_ok.1 placed
      have tells := outside_tellViews s .opened
      have outside : ∀ i ∈ s.tellViews .opened ++ [.continueEngine .start, .lease, .reply .done],
          i.isOutside = true :=
        List.forall_mem_append.2 ⟨tells, by simp [Item.isOutside]⟩
      obtain ⟨booked, owed⟩ : s.booked = 0 ∧ owing s.agenda = 0 := by
        have total := b.total
        rw [stake, (Dialogue.startError?_eq_none.1 legal).2.2.1, Bool.toNat_false] at total
        omega
      refine ⟨_, b.moved (s.tellViews .opened ++ _) takes kept rfl coherent rfl ?_ ?_
        (fun _ => rfl) (fun _ => .inl rfl) ?_
        (fun n id hm => by cases outside _ (List.mem_of_mem_tail hm))
        fun i hi => .inl (outside i hi)⟩
      · unfold Expects
        simp only [Engine.enter, phase]
        refine ⟨?_, unasked⟩
        rw [idle, List.append_nil]
        exact filter_of_others fun j hj => ofEngine_of_isOutside (outside j hj)
      · rw [owing_append, owing_tellViews, owed]
        simp only [Engine.stake, Engine.enter, phase, unasked]
        exact congrArg (· + 1) booked
      · rw [not_choice_of_outside outside, idle]
        have offer : s.dialogue.offer.isSome.toNat = 0 := by
          unfold Session.booked at booked
          omega
        exact (show 0 = s.dialogue.offer.isSome.toNat + (0 + 0) by rw [offer])

/-- The player chooses an option, or tries to. -/
theorem Baton.select {n : Nat} {id : OptionId} (b : Baton s h e)
    (takes : Takes (.call (.select n id)) s.agenda s.agenda) (free : .turn ∉ s.agenda.head?) :
    Baton (s.select n id).1 (.call (.select n id) :: h) e := by
  have requests := s.select_requests n id
  generalize s.select n id = p at requests ⊢
  cases requests with
  | declined => exact b.same takes free
  | @select _ _ _ d o chosen =>
    obtain ⟨offer, open_, -, -, -, rfl⟩ := Dialogue.choose_eq_ok.1 chosen
    -- the engine is told what was chosen, and then it goes on or a line is presented
    obtain ⟨next, outside, handed, same⟩ : ∃ next : Item, next.isOutside = true ∧ next.stake = 1 ∧
        (if s.dialogue.settings.echoChoice then .present o.line (some n)
          else .continueEngine (.offer n)) = next := by
      refine ⟨_, ?_, ?_, rfl⟩ <;> split <;> rfl
    have others : ∀ i ∈ [next, .lease, .reply .done], i.isOutside = true :=
      List.forall_mem_cons.2 ⟨outside, by simp [Item.isOutside]⟩
    have choices := b.choice
    have total := b.total
    rw [open_] at choices
    rw [stake, Session.booked, open_] at total
    refine b.moved (.chooseOption n id :: [next, .lease, .reply .done]) takes
      ⟨rfl, fun none => ⟨rfl, .inl none⟩, fun _ hk => .inl hk, fun _ x hx => ⟨x, hx, rfl⟩,
        fun _ x hx hold => .inl ⟨x, hx, hold⟩⟩ b.engine b.coherent (by rw [← same]; rfl) ?_ ?_
      b.started b.inside ?_ (fun n id hm => by cases others _ hm) ?_
    · refine b.expects.congr free ?_
      rw [List.filter_append, filter_of_others (List.forall_mem_cons.2
        ⟨rfl, fun j hj => ofEngine_of_isOutside (others j hj)⟩)]
      rfl
    · rw [owing_cons, owing_cons, handed]
      rw [Option.isSome_some, Bool.toNat_true] at total
      refine Eq.trans ?_ total
      exact (show s.dialogue.line.isSome.toNat + 0 + s.handles.countP ResumeHandle.holds +
        (0 + (1 + 0) + owing s.agenda) + e.stake = _ by omega)
    · rw [choices, List.countP_cons, not_choice_of_outside others]
      exact (show 1 + _ = 0 + (0 + 1 + _) by omega)
    · exact List.forall_mem_cons.2 ⟨.inr (.inr (.inr ⟨n, id, rfl⟩)), fun i hi => .inl (others i hi)⟩

end Session

end Prompter

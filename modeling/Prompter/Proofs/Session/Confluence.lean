import Prompter.Proofs.Session.Performance

/-!
# Prompter.Proofs.Session.Confluence

The story that is told does not depend on when the views do what.

When nothing is outstanding in a performance of a play, the engine stands at the one end of it
(`Performance.ends`): the script is over, or nothing can be chosen of what is offered. So any two
performances have told the same events, and have asked each view for the same.
-/

namespace Prompter.Session

variable {p : Play} {s₀ s : Session} {h : History}

/-- A session gives a play until nothing is outstanding. -/
structure Performance (p : Play) (s₀ s : Session) (h : History) : Prop where
  set : IsSet p s₀
  run : Run (Dutiful p) s₀ s h
  computes : Computes p.world s₀ h
  discharged : Discharged s h

/-- A dialogue that cannot start does nothing. -/
theorem Run.closed (set : IsSet p s₀) (closed : p.opens = false) (r : Run (Dutiful p) s₀ s h) :
    s = s₀ ∧ (h = [] ∨ ∃ n, h = [.call (.start n)]) := by
  induction h generalizing s with
  | nil =>
    cases r
    exact ⟨rfl, .inl rfl⟩
  | cons m h ih =>
    obtain ⟨s₁, r₁, happens⟩ := r.last
    obtain ⟨rfl, before⟩ := ih r₁
    have ok (c : Call) (hm : m = .call c) : Dutiful p s₁ h c := by
      subst hm
      exact r₁.allowed_of_call r
    obtain ⟨n, rfl⟩ := happens.starts ok set.agenda fun i hi => by
      rcases before with rfl | ⟨n, rfl⟩
      · cases hi
      · cases List.mem_singleton.1 hi
    obtain ⟨rfl, -⟩ := ok _ rfl
    cases happens with
    | call word =>
      have shape := set.start (ok _ rfl)
      rw [closed, if_neg (by decide)] at shape
      exact ⟨shape, .inr ⟨n, rfl⟩⟩

namespace Performance

/-- When nothing is outstanding, nothing is being presented but options of which none can be
chosen. -/
theorem settled (perf : Performance p s₀ s h) (opens : p.opens = true) {told : List Event}
    {coming : Nat → List Ask} (scene : Scene p s.dialogue h told (scenic s.agenda) coming) :
    s.dialogue.line = none ∧ (s.dialogue.offer = none ∨ p.chosen? told = none) ∧
      ∀ v ∈ s.dialogue.views, coming v = [] := by
  obtain ⟨set, r, -, discharged⟩ := perf
  rw [discharged.done] at scene
  cases scene with
  | clear rests items asks => exact ⟨rests.line, .inl rests.offer, asks⟩
  | offering options last line offer settled items asks =>
    have watched : s.dialogue.views ≠ [] := by
      rw [r.views_eq set]
      rintro none
      simp [Play.opens, none] at opens
    obtain ⟨v, hv⟩ := List.exists_mem_of_ne_nil _ watched
    have told := (((r.tendered set.toIsFresh).put _ offer).2 v hv).resolve_left
      (by simp [discharged.done])
    obtain ⟨id, answered⟩ := discharged.selected _ _ _ told
    have refused := r.refused set offer answered
    refine ⟨line, .inr (by rw [Play.chosen?, last]; exact refused), fun v hv => ?_⟩
    rw [asks v hv, Play.asks, refused]
    split <;> rfl
  | calling b l slots shows owes items asks =>
    -- a view that owes its token has been told to complete it, and has
    obtain ⟨v, hv⟩ := List.exists_mem_of_ne_nil _ owes.pending
    have called : slots = [] := by
      cases slots with
      | nil => rfl
      | cons => cases items
    have told := owes.told v hv (called ▸ List.not_mem_nil)
    exact absurd (discharged.completed _ _ _ told) (owes.owed v hv)
  | hearing _ _ _ items | choosing _ _ _ _ items | presenting _ _ _ items | due _ _ _ _ items
  | telling _ _ _ _ _ _ items | shown _ _ _ items | ending _ items => cases items
  | gathered b _ _ _ items => cases items

/-- When nothing is outstanding, the play has come to its end. -/
theorem ends (perf : Performance p s₀ s h) :
    ∃ t, p.Reaches t ∧ p.step t = t ∧ t.told = performed s₀ h ∧
      ∀ v ∈ p.views, asked v h = t.told.flatMap p.asks := by
  have ⟨set, r, computes, discharged⟩ := perf
  obtain ⟨n, started⟩ := discharged.started
  cases opens : p.opens with
  | false =>
    obtain ⟨rfl, before⟩ := r.closed set opens
    obtain rfl | ⟨n, rfl⟩ := before
    · cases started
    · exact ⟨p.opening, ⟨0, rfl⟩, Play.step_of_ended (by simp [Play.opening, opens]), rfl,
        fun v _ => rfl⟩
  | true =>
    obtain ⟨⟨e, vs, engine, recites⟩, coming, scene, asks⟩ :=
      r.performs set opens computes (List.ne_nil_of_mem started)
    obtain ⟨line, offer, asks'⟩ := perf.settled opens scene
    obtain ⟨e₁, ballot⟩ := Run.ballot set.isAttached set.engine
      (r.weaken fun _ _ _ => Dutiful.considerate)
    obtain rfl : e₁ = e := EngineSeat.script.inj (ballot.attended.engine.symm.trans engine)
    have idle := ballot.attended.idle_of_done discharged.done
    have story := recites.story
    have here : (answered p.world e₁ s.agenda).outlook p.world vs (performed s₀ h) =
        ⟨performed s₀ h, vs, e₁.spot⟩ := by
      rw [discharged.done, answered_of_phase (by simp [idle]), Engine.outlook, idle]
    rw [here] at story
    refine ⟨_, story, ?_, rfl, fun v hv => ?_⟩
    · cases running : s.dialogue.running with
      | false => exact Play.step_of_ended (by rw [Engine.spot, (ballot.outside running).outside])
      | true =>
        cases run_awaitsOne set.isAttached (r.weaken fun _ _ _ ok => ok.single) discharged.done
          running with
        | line presented =>
          rw [line] at presented
          cases presented
        | choice _ offered _ undecided =>
          obtain ⟨e, engine', waiting, -⟩ := undecided
          obtain rfl : e = e₁ := EngineSeat.script.inj (engine'.symm.trans engine)
          refine Play.step_of_unchosen waiting (offer.resolve_left fun none => ?_)
          rw [none] at offered
          cases offered
        | command _ _ held =>
          obtain ⟨k, held, -⟩ := held
          exact absurd held (r.unheld set.toIsFresh discharged k)
    · have none := asks' v ((r.views_eq set).symm ▸ hv)
      rw [asks v hv, none, List.append_nil]

end Performance

/-- Whatever the views do when: two performances of a play have told the same events, and have asked
each view to show and to take away the same lines, in the same order. -/
theorem run_confluent {s₁ s₁' s₂ s₂' : Session} {h₁ h₂ : History}
    (one : Performance p s₁ s₁' h₁) (other : Performance p s₂ s₂' h₂) :
    events s₁ h₁ = events s₂ h₂ ∧ ∀ v ∈ p.views, asked v h₁ = asked v h₂ := by
  obtain ⟨t₁, reached₁, ends₁, told₁, asked₁⟩ := one.ends
  obtain ⟨t₂, reached₂, ends₂, told₂, asked₂⟩ := other.ends
  obtain rfl := reached₁.eq_of_end reached₂ ends₁ ends₂
  refine ⟨List.reverse_inj.1 (told₁.symm.trans told₂), fun v hv => ?_⟩
  rw [asked₁ v hv, asked₂ v hv]

/-- A play of a line, an option under a condition and a command that pauses, for two views. -/
def knock : Play where
  script := ⟨⟨[("A", [.line "l1" "Who is there?" [],
      .options [{ text := "A friend."
                  condition := some (.call "near" [])
                  destination := some "B" }]]),
    ("B", [.command "hold"])], by decide⟩⟩
  node := "A"
  world := ⟨⟨⟨[("near", ⟨0, 4⟩)], by decide⟩⟩, fun _ _ => .bool true⟩
  storage := {}
  slots := [true, true]
  strings := {}
  echo := false
  pick := fun _ => 0

/-- A session that is ready to give the play. -/
def knockReady : Session :=
  { engine := .script { script := knock.script, listener := some .dialogue }
    dialogue := { slots := [true, true], settings := { autoAdvance := true, echoChoice := false } }
    commands := { handlers := ⟨.ofList [("hold", ⟨[], true, 0⟩)]⟩ }
    functions := knock.world.functions
    storage := some {} }

set_option maxRecDepth 2000 in
/-- The views and the command do at once in one performance what they leave for later in the other.
The same is told, and both views are asked for the same. -/
theorem confluent_of_knock :
    ∃ s h s' h', Performance knock knockReady s h ∧ Performance knock knockReady s' h' ∧
      events knockReady h = [.dialogueEnd, .nodeEnd "B", .command (.ofScript "hold"),
        .nodeStart "B", .nodeEnd "A", .options ⟨[⟨0, ⟨"A friend.", "A friend.", []⟩, true⟩]⟩,
        .line ⟨"l1", "Who is there?", []⟩, .nodeStart "A"] ∧
      events knockReady h = events knockReady h' ∧
      ∀ v ∈ knock.views, asked v h = asked v h' := by
  have set : IsSet knock knockReady :=
    { agenda := rfl, handles := rfl, dialogue := rfl, engine := rfl, held := rfl, storage := rfl
      functions := rfl, slots := rfl, strings := rfl, advances := rfl, echoes := rfl }
  have r : Run (Dutiful knock) knockReady knockReady [] := .refl
  have r := (r.call rfl (.start (some "A")) ⟨rfl, rfl, rfl⟩).works 9
  -- both views hear of the start and of the node
  have r := (((r.answer .heard rfl).works 9).answer .heard rfl).works 9
  have r := (((r.answer .heard rfl).works 9).answer .heard rfl).works 9
  -- in one they do what they are asked to do while they are asked
  have q := (r.call rfl (.complete ⟨1, 0⟩) ⟨.showing, 1, _, .head _⟩).works 9
  have q := (q.answer .heard rfl).works 9
  have q := (q.call rfl (.complete ⟨1, 1⟩) ⟨.showing, 1, _, .head _⟩).works 9
  have q := (((q.answer .heard rfl).works 9).answer .heard rfl).works 9
  have q := (((q.answer .heard rfl).works 9).answer .heard rfl).works 9
  have q := (q.call rfl (.complete ⟨2, 0⟩) ⟨.removing, 1, _, .head _⟩).works 9
  have q := (q.answer .heard rfl).works 9
  have q := (q.call rfl (.complete ⟨2, 1⟩) ⟨.removing, 1, _, .head _⟩).works 9
  have q := (((q.answer .heard rfl).works 9).answer .heard rfl).works 9
  have q := (q.answer (.value (.bool true)) rfl).works 9
  have q := (q.call rfl (.select 1 0) ⟨0, _, .head _, rfl⟩).works 9
  have q := (((q.answer .heard rfl).works 9).answer .heard rfl).works 9
  have q := (((q.answer .heard rfl).works 9).answer .heard rfl).works 9
  have q := (((q.answer .heard rfl).works 9).answer .heard rfl).works 9
  have q := (q.call rfl (.resume 0) ⟨_, rfl, .head _⟩).works 9
  have q := (((q.answer .heard rfl).works 9).answer .heard rfl).works 9
  have q := (((q.answer .heard rfl).works 9).answer .heard rfl).works 9
  have q := (q.answer .heard rfl).works 9
  -- in the other they do so when nothing else is left to be done
  have r := (((r.answer .heard rfl).works 9).answer .heard rfl).works 9
  have r := (r.call rfl (.complete ⟨1, 1⟩)
    ⟨.showing, 1, _, List.mem_of_getElem? (i := 7) rfl⟩).works 9
  have r := (r.call rfl (.complete ⟨1, 0⟩)
    ⟨.showing, 1, _, List.mem_of_getElem? (i := 12) rfl⟩).works 9
  have r := (((r.answer .heard rfl).works 9).answer .heard rfl).works 9
  have r := (((r.answer .heard rfl).works 9).answer .heard rfl).works 9
  have r := (((r.answer .heard rfl).works 9).answer .heard rfl).works 9
  have r := (r.call rfl (.complete ⟨2, 1⟩)
    ⟨.removing, 1, _, List.mem_of_getElem? (i := 4) rfl⟩).works 9
  have r := (r.call rfl (.complete ⟨2, 0⟩)
    ⟨.removing, 1, _, List.mem_of_getElem? (i := 9) rfl⟩).works 9
  have r := (r.answer (.value (.bool true)) rfl).works 9
  have r := (((r.answer .heard rfl).works 9).answer .heard rfl).works 9
  have r := (r.call rfl (.select 1 0) ⟨1, _, List.mem_of_getElem? (i := 6) rfl, rfl⟩).works 9
  have r := (((r.answer .heard rfl).works 9).answer .heard rfl).works 9
  have r := (((r.answer .heard rfl).works 9).answer .heard rfl).works 9
  have r := (r.answer .heard rfl).works 9
  have r := (r.call rfl (.resume 0) ⟨_, rfl, List.mem_of_getElem? (i := 7) rfl⟩).works 9
  have r := (((r.answer .heard rfl).works 9).answer .heard rfl).works 9
  have r := (((r.answer .heard rfl).works 9).answer .heard rfl).works 9
  have one := Performance.mk set q (by decide +kernel) (by decide +kernel)
  have other := Performance.mk set r (by decide +kernel) (by decide +kernel)
  exact ⟨_, _, _, _, one, other, by rfl, run_confluent one other⟩

end Prompter.Session

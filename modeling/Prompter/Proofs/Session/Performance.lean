import Prompter.Proofs.Session.Obligation
import Prompter.Proofs.Session.Recital
import Prompter.Proofs.Session.Scene

/-!
# Prompter.Proofs.Session.Performance

How a dialogue performs a play, whatever its views do when.

In every state of a run the engine stands somewhere in the play, and the last event that it has
told is being presented: what the views have been asked to do, and are still to be asked because of
it, is what the events that have been told ask them to do (`Performs`). `Run.performs` is the
induction; a turn of the engine takes the play further, and everything else the scene.
-/

namespace Prompter.Session

open Engine (Turned)

variable {p : Play} {s₀ s s' : Session} {h : History} {m : Mark}

/-! ### What does not change -/

/-- What a dialogue is set up with. -/
def outfit (d : Dialogue) : Settings × StringTable × List Bool :=
  (d.settings, d.strings, d.slots)

theorem Post.outfit {d d' : Dialogue} {hs : List (ResumeHandle Continuation)} {items : List Item}
    (post : Post d hs m d' items) : Session.outfit d' = Session.outfit d := by
  cases post with
  | advanced _ _ advances =>
    obtain ⟨line, -, -, rfl⟩ := advances
    rfl
  | _ => rfl

theorem Run.outfit {allowed : Session → History → Call → Prop} (r : Run allowed s₀ s h) :
    Session.outfit s.dialogue = Session.outfit s₀.dialogue :=
  r.posts (motive := fun s _ => Session.outfit s.dialogue = Session.outfit s₀.dialogue) rfl
    fun _ _ posts same => by
      obtain ⟨_, _, _, post, _⟩ := posts
      exact post.outfit.trans same

theorem Run.views_eq (set : IsSet p s₀) (r : Run (Dutiful p) s₀ s h) : s.dialogue.views = p.views :=
  r.views.trans (congrArg (presentFrom 0) set.slots)

/-! ### What has been told -/

/-- What the engine has told the dialogue, in its order. -/
def performed (s₀ : Session) (h : History) : List Event := (events s₀ h).reverse

theorem performed_cons {allowed : Session → History → Call → Prop} (r : Run allowed s₀ s h)
    (m : Mark) : performed s₀ (m :: h) = performed s₀ h ++ (s.reported? m).toList := by
  rw [performed, events, r.after_eq, List.reverse_append]
  cases s.reported? m <;> rfl

theorem reported?_of_unturned (unturned : m ≠ .did .turn) : s.reported? m = none := by
  unfold reported?
  split
  · exact absurd rfl unturned
  · rfl

theorem ask?_of_not_hands (quiet : m.hands = false) (v : Nat) : m.ask? v = none := by
  unfold Mark.ask?
  split <;> first | cases quiet | rfl

theorem asked_of_not_hands (quiet : m.hands = false) (v : Nat) : asked v (m :: h) = asked v h := by
  rw [asked, ask?_of_not_hands quiet]
  exact List.append_nil _

theorem hands_of_other {i : Item} (other : i.isScenic = false) : (Mark.did i).hands = false := by
  unfold Mark.hands
  split
  · next same => cases same; cases other
  · next same => cases same; cases other
  · rfl

/-- Nobody has been given a token of a generation that is to come. -/
theorem Run.unissued (fresh : s₀.IsFresh) (r : Run (Dutiful p) s₀ s h) {t : Token}
    (later : s.dialogue.barrier.generation < t.generation) (b : LineBroadcast) (serial : Nat) :
    ¬ Told b serial t h := by
  intro told
  have sound := Run.sound fresh (r.weaken fun _ _ _ ok => ok.single.honest)
  exact Nat.not_lt.2 (sound.fresh b serial t.generation (told.issued _)).1 later

/-- Nobody has completed one. -/
theorem Run.uncompleted (fresh : s₀.IsFresh) (r : Run (Dutiful p) s₀ s h) {t : Token}
    (later : s.dialogue.barrier.generation < t.generation) : .call (.complete t) ∉ h := by
  intro done
  obtain ⟨_, newer, older, rfl, _, b, serial, told⟩ := r.allowed_of_mem done
  exact r.unissued fresh later b serial ((told.mono [_]).mono newer)

/-! ### The scene -/

section

variable {told : List Event} {coming : Nat → List Ask}

/-- What is done aside leaves the scene as it is. -/
theorem Scene.spared (scene : Scene p s.dialogue h told (scenic s.agenda) coming)
    (spares : Spares s s') (quiet : m.hands = false) (other : ∀ t, m ≠ .call (.complete t)) :
    Scene p s'.dialogue (m :: h) told (scenic s'.agenda) coming := by
  rw [spares.dialogue, spares.items]
  exact scene.cons quiet fun v _ => other _

/-- Whatever item is done, the scene goes on, and what a view is asked to do then it was to be asked
to do. -/
theorem Scene.work {i : Item} {rest : List Item} (set : IsSet p s₀) (r : Run (Dutiful p) s₀ s h)
    (top : s.agenda = i :: rest) (unturned : i ≠ .turn)
    (scene : Scene p s.dialogue h told (scenic s.agenda) coming) :
    ∃ coming', Scene p ({ s with agenda := rest }.work i).1.dialogue (.did i :: h) told
        (scenic ({ s with agenda := rest }.work i).1.agenda) coming' ∧
      ∀ v ∈ s.dialogue.views, coming v = ((Mark.did i).ask? v).toList ++ coming' v := by
  obtain ⟨settings, strings, -⟩ : s.dialogue.settings = s₀.dialogue.settings ∧
      s.dialogue.strings = s₀.dialogue.strings ∧ s.dialogue.slots = s₀.dialogue.slots := by
    simpa [Session.outfit] using r.outfit
  have sound := Run.sound set.toIsFresh (r.weaken fun _ _ _ ok => ok.single.honest)
  have others (part : i.isScenic = false) : ∃ coming',
      Scene p ({ s with agenda := rest }.work i).1.dialogue (.did i :: h) told
        (scenic ({ s with agenda := rest }.work i).1.agenda) coming' ∧
      ∀ v ∈ s.dialogue.views, coming v = ((Mark.did i).ask? v).toList ++ coming' v := by
    have quiet := hands_of_other part
    have spares := (work_works { s with agenda := rest } i).spares sound.own part unturned
    rw [top, scenic_cons_of_other part] at scene
    refine ⟨coming, ?_, fun v _ => by rw [ask?_of_not_hands quiet]; rfl⟩
    exact Scene.spared (s := { s with agenda := rest }) scene spares quiet nofun
  have kept (silent : ∀ v, (Mark.did i).ask? v = none)
      (scene : Scene p ({ s with agenda := rest }.work i).1.dialogue (.did i :: h) told
        (scenic ({ s with agenda := rest }.work i).1.agenda) coming) : ∃ coming',
      Scene p ({ s with agenda := rest }.work i).1.dialogue (.did i :: h) told
        (scenic ({ s with agenda := rest }.work i).1.agenda) coming' ∧
      ∀ v ∈ s.dialogue.views, coming v = ((Mark.did i).ask? v).toList ++ coming' v :=
    ⟨coming, scene, fun v _ => by rw [silent]; rfl⟩
  have part (scenic_ : i.isScenic = true) :
      Scene p s.dialogue h told (i :: scenic rest) coming := by
    rwa [top, scenic_cons scenic_] at scene
  cases i with
  | turn => exact absurd rfl unturned
  | hear r event =>
    exact kept (fun _ => rfl) ((part rfl).hear (s := { s with agenda := rest })
      (strings.trans set.strings))
  | chooseOption serial id =>
    exact kept (fun _ => rfl) ((part rfl).chooseOption (s := { s with agenda := rest }))
  | present l offer =>
    exact kept (fun _ => rfl) ((part rfl).present (s := { s with agenda := rest }))
  | broadcast b serial line =>
    refine kept (fun _ => rfl) ((part rfl).broadcast (s := { s with agenda := rest })
      (fun b serial v given => ?_) fun v done => ?_)
    · exact r.unissued set.toIsFresh (Nat.lt_succ_self _) b serial (told_of_not_hands rfl given)
    · exact r.uncompleted set.toIsFresh (Nat.lt_succ_self _)
        ((List.mem_cons.1 done).resolve_left nofun)
  | rest b serial line generation slots =>
    cases slots with
    | nil => exact others rfl
    | cons v slots => exact kept (fun _ => rfl) ((part rfl).rest (s := { s with agenda := rest }))
  | resume k =>
    have held : s.held = true := r.held set
    have advances : s.dialogue.settings.autoAdvance = true :=
      (congrArg Settings.autoAdvance settings).trans set.advances
    cases k with
    | lineShown serial =>
      exact kept (fun _ => rfl) (Scene.resume (s := { s with agenda := rest }) (b := .showing)
        held advances (part rfl))
    | lineGone serial =>
      exact kept (fun _ => rfl) (Scene.resume (s := { s with agenda := rest }) (b := .removing)
        held advances (part rfl))
    | host | commandDone => exact others rfl
  | closeLine serial =>
    exact kept (fun _ => rfl) ((part rfl).closeLine (s := { s with agenda := rest }))
  | finish => exact kept (fun _ => rfl) ((part rfl).finish (s := { s with agenda := rest }))
  | tell n =>
    cases n with
    | view v n =>
      cases n with
      | showLine serial line t =>
        obtain ⟨coming', scene, asks⟩ :=
          Scene.tell (s := { s with agenda := rest }) (b := .showing) (part rfl)
        refine ⟨coming', scene, fun w hw => ?_⟩
        rw [asks w hw, Mark.ask?]
        split <;> rfl
      | removeLine serial line t =>
        obtain ⟨coming', scene, asks⟩ :=
          Scene.tell (s := { s with agenda := rest }) (b := .removing) (part rfl)
        refine ⟨coming', scene, fun w hw => ?_⟩
        rw [asks w hw, Mark.ask?]
        split <;> rfl
      | _ => exact others rfl
    | _ => exact others rfl
  | _ => exact others rfl

/-- Whatever is requested after the start, the scene goes on. -/
theorem Scene.call {c : Call} (set : IsSet p s₀) (r : Run (Dutiful p) s₀ s h)
    (ok : Dutiful p s h c) (begun : ∀ n, c ≠ .start n)
    (scene : Scene p s.dialogue h told (scenic s.agenda) coming) :
    Scene p (s.call c).1.dialogue (.call c :: h) told (scenic (s.call c).1.agenda) coming := by
  have held := r.held set
  have sound := Run.sound set.toIsFresh (r.weaken fun _ _ _ ok => ok.single.honest)
  have pushed : Spares s (s.push [.reply .done]) :=
    .of_items [.reply .done] (by simp [Item.isScenic]) rfl rfl
  cases c with
  | start n => exact absurd rfl (begun n)
  | complete t => exact scene.complete held ok
  | select serial id =>
    have echoes : s.dialogue.settings.echoChoice = p.echo :=
      (congrArg (·.1.echoChoice) r.outfit).trans set.echoes
    refine scene.select held echoes fun o opened same => ?_
    obtain ⟨v, options, told, rfl⟩ := ok
    obtain rfl := ((r.tendered set.toIsFresh).known _ _ _ (.inr told)).2 o opened same
    rfl
  | resume k =>
    have spares := pushed.trans ((resumeHandle_unpauses _ k).spares sound.own)
    exact scene.spared spares rfl (by simp)
  | resumeWhenDone k =>
    have spares := pushed.trans ((resumeWhenDone_spawns _ k).spares sound.own)
    exact scene.spared spares rfl (by simp)
  | _ => exact ok.elim

theorem Spares.of_tail {i : Item} {rest : List Item} (top : s.agenda = i :: rest)
    (other : i.isScenic = false) (spares : Spares { s with agenda := rest } s') : Spares s s' :=
  ⟨spares.dialogue, by rw [spares.items, top, scenic_cons_of_other other]⟩

/-- Whatever the host answers, the scene stays as it is. -/
theorem answer_spares (s : Session) (x : Answer) : Spares s (s.answer x).1 := by
  unfold answer
  split
  · next top => exact .of_tail top rfl (.refl _)
  · next top => exact .of_tail top rfl (conclude_concludes _ _ _).spares
  · next top =>
    refine .of_tail top rfl ?_
    simp only [mapEngine]
    split <;> exact .of_items [.turn] (by simp [Item.isScenic]) rfl rfl
  · next top => exact .of_tail top rfl (.refl _)
  · exact .refl s

end

/-! ### Reports -/

section

variable {told : List Event} {coming : Nat → List Ask} {e : Engine}

/-- With nothing in the books and nothing on the agenda that could present an event, the scene is
clear. -/
theorem Scene.of_free {d : Dialogue} {a : List Item} (scene : Scene p d h told a coming)
    (line : d.line = none) (offer : d.offer = none)
    (heard : ∀ event, .hear .engine event ∉ a) (chosen : ∀ n id, .chooseOption n id ∉ a)
    (presented : ∀ l n, .present l n ∉ a) (unfinished : .finish ∉ a) :
    Rests d ∧ a = [] ∧ ∀ v ∈ d.views, coming v = [] := by
  cases scene with
  | clear rests items asks => exact ⟨rests, items, asks⟩
  | hearing event _ _ items => exact absurd (items ▸ List.mem_cons_self) (heard event)
  | offering _ _ _ opened => cases offer.symm.trans opened
  | choosing serial o _ _ items =>
    exact absurd (items ▸ List.mem_cons_self) (chosen serial o.id)
  | presenting l n _ items => exact absurd (items ▸ List.mem_cons_self) (presented l n)
  | due _ _ shows | calling _ _ _ shows | telling _ _ _ _ shows | gathered _ _ shows
  | shown _ shows => cases line.symm.trans shows.line
  | ending _ items => exact absurd (items ▸ List.mem_cons_self) unfinished

/-- The engine reports an event only when the one before has been presented. -/
theorem Run.clear {rest : List Item} (set : IsSet p s₀) (r : Run (Dutiful p) s₀ s h)
    (at_ : Attended s e) (top : s.agenda = .turn :: rest)
    (scene : Scene p s.dialogue h told (scenic s.agenda) coming) {e' : Engine} {l : Listener}
    {event : Event} (t : Turned .dialogue e e' (.report l event)) :
    Rests s.dialogue ∧ scenic s.agenda = [] ∧ ∀ v ∈ s.dialogue.views, coming v = [] := by
  rcases (r.weaken fun _ _ _ ok => ok.single).baton set.isAttached with ⟨e₁, b⟩ | ending | ⟨-, past⟩
  · obtain rfl : e₁ = e := EngineSeat.script.inj (b.engine.symm.trans at_.engine)
    have total := b.total
    have running : s.dialogue.running.toNat ≤ 1 := Bool.toNat_le _
    rw [stake, booked] at total
    have inside (phase : e₁.phase = .step) : e₁.node.isSome = true := by
      rcases b.inside (b.started (by simp [phase])) with inside | halted
      · exact inside
      · cases phase.symm.trans halted
    have one : e'.stake + 1 = e₁.stake := t.stake (by omega) inside (b.decided top)
    have quiet {i : Item} (hi : i ∈ scenic s.agenda) (asks : i.stake = 1) : False := by
      have le := stake_le_owing (mem_of_mem_scenic hi)
      omega
    refine scene.of_free (toNat_isSome_eq_zero.1 (by omega)) (toNat_isSome_eq_zero.1 (by omega))
      (fun event hi => quiet hi rfl) (fun n id hi => ?_) (fun l n hi => quiet hi rfl) fun hi => ?_
    · have hi := mem_of_mem_scenic hi
      rw [top] at hi
      refine b.front n id ?_
      rw [top]
      exact (List.mem_cons.1 hi).resolve_left (by simp)
    · rcases b.regular _ (mem_of_mem_scenic hi) with own | ⟨_, _, _, same, -⟩ | own | ⟨_, _, same⟩
      · cases own
      · cases same
      · cases own
      · cases same
  · rw [top] at ending
    cases ending
  · obtain ⟨e₁, ballot⟩ := Run.ballot set.isAttached set.engine
      (r.weaken fun _ _ _ => Dutiful.considerate)
    obtain rfl : e₁ = e := EngineSeat.script.inj (ballot.attended.engine.symm.trans at_.engine)
    exact absurd rfl ((t.out (ballot.outside past)).2 l event)

end

/-! ### The performance -/

/-- How a dialogue stands that performs a play: somewhere in the story, with each view asked for
what has been told, or still to be asked. -/
structure Performs (p : Play) (s₀ s : Session) (h : History) : Prop where
  recital : ∃ e vs, s.engine = .script e ∧ Recites p (performed s₀ h) s e vs
  scene : ∃ coming, Scene p s.dialogue h (performed s₀ h) (scenic s.agenda) coming ∧
    ∀ v ∈ p.views, (performed s₀ h).flatMap p.asks = asked v h ++ coming v

section

variable {coming : Nat → List Ask}

/-- As long as nothing has been done, there is nothing for the host to do but to start the
dialogue. -/
theorem Happens.starts (happens : Happens s m s') (ok : ∀ c, m = .call c → Dutiful p s h c)
    (idle : s.agenda = []) (undone : ∀ i, .did i ∉ h) : ∃ n, m = .call (.start n) := by
  cases happens with
  | work busy top => cases idle.symm.trans top
  | answer x fits => simp [accepts, idle] at fits
  | call word c =>
    have ok := ok c rfl
    cases c with
    | start n => exact ⟨n, rfl⟩
    | complete t =>
      obtain ⟨_, _, _, told⟩ := ok
      exact absurd told (undone _)
    | select serial id =>
      obtain ⟨_, _, told, -⟩ := ok
      exact absurd told (undone _)
    | resume k | resumeWhenDone k =>
      obtain ⟨_, -, told⟩ := ok
      exact absurd told (undone _)
    | _ => exact ok.elim

/-- The start of the dialogue. -/
theorem IsSet.performs {n : Option String} (set : IsSet p s₀) (opens : p.opens = true)
    (ok : Dutiful p s₀ [] (.start n)) :
    Performs p s₀ (s₀.call (.start n)).1 [.call (.start n)] := by
  have shape := set.start ok
  rw [opens, if_pos rfl] at shape
  have told : performed s₀ [.call (.start n)] = [] := rfl
  have others : ∀ i ∈ s₀.tellViews .opened ++ [.continueEngine .start, .lease, .reply .done],
      i.isScenic = false ∧ i.ofEngine = false := by
    refine forall_mem_tellViews_append (fun _ => ⟨rfl, rfl⟩) ?_
    simp [Item.isScenic, Item.ofEngine, Item.answersEngine]
  rw [shape]
  refine ⟨⟨p.engine, p.storage, rfl, ⟨rfl, rfl, rfl, fun _ => ⟨rfl, rfl⟩, trivial⟩, ?_,
    fun _ waiting => (by cases waiting), ?_⟩, fun _ => [], ?_, fun v _ => rfl⟩
  · exact Prod.ext set.storage set.functions
  · refine ⟨0, ?_⟩
    rw [answered_congr (a := []) (filter_of_others fun i hi => (others i hi).2), told]
    simp only [Function.iterate_zero, id, Play.opening, opens, if_true]
    rfl
  · rw [scenic_of_others fun i hi => (others i hi).1]
    refine .clear ⟨?_, ?_, ?_⟩ rfl fun _ _ => rfl
    all_goals rw [set.dialogue]

/-- A turn of the engine takes the performance further. -/
theorem Performs.turn {e : Engine} (performs : Performs p s₀ s h) (set : IsSet p s₀)
    (r : Run (Dutiful p) s₀ s h) (at_ : Attended s e) (happens : Happens s (.did .turn) s') :
    Performs p s₀ s' (.did .turn :: h) := by
  obtain ⟨⟨e₁, vs, engine, recites⟩, coming, scene, asks⟩ := performs
  obtain rfl : e₁ = e := EngineSeat.script.inj (engine.symm.trans at_.engine)
  refine ⟨?_, ?_⟩
  · rw [performed_cons r]
    obtain ⟨e', vs', engine', recites'⟩ := recites.turn at_ happens
    exact ⟨e', vs', engine', recites'⟩
  · obtain ⟨rest, around, top, rfl, listens, -⟩ := at_.turned happens
    obtain ⟨_, top', rfl⟩ := happens.top
    obtain rfl := (List.cons.inj (top.symm.trans top')).2
    have turned := Engine.turn_turned listens recites.reads.hearer
    have reported : s.reported? (.did .turn) =
        (e₁.turn ({ s with agenda := rest }.surroundings e₁)).2.1.event? := by
      simp only [reported?, at_.engine, top, List.tail_cons]
    have done : ∀ event ∈ (e₁.turn ({ s with agenda := rest }.surroundings e₁)).2.1.event?,
        Rests s.dialogue ∧ scenic s.agenda = [] ∧ ∀ v ∈ s.dialogue.views, coming v = [] := by
      intro event told
      cases hr : (e₁.turn ({ s with agenda := rest }.surroundings e₁)).2.1 with
      | report l event => exact r.clear set at_ top scene (hr ▸ turned)
      | _ =>
        rw [hr] at told
        cases told
    rw [top, scenic_cons_of_other rfl] at scene done
    have views := r.views_eq set
    obtain ⟨coming', scene', asks'⟩ := Scene.turn (s := { s with agenda := rest }) at_.engine
      (fun l event reports => (reports ▸ turned).reporter) scene done
    refine ⟨coming', ?_, fun v hv => ?_⟩
    · rw [performed_cons r, reported]
      exact scene'
    · rw [performed_cons r, reported, List.flatMap_append, asks v hv, asked_of_not_hands rfl,
        asks' v (views ▸ hv), List.append_assoc]

/-- Everything else takes the scene further, or leaves it where it is. -/
theorem Performs.next {e : Engine} (performs : Performs p s₀ s h) (set : IsSet p s₀)
    (r : Run (Dutiful p) s₀ s h) (at_ : Attended s e) (happens : Happens s m s')
    (unturned : m ≠ .did .turn) (begun : ∀ n, m ≠ .call (.start n))
    (ok : ∀ c, m = .call c → Dutiful p s h c) (computes : Computes p.world s₀ (m :: h)) :
    Performs p s₀ s' (m :: h) := by
  obtain ⟨⟨e₁, vs, engine, recites⟩, coming, scene, asks⟩ := performs
  obtain rfl : e₁ = e := EngineSeat.script.inj (engine.symm.trans at_.engine)
  have told : performed s₀ (m :: h) = performed s₀ h := by
    rw [performed_cons r, reported?_of_unturned unturned]
    exact List.append_nil _
  obtain ⟨e', at', moves⟩ := at_.next happens (fun c hm => (ok c hm).considerate)
    (r.known set.toIsFresh)
  refine ⟨⟨e', vs, at'.engine, ?_⟩, ?_⟩
  · rw [told]
    refine recites.next happens unturned begun ok moves (fun v key args hm called => ?_)
      fun n id hm => ?_
    · subst hm
      exact computes [] h v key args rfl (r.after_eq ▸ called)
    · subst hm
      obtain ⟨rest, top, -⟩ := happens.top
      rw [top, scenic_cons rfl] at scene
      obtain ⟨o, chosen, named, -⟩ := scene.of_chooseOption
      exact ⟨o, chosen, named⟩
  · rw [told]
    have views := r.views_eq set
    cases happens with
    | @work busy i rest top =>
      obtain ⟨coming', scene', asks'⟩ := scene.work set r top
        fun same => unturned (congrArg Mark.did same)
      refine ⟨coming', ?_, fun v hv => ?_⟩
      · rw [step_eq_work busy top]
        exact scene'
      · rw [asks v hv, asks' v (views ▸ hv), asked, List.append_assoc]
    | call word c =>
      exact ⟨coming, scene.call set r (ok c rfl) fun n same => begun n (congrArg Mark.call same),
        fun v hv => by rw [asks v hv, asked_of_not_hands rfl]⟩
    | answer x =>
      exact ⟨coming, scene.spared (answer_spares s x) rfl nofun,
        fun v hv => by rw [asks v hv, asked_of_not_hands rfl]⟩

/-- A dialogue that has started performs its play. -/
theorem Run.performs (set : IsSet p s₀) (opens : p.opens = true) (r : Run (Dutiful p) s₀ s h)
    (computes : Computes p.world s₀ h) (started : h ≠ []) : Performs p s₀ s h := by
  induction h generalizing s with
  | nil => exact absurd rfl started
  | cons m h ih =>
    obtain ⟨s₁, r₁, happens⟩ := r.last
    have ok (c : Call) (hm : m = .call c) : Dutiful p s₁ h c := by
      subst hm
      exact r₁.allowed_of_call r
    by_cases begun : ∃ n, m = .call (.start n)
    · obtain ⟨n, rfl⟩ := begun
      obtain ⟨rfl, -⟩ := ok _ rfl
      cases r₁
      cases happens with
      | call word => exact set.performs opens (ok _ rfl)
    · have later : h ≠ [] := by
        rintro rfl
        cases r₁
        exact begun (happens.starts ok set.agenda nofun)
      obtain ⟨e, ballot⟩ := Run.ballot set.isAttached set.engine
        (r₁.weaken fun _ _ _ => Dutiful.considerate)
      have performs := ih r₁ computes.tail later
      by_cases unturned : m = .did .turn
      · subst unturned
        exact performs.turn set r₁ ballot.attended happens
      · exact performs.next set r₁ ballot.attended happens unturned
          (fun n hm => begun ⟨n, hm⟩) ok computes

end

end Prompter.Session

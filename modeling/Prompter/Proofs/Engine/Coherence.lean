import Prompter.Proofs.Engine.Turn

/-!
# Prompter.Proofs.Engine.Coherence

What holds of an engine whenever it is looked at, and what has become of a restart.

An engine is told to go on by `continue?`, which is only noted while a run is under way. A node that
the engine has been put at and whose start it has not reported yet (`unstarted`) is reached all the
same if the engine is on its way to a step of the script or has noted a request to go on
(`promised`). The end of a run is where this can go wrong: a note that is still there when the run
halts is never looked at again.
-/

namespace Prompter.Engine

/-- Whether the start of the node that the engine is in has not been reported. -/
def unstarted (e : Engine) : Bool := e.node.isSome && !e.nodeStarted

/-- Whether the engine is on its way to a step of the script, or has noted a request to go on. -/
def promised (e : Engine) : Bool :=
  match e.phase with
  | .settle .next | .step | .evaluate _ _ _ | .calling _ _ => true
  | .idle | .settle .wait | .settle .halt | .reported _ | .heard _ _ => e.resumeRequested

/-- Whether the run is over, or will be without another step of the script. -/
def ends (e : Engine) : Bool :=
  match e.phase with
  | .idle | .settle .halt | .heard .halt _ => true
  | _ => false

/-- What holds while a report is under way, or has just been answered. -/
def FitsUse (e : Engine) : Use → Prop
  | .leave _ _ => e.choices = none
  | .halt => e.node.isSome = true → e.nodeStarted = false
  | .plain | .choice | .close => True

/-- What holds in a phase. -/
def Fits (e : Engine) : Phase → Prop
  /- A request that is still noted when the run ends is one to start a node, or was made in none. -/
  | .idle | .settle .halt =>
    e.resumeRequested = true → e.node.isSome = true → e.nodeStarted = false
  | .settle .next | .settle .wait => True
  /- A step is begun with no request noted. -/
  | .step => e.resumeRequested = false
  | .evaluate _ _ _ | .calling _ _ =>
    e.hearer = some .dialogue ∧ e.node.isSome = true ∧ e.nodeStarted = true ∧ e.choices = none
  | .reported use | .heard use _ => e.hearer = some .dialogue ∧ e.FitsUse use

/-- What holds of an engine that the dialogue listens to. -/
structure Coherent (e : Engine) : Prop where
  listener : e.listener = some .dialogue
  /-- No choice is open at the start of a node. -/
  fresh : e.unstarted = true → e.choices = none
  fits : e.Fits e.phase

section

variable {e e' : Engine} {r : Request}

@[simp] theorem unstarted_eq_true :
    e.unstarted = true ↔ e.node.isSome = true ∧ e.nodeStarted = false := by
  simp [unstarted]

namespace Coherent

variable (c : e.Coherent)

include c

theorem fits_of_phase {p : Phase} (phase : e.phase = p) : e.Fits p := phase ▸ c.fits

/-- Nothing is performed but in a node that has been started. -/
theorem of_performing {l : Listener} (p : e.Performing l) :
    e.node.isSome = true ∧ e.nodeStarted = true ∧ e.choices = none := by
  rcases p with ⟨-, inside, free, started⟩ | ⟨purpose, focus, stack, phase, -⟩
  · exact ⟨inside, started, free⟩
  · exact (c.fits_of_phase phase).2

/-- An engine that goes on with an instruction is coherent if it fits its phase. -/
theorem goOn (index : Nat) {phase : Phase}
    (fits : (e.goOn .dialogue index phase).Fits phase) :
    (e.goOn .dialogue index phase).Coherent where
  listener := c.listener
  fresh u := c.fresh u
  fits := fits

end Coherent

/-- A turn keeps an engine coherent. -/
theorem Turned.coherent (t : Turned .dialogue e e' r) (c : e.Coherent) : e'.Coherent := by
  cases t with
  | outside phase | undecided phase =>
    have unasked : e.resumeRequested = false := c.fits_of_phase phase
    exact ⟨c.listener, c.fresh, fun asked => by simp [unasked] at asked⟩
  | chosen => exact ⟨c.listener, fun _ => rfl, trivial⟩
  | depart => exact ⟨c.listener, fun _ => rfl, rfl, rfl⟩
  | begin => exact ⟨c.listener, fun u => by simp at u, rfl, trivial⟩
  | evaluate p | call p => exact c.goOn _ ⟨rfl, c.of_performing p⟩
  | done => exact c.goOn _ trivial
  | report p index event use plain =>
    refine c.goOn index ⟨rfl, ?_⟩
    rcases plain with rfl | rfl | ⟨node, destination, rfl⟩
    · trivial
    · trivial
    · exact (c.of_performing p).2.2
  | offer p =>
    obtain ⟨-, started, -⟩ := c.of_performing p
    exact ⟨c.listener, fun u => by simp [Engine.goOn, started] at u, rfl, trivial⟩
  | again => exact ⟨c.listener, c.fresh, rfl⟩
  | pause _ unasked => exact ⟨c.listener, c.fresh, fun asked => by simp [unasked] at asked⟩
  | halt phase => exact ⟨c.listener, c.fresh, c.fits_of_phase phase⟩
  | next | wait => exact ⟨c.listener, c.fresh, trivial⟩
  | enter node destination answer phase =>
    have free : e.choices = none := (c.fits_of_phase phase).2
    exact ⟨c.listener, fun _ => free, trivial⟩
  | closed answer phase =>
    have hearer : e.hearer = some .dialogue := (c.fits_of_phase phase).1
    exact ⟨c.listener, fun u => by simp [leaveScript] at u, hearer,
      fun inside => by simp [leaveScript] at inside⟩
  | halted answer phase =>
    exact ⟨c.listener, c.fresh, fun _ => (c.fits_of_phase phase).2⟩
  | still => exact c

/-- After a turn the promise to start a node is given, or is what it was before. -/
theorem Turned.promised (t : Turned .dialogue e e' r) (c : e.Coherent)
    (unstarted : e'.unstarted = true) :
    e'.promised = true ∨
      e.unstarted = true ∧ e'.promised = e.promised ∧ (r = .again ∨ r = .rest) := by
  -- what is performed is in a node whose start has been reported
  have started {l : Listener} (p : e.Performing l) (same : e'.nodeStarted = e.nodeStarted) :
      False := by
    rw [unstarted_eq_true, same, (c.of_performing p).2.1] at unstarted
    exact Bool.noConfusion unstarted.2
  cases t with
  | outside _ out => simp [out] at unstarted
  | undecided _ _ waiting | depart _ _ waiting =>
    -- no choice can be open at the start of a node
    have free : e.choices = none := c.fresh unstarted
    simp [free] at waiting
  | begin => simp at unstarted
  | report p | offer p => exact (started p rfl).elim
  | closed => simp [leaveScript] at unstarted
  | chosen | evaluate | call | done | again | next | enter => exact .inl rfl
  | pause phase | halt phase =>
    exact .inr ⟨unstarted, by simp [Engine.promised, phase], .inr rfl⟩
  | wait phase =>
    refine .inr ⟨unstarted, ?_, .inl rfl⟩
    rcases phase with phase | ⟨answer, phase⟩ <;> simp [Engine.promised, phase]
  | halted answer phase => exact .inr ⟨unstarted, by simp [Engine.promised, phase], .inl rfl⟩
  | still => exact .inr ⟨unstarted, rfl, .inr rfl⟩

/-- Answers come from others. -/
theorem Turned.phase_ne_heard {l : Listener} (t : Turned l e e' r) (use : Use) (x : NextAction) :
    e'.phase ≠ .heard use x := by
  cases t with
  | still phase =>
    rcases phase with phase | ⟨_, phase⟩ | ⟨_, _, phase⟩ <;> simp [phase]
  | _ => simp [goOn]

/-- A turn in a run that ends leaves the rest of it as it is. -/
theorem Turned.ends {l : Listener} (t : Turned l e e' r) (ended : e.ends = true) :
    e'.ends = true ∧ e'.resumeRequested = e.resumeRequested := by
  cases t with
  | halt | halted => exact ⟨rfl, rfl⟩
  | still => exact ⟨ended, rfl⟩
  | evaluate p | call p | done p | report p | offer p =>
    rcases p with ⟨phase, -⟩ | ⟨_, _, _, phase, -⟩ <;> simp [Engine.ends, phase] at ended
  | again phase => rcases phase with phase | ⟨phase, -⟩ <;> simp [Engine.ends, phase] at ended
  | wait phase => rcases phase with phase | ⟨_, phase⟩ <;> simp [Engine.ends, phase] at ended
  | outside phase | undecided phase | chosen phase | depart phase | begin phase | pause phase
  | next phase | enter _ _ _ phase | closed _ phase =>
    simp [Engine.ends, phase] at ended

/-- A run with a request noted does not come to its end in one turn: it was ending before. -/
theorem Turned.of_ends (t : Turned .dialogue e e' r) (c : e.Coherent) (ended : e'.ends = true)
    (noted : e'.resumeRequested = true) :
    e.ends = true ∧ e.resumeRequested = true ∧ e'.node = e.node ∧ (r = .again ∨ r = .rest) := by
  cases t with
  | outside phase | undecided phase =>
    have unasked : e.resumeRequested = false := c.fits_of_phase phase
    exact Bool.noConfusion (noted.symm.trans unasked)
  | pause _ unasked => exact Bool.noConfusion (noted.symm.trans unasked)
  | halt phase => exact ⟨by simp [Engine.ends, phase], noted, rfl, .inr rfl⟩
  | halted answer phase => exact ⟨by simp [Engine.ends, phase], noted, rfl, .inl rfl⟩
  | still => exact ⟨ended, noted, rfl, .inr rfl⟩
  | _ => simp [Engine.ends, goOn] at ended

/-! ### What others do with the engine -/

/-- The engine has left the word to others. -/
def Yields (e : Engine) : Prop := e.phase = .idle ∨ ∃ use, e.phase = .reported use

namespace Coherent

variable (c : e.Coherent)

include c

theorem bound : { e with bound := true }.Coherent := ⟨c.listener, c.fresh, c.fits⟩

theorem continue? (y : e.Yields) : e.continue?.1.Coherent := by
  rcases y with phase | ⟨use, phase⟩
  · rw [e.continue?_of_idle phase]
    exact ⟨c.listener, c.fresh, rfl⟩
  · rw [e.continue?_of_reported phase]
    refine ⟨c.listener, c.fresh, ?_⟩
    simp only [phase]
    exact c.fits_of_phase phase

theorem choose (id : OptionId) : (e.choose id).1.Coherent := by
  obtain ⟨choice, same⟩ := e.choose_eq id
  rw [same]
  exact ⟨c.listener, c.fresh, c.fits⟩

theorem hear (x : NextAction) : (e.hear x).Coherent := by
  unfold Engine.hear
  split
  · next use phase => exact ⟨c.listener, c.fresh, c.fits_of_phase phase⟩
  · exact c

theorem receive (v : Value) : (e.receive v).Coherent := by
  unfold Engine.receive
  split
  · next purpose stack phase => exact ⟨c.listener, c.fresh, c.fits_of_phase phase⟩
  · exact c

theorem place (y : e.Yields) {node : String} (placed : e.place node = .ok e') : e'.Coherent := by
  rw [(place_eq_ok.1 placed).2]
  refine ⟨c.listener, fun _ => rfl, ?_⟩
  -- only what is said of the node and of its choices has changed, and both are new
  rcases y with phase | ⟨use, phase⟩
  · simp [enter, phase, Fits]
  · obtain ⟨hearer, -⟩ := c.fits_of_phase phase
    simp only [enter, phase]
    refine ⟨hearer, ?_⟩
    cases use <;> simp [FitsUse]

theorem stop (y : e.Yields) : e.stop.1.Coherent := by
  refine ⟨c.listener, fun u => by simp [Engine.stop, leaveScript] at u, ?_⟩
  rcases y with phase | ⟨use, phase⟩
  · simp [Engine.stop, leaveScript, phase, Fits]
  · obtain ⟨hearer, -⟩ := c.fits_of_phase phase
    simp only [Engine.stop, leaveScript, phase]
    refine ⟨hearer, ?_⟩
    cases use <;> simp [FitsUse]

end Coherent

end

end Prompter.Engine

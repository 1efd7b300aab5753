import Prompter.Proofs.Engine.Confinement
import Prompter.Proofs.Session.Finality

/-!
# Prompter.Proofs.Session.Confinement

The engine of a session stays on the map of a valid script, whoever listens to it and whatever the
host requests.

All that can happen to an engine is a sequence of acts, stops and placements (`Run.engine_events`).
Each of them leaves it where only nodes of the script can be reached (`Engine.Confined`).
-/

namespace Prompter.Session

open Engine (Confined)

/-- The engine is in no node or in one of the script, and so is every node whose start or end it has
reported. -/
structure StaysInside (script : Script) (s₀ s : Session) (h : History) : Prop where
  node : ∀ node, s.node? = some node → script.HasNode node
  reported : ∀ event ∈ events s₀ h, ∀ node, event.node? = some node → script.HasNode node

/-- A script is valid exactly if every jump and every destination of an option names one of its
nodes. The engine of a valid script is always in one of its nodes or in none, and reports the start
and the end of no other. -/
theorem run_confined (script : Script) : (script.dangling? = none ↔ script.IsClosed) ∧
    ∀ (allowed : Session → History → Call → Prop) (s₀ s : Session) (h : History)
      (listener : Option Listener) (bound : Bool), script.dangling? = none →
      s₀.engine = .script { script := script, listener := listener, bound := bound } →
      Run allowed s₀ s h → StaysInside script s₀ s h := by
  refine ⟨script.dangling?_eq_none, fun allowed s₀ s h listener bound valid engine r => ?_⟩
  have closed := script.dangling?_eq_none.1 valid
  have confined : Confined script { script := script, listener := listener, bound := bound } :=
    ⟨rfl, Engine.known_none, nofun, Engine.known_nil⟩
  obtain ⟨e, he, inside, reported⟩ := r.engine_events
    (motive := fun e events => e.Confined script ∧
      ∀ event ∈ events, ∀ node, event.node? = some node → script.HasNode node)
    (fun {_ _ x _} act ⟨inside, reported⟩ => by
      obtain ⟨inside, new⟩ := act.confined closed inside
      refine ⟨inside, List.forall_mem_append.2 ⟨fun event hm node about => ?_, reported⟩⟩
      exact new event (Option.mem_toList.1 hm) node (about ▸ List.mem_singleton_self _))
    (fun _ _ ⟨inside, reported⟩ => ⟨inside.stop, reported⟩)
    (fun _ _ placed ⟨inside, reported⟩ => ⟨inside.place placed, reported⟩)
    engine ⟨confined, nofun⟩
  refine ⟨fun node here => ?_, reported⟩
  rw [node?, he] at here
  exact inside.node node (here ▸ List.mem_singleton_self _)

/-- Two nodes that lead to each other. -/
def ferry : Script :=
  ⟨⟨[("A", [.options [{ text := "Cross over.", destination := some "B" }]]),
    ("B", [.jump "A"])], by decide⟩⟩

/-- The listener puts the engine at a node, makes a choice, and later one that is not on offer. The
engine crosses over and comes back, and then leaves the script. -/
theorem staysInside_of_ferry :
    ∃ s₀ s h, s₀.engine = .script { script := ferry, listener := some (.host 0) } ∧
      ferry.dangling? = none ∧ .call (.chooseOption 7) ∈ h ∧
      events s₀ h = [.dialogueEnd, .nodeEnd "A",
        .options ⟨[⟨0, ⟨"Cross over.", "Cross over.", []⟩, true⟩]⟩, .nodeStart "A",
        .nodeEnd "B", .nodeStart "B", .nodeEnd "A",
        .options ⟨[⟨0, ⟨"Cross over.", "Cross over.", []⟩, true⟩]⟩, .nodeStart "A"] ∧
      StaysInside ferry s₀ s h := by
  have r : Run (fun _ _ _ => True)
      { engine := .script { script := ferry, listener := some (.host 0) } } _ [] := .refl
  have r := (r.call rfl (.place "A") trivial).works 9
  have r := (r.call rfl .continueEngine trivial).works 9
  have r := (r.answer (.action .next) rfl).works 9
  have r := (r.call rfl (.chooseOption 0) trivial).works 9
  have r := (r.call rfl .continueEngine trivial).works 9
  have r := (r.answer (.action .wait) rfl).works 9
  -- the listener hears of the end of one node and of the start of the other, and back again
  have r := (((r.answer (.action .next) rfl).works 9).answer (.action .next) rfl).works 9
  have r := (((r.answer (.action .next) rfl).works 9).answer (.action .next) rfl).works 9
  have r := (r.answer (.action .wait) rfl).works 9
  have r := (r.call rfl (.chooseOption 7) trivial).works 9
  have r := (r.call rfl .continueEngine trivial).works 9
  have r := (((r.answer (.action .next) rfl).works 9).answer (.action .next) rfl).works 9
  refine ⟨_, _, _, rfl, rfl, ?_, ?_, (run_confined ferry).2 _ _ _ _ _ _ rfl rfl r⟩
  · exact List.mem_of_getElem? (i := 12) rfl
  · decide +kernel

end Prompter.Session

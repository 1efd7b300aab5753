import Prompter.Proofs.Engine.Prospect

/-!
# Prompter.Proofs.Engine.Confinement

An engine stays within the nodes of a valid script.

The `destinations` of an engine are all nodes that it can get to without being put there or
performing another instruction: the node that it is in, those of the options that wait for a choice,
and those that its phase keeps for later. They come from the script, and a script is valid exactly
if all that it refers to are nodes of its own (`Script.dangling?_eq_none`). So whatever is done with
the engine, they stay nodes of the script (`Act.confined`), and so do all whose start or end is
reported.
-/

namespace Prompter

/-! ### Valid scripts -/

namespace Script

variable {script : Script}

/-- Whether a script has a node. -/
def HasNode (script : Script) (node : String) : Prop := script.nodes.contains node = true

/-- Every jump and every destination of an option names a node. -/
structure IsClosed (script : Script) : Prop where
  jump {node : String} {body : List Instruction} {destination : String}
    (found : script.nodes.find? node = some body) (jumps : .jump destination ∈ body) :
    script.HasNode destination
  option {node : String} {body : List Instruction} {os : List ScriptOption} {o : ScriptOption}
    {destination : String} (found : script.nodes.find? node = some body)
    (offers : .options os ∈ body) (ho : o ∈ os) (leads : o.destination = some destination) :
    script.HasNode destination

theorem mem_references {r : DanglingReference} : r ∈ script.references ↔
    ∃ body i, script.nodes.find? r.node = some body ∧ i ∈ body ∧ r.target ∈ i.targets := by
  simp only [references, List.mem_flatMap, List.mem_map, Table.find?_eq_some]
  constructor
  · rintro ⟨⟨node, body⟩, he, i, hi, target, ht, rfl⟩
    exact ⟨body, i, he, hi, ht⟩
  · rintro ⟨body, i, he, hi, ht⟩
    exact ⟨(r.node, body), he, i, hi, r.target, ht, rfl⟩

/-- A script is valid exactly if all that it refers to are nodes of its own. -/
theorem dangling?_eq_none : script.dangling? = none ↔ script.IsClosed := by
  have all : script.dangling? = none ↔ ∀ r ∈ script.references, script.HasNode r.target := by
    simp [dangling?, HasNode]
  rw [all]
  constructor
  · intro known
    constructor
    · intro node body destination found jumps
      exact known ⟨node, destination⟩
        (mem_references.2 ⟨body, _, found, jumps, List.mem_singleton_self _⟩)
    · intro node body os o destination found offers ho leads
      exact known ⟨node, destination⟩
        (mem_references.2 ⟨body, _, found, offers, List.mem_filterMap.2 ⟨o, ho, leads⟩⟩)
  · intro closed r hr
    obtain ⟨body, i, found, hi, target⟩ := mem_references.1 hr
    cases i with
    | jump destination =>
      cases List.mem_singleton.1 target
      exact closed.jump found hi
    | options os =>
      obtain ⟨o, ho, leads⟩ := List.mem_filterMap.1 target
      exact closed.option found hi ho leads
    | line | command | set | stop => cases target

end Script

/-- The node that an event is about. -/
def Event.node? : Event → Option String
  | .nodeStart node | .nodeEnd node => some node
  | _ => none

namespace Engine

/-! ### Where an engine can get to -/

def Purpose.destinations : Purpose → List (Option String)
  | .offer _ _ _ destinations => destinations
  | .assign _ | .line _ _ _ _ => []

def Topic.destinations : Topic → List (Option String)
  | .offer destinations => destinations
  | .assign _ | .line _ _ => []

theorem destinations_topic (p : Purpose) : p.topic.destinations = p.destinations := by
  cases p <;> rfl

def Use.destinations : Use → List (Option String)
  | .leave _ destination => [some destination]
  | .plain | .choice | .close | .halt => []

/-- The nodes that a phase keeps for later. -/
def Phase.destinations : Phase → List (Option String)
  | .evaluate purpose _ _ | .calling purpose _ => purpose.destinations
  | .reported use | .heard use _ => use.destinations
  | .idle | .step | .settle _ => []

/-- Whether all nodes of a list are nodes of a script. -/
def Known (script : Script) (ds : List (Option String)) : Prop :=
  ∀ node, some node ∈ ds → script.HasNode node

/-- Whether an engine runs a script and can only get to its nodes. -/
structure Confined (script : Script) (e : Engine) : Prop where
  script_eq : e.script = script
  node : Known script [e.node]
  choices : ∀ ds, e.choices = some ds → Known script ds
  phase : Known script e.phase.destinations

/-- Whether an engine is confined after a turn, and what it reports as well. -/
structure Turn.Confined (script : Script) (t : Turn) : Prop where
  engine : t.1.Confined script
  event : ∀ event, t.2.1.event? = some event → Known script [event.node?]

variable {script : Script} {e e' : Engine} {x : Option Event}

theorem known_nil : Known script [] := fun _ hm => nomatch hm

theorem known_none : Known script [none] := fun _ hm => nomatch List.mem_singleton.1 hm

theorem known_some {node : String} : Known script [some node] ↔ script.HasNode node := by
  simp [Known]

namespace Confined

variable (c : e.Confined script)

include c

theorem goTo {phase : Phase} {rs : List Remark} (known : Known script phase.destinations) :
    Turn.Confined script (e.goTo phase rs) :=
  ⟨⟨c.script_eq, c.node, c.choices, known⟩, nofun⟩

theorem report {event : Event} {use : Use} {rs : List Remark}
    (about : Known script [event.node?]) (known : Known script use.destinations) :
    Turn.Confined script (e.report event use rs) := by
  unfold Engine.report
  cases e.hearer with
  | none => exact c.goTo known_nil
  | some l =>
    refine ⟨⟨c.script_eq, c.node, c.choices, known⟩, ?_⟩
    rintro _ ⟨⟩
    exact about

theorem leaveScript : e.leaveScript.Confined script :=
  ⟨c.script_eq, known_none, nofun, c.phase⟩

theorem enter {node : String} (known : script.HasNode node) : (e.enter node).Confined script :=
  ⟨c.script_eq, known_some.2 known, c.choices, c.phase⟩

/-! #### Turns -/

section

variable {s : Surroundings} {ph : Phase} {n : Nat} {topic : Topic} {t : Turn}

theorem serves (known : Known script topic.destinations) (serves : Serves s e ph n topic t) :
    Turn.Confined script t := by
  cases serves with
  | evaluate same =>
    rw [← same, destinations_topic] at known
    exact c.goTo known
  | call same =>
    rw [← same, destinations_topic] at known
    exact ⟨⟨c.script_eq, c.node, c.choices, known⟩, nofun⟩
  | settle => exact c.goTo known_nil
  | store => exact ⟨⟨c.script_eq, c.node, c.choices, known_nil⟩, nofun⟩
  | tell => exact c.report known_none known_nil
  | offer destinations =>
    have open_ : { e with choices := some destinations, selected := none }.Confined script := by
      refine ⟨c.script_eq, c.node, ?_, c.phase⟩
      rintro _ ⟨⟩
      exact known
    exact open_.report known_none known_nil

theorem performs (closed : script.IsClosed) {node : String} {body : List Instruction}
    (found : script.nodes.find? node = some body) {i : Instruction} (hi : i ∈ body)
    (performs : Performs s e node i t) : Turn.Confined script t := by
  have inside : script.HasNode node := Option.isSome_iff_exists.2 ⟨body, found⟩
  cases performs with
  | line serves | set serves => exact c.serves known_nil serves
  | options serves =>
    refine c.serves (fun destination hm => ?_) serves
    obtain ⟨o, ho, leads⟩ := List.mem_map.1 hm
    exact closed.option found hi ho leads
  | command => exact c.report known_none known_nil
  | jump destination =>
    exact c.report (known_some.2 inside) (known_some.2 (closed.jump found hi))
  | stop => exact c.report (known_some.2 inside) known_nil

/-- A turn leads to nodes of the script, if it refers to no others. -/
theorem ends (closed : script.IsClosed) (ends : Ends s e t) : Turn.Confined script t := by
  have keeps {phase : Phase} (same : e.phase = phase) : Known script phase.destinations :=
    same ▸ c.phase
  have moved {hearer : Option Listener} {choices : Option (List (Option String))}
      {selected : Option OptionId} {started : Bool} {index : Nat}
      (known : ∀ ds, choices = some ds → Known script ds) :
      Confined script { e with
        hearer := hearer, choices := choices, selected := selected, nodeStarted := started
        index := index } := ⟨c.script_eq, c.node, known, c.phase⟩
  have none (ds : List (Option String)) (open_ : (none : Option _) = some ds) : Known script ds :=
    nomatch open_
  have here {l : Listener} {node : String} (steps : StepsIn s e l node) :
      Known script [some node] := steps.inside ▸ c.node
  cases ends with
  | unheard | outside | undecided => exact (moved c.choices).goTo known_nil
  | chosen => exact (moved none).goTo known_nil
  | depart steps waiting made leads =>
    have listed := List.mem_of_getElem? (Option.join_eq_some_iff.1 leads)
    exact (moved none).report (here steps) (known_some.2 (c.choices _ waiting _ listed))
  | begin steps | finish steps => exact (moved c.choices).report (here steps) known_nil
  | perform steps _ _ stands performs =>
    rw [c.script_eq] at stands
    obtain ⟨body, found, at_⟩ := Option.bind_eq_some_iff.1 stands
    exact (moved c.choices).performs closed found (List.mem_of_getElem? at_) performs
  | evaluate phase serves =>
    refine c.serves ?_ serves
    rw [destinations_topic]
    exact keeps phase
  | again | pause | halt => exact ⟨⟨c.script_eq, c.node, c.choices, known_nil⟩, nofun⟩
  | next | wait | halted => exact c.goTo known_nil
  | enter phase => exact (c.enter (known_some.1 (keeps phase))).goTo known_nil
  | closed => exact c.leaveScript.report known_none known_nil
  | still => exact ⟨c, nofun⟩

end

/-! #### Whatever else is done with an engine -/

theorem stop : e.stop.1.Confined script := c.leaveScript

theorem place {node : String} {bound : Bool}
    (placed : { e with bound := bound }.place node = .ok e') : e'.Confined script := by
  obtain ⟨known, rfl⟩ := Engine.place_eq_ok.1 placed
  have known : script.HasNode node := c.script_eq ▸ known
  exact ⟨c.script_eq, known_some.2 known, nofun, c.phase⟩

end Confined

/-- Whatever is done with an engine, it stays within the nodes of a script that is valid, and
reports no others. -/
theorem Act.confined (act : Act e e' x) (closed : script.IsClosed) (c : e.Confined script) :
    e'.Confined script ∧ ∀ event, x = some event → Known script [event.node?] := by
  cases act with
  | turn s =>
    obtain ⟨engine, event⟩ := c.ends closed (e.turn_ends s)
    exact ⟨engine, event⟩
  | continue_ =>
    refine ⟨?_, nofun⟩
    unfold continue?
    split
    · exact ⟨c.script_eq, c.node, c.choices, c.phase⟩
    · exact ⟨c.script_eq, c.node, c.choices, known_nil⟩
  | choose id =>
    obtain ⟨choice, same⟩ := e.choose_eq id
    rw [same]
    exact ⟨⟨c.script_eq, c.node, c.choices, c.phase⟩, nofun⟩
  | hear x =>
    refine ⟨?_, nofun⟩
    unfold Engine.hear
    split
    · next use phase =>
      have known : Known script (Phase.reported use).destinations := phase ▸ c.phase
      exact ⟨c.script_eq, c.node, c.choices, known⟩
    · exact c
  | receive v =>
    refine ⟨?_, nofun⟩
    unfold Engine.receive
    split
    · next purpose stack phase =>
      have known : Known script (Phase.calling purpose stack).destinations := phase ▸ c.phase
      exact ⟨c.script_eq, c.node, c.choices, known⟩
    · exact c
  | equip => exact ⟨⟨c.script_eq, c.node, c.choices, c.phase⟩, nofun⟩

end Engine

end Prompter

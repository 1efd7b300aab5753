import Prompter.Session.Basic

/-!
# Prompter.Session.Work

The work of a session. `Session.step` takes the first item off the agenda and does it; what has to
wait for the host goes back on the agenda. No item needs more than one look at the state, so a
session that works is a sequence of steps.
-/

namespace Prompter.Session

def remarks (rs : List Remark) : List Output := rs.map .remark

/-- Sets the books of the dialogue. -/
def withDialogue (s : Session) (d : Dialogue) : Session := { s with dialogue := d }

@[simp] theorem withDialogue_agenda (s : Session) (d : Dialogue) :
    (s.withDialogue d).agenda = s.agenda := rfl

@[simp] theorem withDialogue_dialogue (s : Session) (d : Dialogue) :
    (s.withDialogue d).dialogue = d := rfl

@[simp] theorem withDialogue_handles (s : Session) (d : Dialogue) :
    (s.withDialogue d).handles = s.handles := rfl

@[simp] theorem withDialogue_engine (s : Session) (d : Dialogue) :
    (s.withDialogue d).engine = s.engine := rfl

def continueEngine (s : Session) : Progress :=
  match s.engine with
  | .empty => (s, [])
  | .script e =>
    let (e, begins) := e.continue?
    ({ s with engine := .script e }.push (if begins then [.turn] else []), [])
  | .host _ => (s.push [.tell .engineContinue], [])

def chooseOption (s : Session) (id : OptionId) : Progress :=
  match s.engine with
  | .empty => (s, [])
  | .script e =>
    let (e, rs) := e.choose id
    ({ s with engine := .script e }, remarks rs)
  | .host _ => (s.push [.tell (.engineSelect id)], [])

def present (s : Session) (line : LocalizedLine) : Progress :=
  let d := s.dialogue.present line
  ((s.withDialogue d).push [.broadcast .showing d.lineSerial { line with status := .running }],
    remarks [d.courseRemark s!"running line {line.id}: {line.text}"])

def broadcast (s : Session) (b : LineBroadcast) (serial : Nat) (line : LocalizedLine) : Progress :=
  let (barrier, opening, rs) := s.dialogue.barrier.start s.dialogue.slots (b.continuation serial)
  let item := match opening with
    | .immediate k => .resume k
    | .waiting generation slots => .rest b serial line generation slots
  ((s.withDialogue { s.dialogue with barrier := barrier }).push [item], remarks rs)

def broadcastRest (s : Session) (b : LineBroadcast) (serial : Nat) (line : LocalizedLine)
    (generation : Nat) (slots : List Nat) : Progress :=
  match s.dialogue.barrier.nextCall generation slots with
  | .call t slots =>
    (s.push [.tell (.view t.slot (b.notice serial line t)), .rest b serial line generation slots],
      [])
  | .superseded r => (s, remarks [r])
  | .finished => (s, [])

/-- The work of taking a line away that has just ended. -/
def dismissal (s : Session) (line : LocalizedLine) (serial : Nat) : List Item :=
  s.tellViews (.lineStatus serial line) ++ [.broadcast .removing serial line]

/-- Notes that every view has shown a line. -/
def lineShown (s : Session) (serial : Nat) : Progress :=
  match s.dialogue.deliver? serial with
  | none => (s, [])
  | some (d, line) =>
    let next := if d.settings.autoAdvance then [.closeLine serial] else []
    ((s.withDialogue d).push (s.tellViews (.lineStatus serial line) ++ next),
      remarks [Dialogue.statusRemark line])

/-- Ends a line without the player. -/
def closeLine (s : Session) (serial : Nat) : Progress :=
  match s.dialogue.closeLine? serial with
  | none => (s, [])
  | some (d, line) =>
    ((s.withDialogue d).push (s.dismissal line serial), remarks [Dialogue.statusRemark line])

/-- Notes that every view has taken a line away. -/
def lineGone (s : Session) (serial : Nat) : Progress :=
  match s.dialogue.dismiss? serial with
  | none => (s, [])
  | some d => ((s.withDialogue d).push [.continueEngine (.line serial)], [])

/-- Ends the dialogue, once. -/
def finish (s : Session) : Progress :=
  if s.dialogue.running then
    let d := s.dialogue.close
    let (barrier, rs) := d.barrier.cancel
    ((s.withDialogue { d with barrier := barrier }).push (s.tellViews .dialogueEnd),
      remarks (rs ++ [d.courseRemark "dialogue complete"]))
  else (s, remarks [⟨.debug, .dialogue, "dialogue already complete"⟩])

/-- Runs a continuation. Those of the dialogue do nothing when it no longer exists. -/
def resume (s : Session) (k : Continuation) : Progress :=
  match k with
  | .host key => (s.push [.tell (.resumed key)], [])
  | .lineShown serial => if s.exists? then (s.push [.lease]).lineShown serial else (s, [])
  | .lineGone serial => if s.exists? then (s.push [.lease]).lineGone serial else (s, [])
  | .commandDone handle =>
    (s.push (if s.exists? then [.continueEngine (.command handle), .lease] else []), [])

def resumeHandle (s : Session) (handle : Nat) : Progress :=
  match s.handles[handle]? with
  | none => (s, [])
  | some h =>
    let (h, k?, rs) := h.resume
    ({ s with handles := s.handles.set handle h }.push (k?.map Item.resume).toList, remarks rs)

/-- Sees to it that a handle is resumed when a task ends. Where no tasks are run it is resumed at
once. -/
def resumeWhenDone (s : Session) (handle : Nat) : Progress :=
  if s.runsTasks then (s, [.spawned handle])
  else
    match s.handles[handle]? with
    | none => (s, [])
    | some h =>
      let (s, outputs) := s.resumeHandle handle
      (s, .remark ⟨.error, .resumption,
        s!"command '{h.command}' needs a tokio runtime to run; resuming without it"⟩ :: outputs)

/-- Sees whether a pausing command has resumed while it was called. -/
def afterCall (s : Session) (name : String) (handle : Nat) (use : OutcomeUse) : Progress :=
  match s.handles[handle]? with
  | none => (s, [])
  | some h =>
    let (h, waits) := h.arm
    let s := { s with handles := s.handles.set handle h }
    if waits then
      (s.push [.outcome (some handle) .pause use],
        remarks [⟨.debug, .commands, s!"command '{name}' is running; dialogue paused"⟩])
    else
      (s.push [.outcome (some handle) .done use],
        remarks [⟨.debug, .commands,
          s!"command '{name}' finished during dispatch; continuing"⟩])

def newHandle (s : Session) (name : String) (k : Nat → Continuation) : Session × Nat :=
  let handle := s.handles.length
  ({ s with handles := s.handles ++ [.fresh name (k handle)] }, handle)

/-- Dispatches a command. If it pauses, its handle will run the continuation. -/
def dispatch (s : Session) (c : Command) (k : Nat → Continuation) (use : OutcomeUse) : Progress :=
  let (meaning, rs) := s.commands.resolve c
  match meaning with
  | .handler name h args =>
    if h.pausing then
      let (s, handle) := s.newHandle name k
      (s.push [.tell (.handler h.key name args (some handle)), .afterCall name handle use],
        remarks rs)
    else
      (s.push [.tell (.handler h.key name args none), .outcome none .done use], remarks rs)
  | .method m target args =>
    if m.mayPause then
      let (s, handle) := s.newHandle m.name k
      let task := if m.kind = .task then [.resumeWhenDone handle] else []
      (s.push (.tell (.method m target args (some handle)) ::
        task ++ [.afterCall m.name handle use]), remarks rs)
    else (s.push [.tell (.method m target args none), .outcome none .done use], remarks rs)
  | .refused e => (s.push [.outcome none (.failed e) use], remarks rs)
  | .unhandled =>
    match s.unhandled with
    | some key =>
      (s.push [.tell (.unhandled key c.text), .outcome none .unhandled use], remarks rs)
    | none =>
      (s.push [.outcome none .unhandled use],
        remarks (rs ++ [⟨.warn, .commands, s!"no handler for command '{c.text}'"⟩]))

def conclude (s : Session) (r : Reporter) (a : NextAction) : Progress :=
  match r, s.engine with
  | .host, _ => (s, [.reply (.action a)])
  | .engine, .script e => ({ s with engine := .script (e.hear a) }.push [.turn], [])
  | .engine, _ => (s, [])

/-- Puts the outcome of a dispatch to its use. -/
def useOutcome (s : Session) (o : DispatchOutcome) (use : OutcomeUse) : Progress :=
  match use with
  | .reply => (s, [.reply (.outcome o)])
  | .event r => s.conclude r (if o = .pause then .wait else .next)

def hear (s : Session) (r : Reporter) (e : Event) : Progress :=
  match e with
  | .line line =>
    let (line, rs) := s.dialogue.localize line
    (s.push [.present line none, .conclude r .wait], remarks rs)
  | .options set =>
    let (barrier, rs) := s.dialogue.barrier.cancel
    let (options, more) := s.dialogue.localizeOptions set.options
    let d := { s.dialogue with barrier := barrier }.openOffer options
    ((s.withDialogue d).push
        (s.tellViews (.offerOptions options d.offerSerial) ++ [.conclude r .wait]),
      remarks (rs ++ more ++ [d.courseRemark s!"offering {options.length} option(s)"]))
  | .command c => s.dispatch c .commandDone (.event r)
  | .nodeStart node =>
    (s.push (s.tellViews (.nodeStart node) ++ [.conclude r .next]),
      remarks [s.dialogue.courseRemark s!"node '{node}' started"])
  | .nodeEnd node =>
    (s.push (s.tellViews (.nodeEnd node) ++ [.conclude r .next]),
      remarks [s.dialogue.courseRemark s!"node '{node}' complete"])
  | .dialogueEnd => (s.push [.finish, .conclude r .next], [])

def store (s : Session) (name : String) (v : Value) : Progress :=
  match s.storage with
  | none => (s, [])
  | some vs =>
    match vs.set name v with
    | .ok vs => ({ s with storage := some vs }, [])
    | .error e => (s, remarks [Engine.remark .error s!"cannot set {name}: {e.message}"])

/-- Lets the engine take its turn. -/
def turn (s : Session) : Progress :=
  match s.engine with
  | .script e =>
    let (e, request, rs) := e.turn (s.surroundings e)
    let s := { s with engine := .script e }
    let (s, outputs) : Progress := match request with
      | .again => (s.push [.turn], [])
      | .rest => (s, [])
      | .report .dialogue event => (s.push [.hear .engine event], [])
      | .report (.host key) event => (s.push [.ask key event], [])
      | .invoke key args => (s.push [.invoke key args .engine], [])
      | .store name v => (s.push [.turn]).store name v
    (s, remarks rs ++ outputs)
  | _ => (s, [])

/-- Does an item that is no longer on the agenda. Calls to the host are not done here. -/
def work (s : Session) : Item → Progress
  | .telling _ | .ask _ _ | .invoke _ _ _ | .lease => (s, [])
  | .tell n => (s.push [.telling n], [])
  | .reply r => (s, [.reply r])
  | .turn => s.turn
  | .continueEngine _ => s.continueEngine
  | .chooseOption _ id => s.chooseOption id
  | .hear r e => s.hear r e
  | .conclude r a => s.conclude r a
  | .present line _ => s.present line
  | .broadcast b serial line => s.broadcast b serial line
  | .rest b serial line generation slots => s.broadcastRest b serial line generation slots
  | .resume k => s.resume k
  | .closeLine serial => s.closeLine serial
  | .finish => s.finish
  | .afterCall name handle use => s.afterCall name handle use
  | .resumeWhenDone handle => s.resumeWhenDone handle
  | .outcome _ o use => s.useOutcome o use

/-- Takes the first item off the agenda and does it, unless the host has the word. -/
def step (s : Session) : Progress :=
  if s.awaitsHost then (s, [])
  else
    match s.agenda with
    | [] => (s, [])
    | i :: agenda => { s with agenda := agenda }.work i

end Prompter.Session

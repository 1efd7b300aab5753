import Prompter.Command.Resolution
import Prompter.Dialogue
import Prompter.Engine
import Prompter.ResumeHandle

/-!
# Prompter.Session.Basic

The state of a session: a dialogue with its engine, its command tables, variables and functions, and
what it has still to do.

The views, the command handlers and the functions are the host's. A session cannot run them; it
tells the host and waits for the answer, and the host may do anything with the session before it
answers. What is left to be done after the answer stands on the *agenda*, the newest first:

* `telling`, `ask` and `invoke` are calls to the host. While one of them is first, or the agenda is
  empty, the host has the word.
* Any other item is work of the session itself, which `Session.step` takes off (`Session.Work`).

A request of the host (`Session.Call`) puts its work on top, so it is through before the call goes
on in which the host made it. No operation depends on anything but the state.

Items and notices name what they are for: a line by the serial number of its presentation, an option
set by that of its offer, a pausing command by its handle. The items that a session has done, in
their order, so tell what has led to what.
-/

namespace Prompter

/-- What a view is told. Lines come with the serial numbers of their presentations. -/
inductive ViewNotice
  | opened
  /-- Show a line, and complete the token when it is fully shown. -/
  | showLine (serial : Nat) (line : LocalizedLine) (t : Token)
  | lineStatus (serial : Nat) (line : LocalizedLine)
  /-- Take a line away, and complete the token when it is gone. -/
  | removeLine (serial : Nat) (line : LocalizedLine) (t : Token)
  /-- Show options; a choice names the serial number of their offer. -/
  | offerOptions (options : List LocalizedOption) (serial : Nat)
  | nodeStart (node : String)
  | nodeEnd (node : String)
  | dialogueEnd
deriving DecidableEq

inductive Notice
  | view (slot : Nat) (n : ViewNotice)
  /-- The host's engine is to go on. -/
  | engineContinue
  /-- The host's engine is to note the player's choice. -/
  | engineSelect (id : OptionId)
  /-- The host's engine is to halt. -/
  | engineStop
  /-- A handler is to run; a pausing one is given a handle. -/
  | handler (key : HostKey) (name : String) (args : List Argument) (handle : Option Nat)
  /-- A method is to run on a component; one that is not immediate is given a handle. -/
  | method (m : Method) (target : Component) (args : List Argument) (handle : Option Nat)
  /-- Nobody handled a command. -/
  | unhandled (key : HostKey) (text : String)
  /-- A command that the host itself dispatched has resumed. -/
  | resumed (key : HostKey)
deriving DecidableEq

/-- What the host gets back for a request. -/
inductive Reply
  | done
  | failed (e : DialogueError)
  | refused (e : CommandError)
  | action (a : NextAction)
  | outcome (o : DispatchOutcome)
  | value (v : Option Value)
deriving DecidableEq

/-- What comes out of a session while it works. -/
inductive Output
  /-- A remark for the log. -/
  | remark (r : Remark)
  /-- The host's engine was given the variables and functions. -/
  | bound
  /-- The host's engine was asked to go to the start of a node. -/
  | placed (node : String)
  /-- A task was started; the handle is to be resumed when it ends. -/
  | spawned (handle : Nat)
  /-- A request of the host is through. -/
  | reply (r : Reply)
deriving DecidableEq

/-- Who reported an event to the dialogue. -/
inductive Reporter
  | engine
  | host
deriving DecidableEq

inductive Caller
  | engine
  | host
deriving DecidableEq

inductive Cause
  | start
  /-- The line with this serial number is gone. -/
  | line (serial : Nat)
  /-- The offer with this serial number is answered. -/
  | offer (serial : Nat)
  /-- The command with this handle has resumed. -/
  | command (handle : Nat)
  /-- The host asks for it. -/
  | host
deriving DecidableEq

/-- What the outcome of a dispatch is for. -/
inductive OutcomeUse
  /-- It answers an event. -/
  | event (r : Reporter)
  /-- It is the host's reply. -/
  | reply
deriving DecidableEq

/-- The two broadcasts of a line. -/
inductive LineBroadcast
  | showing
  | removing
deriving DecidableEq

namespace LineBroadcast

/-- What a view is told in a broadcast of the line with a serial number. -/
def notice (b : LineBroadcast) (serial : Nat) (line : LocalizedLine) (t : Token) : ViewNotice :=
  match b with
  | showing => .showLine serial line t
  | removing => .removeLine serial line t

/-- What happens when every view has completed its token. -/
def continuation (b : LineBroadcast) (serial : Nat) : Continuation :=
  match b with
  | showing => .lineShown serial
  | removing => .lineGone serial

end LineBroadcast

/-- Something a session has still to do. -/
inductive Item
  /-- Tell the host something. -/
  | tell (n : Notice)
  /-- The host is being told something. -/
  | telling (n : Notice)
  /-- A listener of the host is being asked about an event. -/
  | ask (key : HostKey) (e : Event)
  /-- A function of the host is being called. -/
  | invoke (key : HostKey) (args : List Value) (caller : Caller)
  /-- A request of the host is through. -/
  | reply (r : Reply)
  /-- The dialogue is in use until here, even if the host lets go of it. -/
  | lease
  | turn
  | continueEngine (c : Cause)
  /-- Tell the engine which option of an offer was chosen. -/
  | chooseOption (serial : Nat) (id : OptionId)
  /-- Let the dialogue hear an event. -/
  | hear (r : Reporter) (e : Event)
  | conclude (r : Reporter) (a : NextAction)
  /-- Present a line, which may repeat the option that was chosen of an offer. -/
  | present (line : LocalizedLine) (offer : Option Nat)
  | broadcast (b : LineBroadcast) (serial : Nat) (line : LocalizedLine)
  /-- Call the views of a broadcast that have not been called yet. -/
  | rest (b : LineBroadcast) (serial : Nat) (line : LocalizedLine) (generation : Nat)
      (slots : List Nat)
  | resume (k : Continuation)
  /-- End a line without the player. -/
  | closeLine (serial : Nat)
  | finish
  /-- See whether a pausing command has resumed while it was called. -/
  | afterCall (name : String) (handle : Nat) (use : OutcomeUse)
  /-- Resume a handle when a task ends. -/
  | resumeWhenDone (handle : Nat)
  /-- Put the outcome of a dispatch to its use; a command that might have paused has a handle. -/
  | outcome (handle : Option Nat) (o : DispatchOutcome) (use : OutcomeUse)

/-- An engine of the host's own. It is asked about nodes without being given the word. -/
structure HostEngine where
  hasNode : String → Bool
  /-- Why the engine refuses to go to the start of a node, if it does. -/
  refusal : String → Option DialogueError

/-- What reports events to the dialogue. -/
inductive EngineSeat
  | empty
  | script (e : Engine)
  | host (e : HostEngine)

structure Session where
  engine : EngineSeat := .empty
  dialogue : Dialogue := {}
  /-- Whether the host holds the dialogue. -/
  held : Bool := true
  commands : CommandTables := {}
  /-- Who is told about commands that nobody handled. -/
  unhandled : Option HostKey := none
  /-- The variables, if there is storage for them. -/
  storage : Option Variables := none
  functions : FunctionTable := {}
  /-- The handles of pausing commands, in the order of their commands. -/
  handles : List (ResumeHandle Continuation) := []
  /-- Whether the host runs tasks. -/
  runsTasks : Bool := false
  agenda : List Item := []

/-- A state and what came out on the way to it. -/
abbrev Session.Progress := Session × List Output

namespace Session

/-- Whether an item keeps the dialogue in use. -/
def isLease : Item → Bool
  | .lease => true
  | _ => false

/-- Whether the engine is telling the dialogue about a step. -/
def engineHears (s : Session) : Bool :=
  match s.engine with
  | .script e => e.hearer = some .dialogue
  | _ => false

/-- Whether the dialogue still exists: somebody holds it or is using it. -/
def exists? (s : Session) : Bool := s.held || s.engineHears || s.agenda.any isLease

/-- Puts work on top of the agenda. -/
def push (s : Session) (items : List Item) : Session := { s with agenda := items ++ s.agenda }

@[simp] theorem push_agenda (s : Session) (items : List Item) :
    (s.push items).agenda = items ++ s.agenda := rfl

@[simp] theorem push_dialogue (s : Session) (items : List Item) :
    (s.push items).dialogue = s.dialogue := rfl

@[simp] theorem push_handles (s : Session) (items : List Item) :
    (s.push items).handles = s.handles := rfl

@[simp] theorem push_engine (s : Session) (items : List Item) :
    (s.push items).engine = s.engine := rfl

/-- Whether the host has the word. -/
def awaitsHost (s : Session) : Bool :=
  match s.agenda with
  | [] | .telling _ :: _ | .ask _ _ :: _ | .invoke _ _ _ :: _ => true
  | _ => false

/-- The work of telling every view something. -/
def tellViews (s : Session) (n : ViewNotice) : List Item :=
  s.dialogue.views.map fun slot => .tell (.view slot n)

@[simp] theorem tellViews_push (s : Session) (items : List Item) (n : ViewNotice) :
    (s.push items).tellViews n = s.tellViews n := rfl

def node? (s : Session) : Option String :=
  match s.engine with
  | .script e => e.node
  | _ => none

def hasNode (s : Session) (node : String) : Bool :=
  match s.engine with
  | .empty => false
  | .script e => e.hasNode node
  | .host e => e.hasNode node

/-- What an engine finds around it. -/
def surroundings (s : Session) (e : Engine) : Engine.Surroundings :=
  ⟨if e.bound then s.storage.map (⟨·, s.functions⟩) else none,
    match e.listener with
    | some .dialogue => if s.exists? then some .dialogue else none
    | l => l⟩

end Session

end Prompter

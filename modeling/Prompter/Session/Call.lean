import Prompter.Session.Work

/-!
# Prompter.Session.Call

The requests that a host makes of a session, and its answers to the calls it gets.

A request may be made whenever the host has the word, also while a view, a handler or a function is
being called. One that fails changes nothing and is replied to at once. One that takes time leaves
its work on the agenda, with the reply as the last of it.
-/

namespace Prompter

inductive Call
  /-- Start the dialogue, at the node of the settings unless one is named. -/
  | start (node : Option String)
  | stop
  /-- The player wants to get past the line. -/
  | proceed
  /-- Tell the dialogue about an event, in the place of an engine. -/
  | deliver (e : Event)
  | select (serial : Nat) (id : OptionId)
  | complete (t : Token)
  | resume (handle : Nat)
  /-- Resume a pausing command when a task ends. -/
  | resumeWhenDone (handle : Nat)
  /-- Dispatch a command; if it pauses, the host is told under the key when it resumes. -/
  | dispatch (c : Command) (key : HostKey)
  | function (name : String) (args : List Value)
  | continueEngine
  | chooseOption (id : OptionId)
  /-- Put the engine at the start of a node. -/
  | place (node : String)
  | stopEngine
  /-- Give the engine the variables and functions. -/
  | bind
  /-- Let a listener hear the events of the engine. -/
  | attach (l : Listener)
  /-- Let a listener of the host go. -/
  | detach (key : HostKey)
  /-- Let the dialogue go. -/
  | release
  | register (name : String) (h : Handler)
  | unregister (name : String)
  /-- Be told about commands that nobody handled. -/
  | listen (key : HostKey)
  | addFunction (name : String) (f : ScriptFunction)
  | removeFunction (name : String)
  | setVariable (name : String) (v : Value)
  | clearVariables
  /-- Look entities up elsewhere. -/
  | resolveWith (r : EntityResolver)

inductive Answer
  /-- The host has done what it was told. -/
  | heard
  /-- What the engine should do after an event. -/
  | action (a : NextAction)
  /-- The value of a function. -/
  | value (v : Value)
deriving DecidableEq

namespace Session

def fail (s : Session) (e : DialogueError) (rs : List Remark) : Progress :=
  (s, remarks rs ++ [.reply (.failed e)])

/-- Binds the engine to the variables and functions and puts it at the start of a node. -/
def bindAndPlace (s : Session) (node : String) : Session × List Output × Option DialogueError :=
  match s.engine with
  | .empty => (s, [], some (.unknownNode node))
  | .script e =>
    match { e with bound := true }.place node with
    | .ok e => ({ s with engine := .script e }, [], none)
    | .error err => ({ s with engine := .script { e with bound := true } }, [], some err)
  | .host e => (s, [.bound, .placed node], e.refusal node)

def startAt (s : Session) (node : String) : Progress :=
  match s.dialogue.startError? s.storage.isSome (s.hasNode node) node with
  | some e => s.fail e [Dialogue.startRemark e]
  | none =>
    match s.bindAndPlace node with
    | (s, outputs, some e) => (s, outputs ++ [.reply (.failed e)])
    | (s, outputs, none) =>
      let d := { s.dialogue with running := true }
      ((s.withDialogue d).push
          (s.tellViews .opened ++ [.continueEngine .start, .lease, .reply .done]),
        outputs ++ remarks [d.courseRemark s!"dialogue started at node '{node}'"])

def start (s : Session) (node : Option String) : Progress :=
  match node.or s.dialogue.settings.startNode with
  | some node => s.startAt node
  | none => s.fail (.settings "no start node configured") []

/-- Ends the dialogue if it is running. -/
def stop (s : Session) : Progress :=
  if s.dialogue.running then
    let last : List Item := [.finish, .lease, .reply .done]
    match s.engine with
    | .empty => (s.push last, [])
    | .script e =>
      let (e, rs) := e.stop
      ({ s with engine := .script e }.push last, remarks rs)
    | .host _ => (s.push (.tell .engineStop :: last), [])
  else (s, [.reply .done])

def proceed (s : Session) : Progress :=
  match s.dialogue.proceed? with
  | none =>
    let e := .misuse "proceed requested with no line being presented"
    s.fail e [Dialogue.misuseRemark e]
  | some (d, line, effect) =>
    let last : List Item := [.lease, .reply .done]
    let s := s.withDialogue d
    match effect with
    | .interrupt =>
      (s.push (s.tellViews (.lineStatus d.lineSerial line) ++ last),
        remarks [Dialogue.statusRemark line])
    | .dismiss =>
      (s.push (s.dismissal line d.lineSerial ++ last), remarks [Dialogue.statusRemark line])
    | .ignored =>
      (s, remarks [⟨.debug, .dialogue,
        s!"line {line.id} already ended; ignoring proceed"⟩] ++ [.reply .done])

def select (s : Session) (serial : Nat) (id : OptionId) : Progress :=
  if !s.exists? then s.fail (.misuse "dialogue no longer exists") []
  else
    match s.dialogue.choose serial id with
    | .error e =>
      s.fail e [⟨.warn, .dialogue, s!"rejected selection: {e.message}"⟩]
    | .ok (d, o) =>
      let next : Item :=
        if d.settings.echoChoice then .present o.line (some serial)
        else .continueEngine (.offer serial)
      ((s.withDialogue d).push [.chooseOption serial id, next, .lease, .reply .done],
        remarks [d.courseRemark s!"option {id} selected"])

def complete (s : Session) (t : Token) : Progress :=
  if !s.exists? then (s, [.reply .done])
  else
    let (barrier, k?, rs) := s.dialogue.barrier.complete t
    ((s.withDialogue { s.dialogue with barrier := barrier }).push
      ((k?.map Item.resume).toList ++ [.reply .done]), remarks rs)

def callFunction (s : Session) (name : String) (args : List Value) : Progress :=
  match s.functions.find? name args.length with
  | (none, rs) => (s, remarks rs ++ [.reply (.value none)])
  | (some f, rs) => (s.push [.invoke f.key args .host], remarks rs)

/-- Changes the engine that runs a script, if there is one. -/
def mapEngine (s : Session) (f : Engine → Engine) : Session :=
  match s.engine with
  | .script e => { s with engine := .script (f e) }
  | _ => s

/-- Puts the engine that runs a script at the start of a node. -/
def place (s : Session) (node : String) : Progress :=
  match s.engine with
  | .script e =>
    match e.place node with
    | .ok e => ({ s with engine := .script e }, [.reply .done])
    | .error err => (s, [.reply (.failed err)])
  | _ => (s, [.reply .done])

def stopEngine (s : Session) : Progress :=
  match s.engine with
  | .script e =>
    let (e, rs) := e.stop
    ({ s with engine := .script e }, remarks rs ++ [.reply .done])
  | _ => (s, [.reply .done])

/-- Lets a listener of the host go. An engine that is telling it about a step goes through with
that. -/
def detach (s : Session) (key : HostKey) : Session :=
  s.mapEngine fun e =>
    if e.listener = some (.host key) then { e with listener := none } else e

def call (s : Session) : Call → Progress
  | .start node => s.start node
  | .stop => s.stop
  | .proceed => s.proceed
  | .deliver e => (s.push [.hear .host e, .lease], [])
  | .select serial id => s.select serial id
  | .complete t => s.complete t
  | .resume handle => (s.push [.reply .done]).resumeHandle handle
  | .resumeWhenDone handle => (s.push [.reply .done]).resumeWhenDone handle
  | .dispatch c key => (s.push [.lease]).dispatch c (fun _ => .host key) .reply
  | .function name args => s.callFunction name args
  | .continueEngine => (s.push [.continueEngine .host, .reply .done], [])
  | .chooseOption id => (s.push [.reply .done]).chooseOption id
  | .place node => s.place node
  | .stopEngine => s.stopEngine
  | .bind => (s.mapEngine fun e => { e with bound := true }, [.reply .done])
  | .attach l => (s.mapEngine fun e => { e with listener := some l }, [.reply .done])
  | .detach key => (s.detach key, [.reply .done])
  | .release => ({ s with held := false }, [.reply .done])
  | .register name h =>
    match s.commands.handlers.register name h with
    | (.ok r, rs) => ({ s with commands.handlers := r }, remarks rs ++ [.reply .done])
    | (.error e, rs) => (s, remarks rs ++ [.reply (.refused e)])
  | .unregister name =>
    let (r, rs) := s.commands.handlers.unregister name
    ({ s with commands.handlers := r }, remarks rs ++ [.reply .done])
  | .listen key => ({ s with unhandled := some key }, [.reply .done])
  | .addFunction name f =>
    match s.functions.register name f with
    | (.ok l, rs) => ({ s with functions := l }, remarks rs ++ [.reply .done])
    | (.error e, rs) => (s, remarks rs ++ [.reply (.refused e)])
  | .removeFunction name => ({ s with functions := s.functions.unregister name }, [.reply .done])
  | .setVariable name v =>
    match s.storage with
    | none => (s, [.reply .done])
    | some vs =>
      match vs.set name v with
      | .ok vs => ({ s with storage := some vs }, [.reply .done])
      | .error e => (s, [.reply (.failed e)])
  | .clearVariables => ({ s with storage := s.storage.map fun _ => {} }, [.reply .done])
  | .resolveWith r => ({ s with commands.resolver := some r }, [.reply .done])

/-- Takes the host's answer to the call that is first on the agenda. -/
def answer (s : Session) (a : Answer) : Progress :=
  match s.agenda, a with
  | .telling _ :: agenda, .heard => ({ s with agenda := agenda }, [])
  | .ask _ _ :: agenda, .action a => { s with agenda := agenda }.conclude .engine a
  | .invoke _ _ .engine :: agenda, .value v =>
    ({ s with agenda := .turn :: agenda }.mapEngine fun e => e.receive v, [])
  | .invoke _ _ .host :: agenda, .value v =>
    ({ s with agenda := agenda }, [.reply (.value (some v))])
  | _, _ => (s, [])

end Session

end Prompter

import Prompter.Console.Clock
import Prompter.Console.Folder
import Prompter.Console.Request
import Prompter.Script.Form
import Prompter.Session.Call

/-!
# Prompter.Console.Player

The host that plays a script on a console. It has one view, which prints a line and completes it
after a moment, and which answers options with the first one that is available. Scripts find the
command `wait seconds` and the function `inc`; any other command is printed.

`Player.step` does a little at a time and says what is to be written and how long to sleep. The
program around it only carries that out.
-/

namespace Prompter.Console

/-- What a player does when a moment has passed. -/
inductive Alarm
  | complete (t : Token)
  | resume (handle : Nat)
  | select (serial : Nat) (id : OptionId)
deriving DecidableEq

structure Player where
  session : Session
  verbosity : Verbosity
  /-- The alarms that are set, each with the nanoseconds until it is due. -/
  alarms : List (Nat × Alarm) := []
  /-- Whether an alarm has gone off. From then on a task plays the script. -/
  inTask : Bool := false
  /-- The exit code, when the player is through. -/
  exitCode : Option Nat := none

/-- What a reader is told when a script cannot be played. -/
def failure (reason : String) : List Effect :=
  [.err "Error: Player mode failed", .err s!"Reason: {reason}"]

namespace Player

/-- The time it takes to show a line. -/
def lineTime : Nat := 400000000

/-- What is written for an output of the session. -/
def effectsOf (v : Verbosity) : Output → List Effect
  | .remark r => if v.least.shows r.level then [.err r.shown] else []
  | .reply (.failed e) => [.err s!"Error: {e.message}"]
  | _ => []

/-- Takes over what the session has done. -/
def absorb (p : Player) (progress : Session.Progress) : Player × List Effect :=
  ({ p with session := progress.1 }, progress.2.flatMap (effectsOf p.verbosity))

def setAlarm (p : Player) (nanoseconds : Nat) (a : Alarm) : Player :=
  { p with alarms := p.alarms ++ [(nanoseconds, a)] }

/-- Tells the session that a call is through. -/
def answer (p : Player) (a : Answer) : Player := { p with session := (p.session.answer a).1 }

/-- How options are printed. -/
def optionLine (o : LocalizedOption) : Effect :=
  let mark := if o.available then " " else "x"
  .out s!"  [{mark}] {o.id + 1}. {o.line.text}"

def view (p : Player) : ViewNotice → Player × List Effect
  | .showLine _ line t =>
    let text := match line.speaker? with
      | some speaker => s!"{speaker}: {line.body}"
      | none => line.text
    ((p.answer .heard).setAlarm lineTime (.complete t), [.out text])
  | .removeLine _ _ t =>
    let p := p.answer .heard
    p.absorb (p.session.call (.complete t))
  | .offerOptions options serial =>
    let p := p.answer .heard
    match options.find? (·.available) with
    | none => (p, options.map optionLine ++ [.err "Error: No available option"])
    | some o =>
      (p.setAlarm 0 (.select serial o.id), options.map optionLine ++ [.out s!"> {o.id + 1}"])
  | .nodeStart node => (p.answer .heard, [.out s!"=== {node} ==="])
  | .dialogueEnd => (p.answer .heard, [.out "[END]"])
  | .opened | .lineStatus _ _ | .nodeEnd _ => (p.answer .heard, [])

/-- What is left when the player breaks off: nothing, unless a task was playing. Then only the work
of the task is lost, and the dialogue is left waiting for it. -/
def breakOff (p : Player) : Player :=
  if p.inTask then { p with session.agenda := [] } else { p with exitCode := some 101 }

/-- The handler of `wait`. A wait that no clock can hold breaks the player off. -/
def wait (p : Player) (args : List Argument) (handle : Nat) : Player × List Effect :=
  let seconds := waitingTime ((args.head?.bind (·.float?)).getD 0)
  match duration? seconds with
  | some nanoseconds => ((p.answer .heard).setAlarm nanoseconds (.resume handle), [])
  | none =>
    (p.breakOff,
      [.err "cannot convert float seconds to Duration: value is either too big or NaN"])

/-- The function `inc`. -/
def increment (args : List Value) : Value :=
  .number ((args.head?.bind (·.number?)).getD 0 + 1)

/-- The alarm that is due first, and the others. -/
def nextAlarm? : List (Nat × Alarm) → Option ((Nat × Alarm) × List (Nat × Alarm))
  | [] => none
  | a :: as =>
    match nextAlarm? as with
    | none => some (a, [])
    | some (first, rest) => if a.1 ≤ first.1 then some (a, as) else some (first, a :: rest)

/-- The request that an alarm stands for. -/
def Alarm.call : Alarm → Call
  | .complete t => .complete t
  | .resume handle => .resume handle
  | .select serial id => .select serial id

/-- Waits for the next alarm. When the dialogue is over the player is through. -/
def pass (p : Player) : Player × List Effect :=
  if !p.session.dialogue.running then ({ p with exitCode := some 0 }, [])
  else
    match nextAlarm? p.alarms with
    | none => (p, [])
    | some ((time, a), rest) =>
      let p := { p with
        alarms := rest.map fun (due, later) => (due - time, later)
        inTask := true }
      let (p, effects) := p.absorb (p.session.call (Alarm.call a))
      (p, .sleep time :: effects)

/-- Whether nothing will ever happen again. -/
def isStuck (p : Player) : Bool :=
  p.exitCode.isNone && p.session.agenda.isEmpty && p.session.dialogue.running && p.alarms.isEmpty

/-- Does what is next. -/
def step (p : Player) : Player × List Effect :=
  match p.session.agenda with
  | [] => p.pass
  | .telling (.view _ n) :: _ => p.view n
  | .telling (.handler _ _ args (some handle)) :: _ => p.wait args handle
  | .telling (.unhandled _ text) :: _ => (p.answer .heard, [.out s!"(command: {text})"])
  | .telling _ :: _ => (p.answer .heard, [])
  | .ask _ _ :: _ => (p.answer (.action .next), [])
  | .invoke _ args _ :: _ => (p.answer (.value (increment args)), [])
  | _ => p.absorb p.session.step

/-- The session of a script before it starts. -/
def opening (script : Script) (debug : Bool) : Session :=
  { engine := .script { script := script, listener := some .dialogue }
    dialogue := { settings := { autoAdvance := true, verbose := debug }, slots := [true] }
    storage := some {}
    runsTasks := true }

/-- Makes requests one after the other. -/
def request (p : Player) : List Call → Player × List Effect
  | [] => (p, [])
  | c :: cs =>
    let (p, effects) := p.absorb (p.session.call c)
    let (p, more) := p.request cs
    (p, effects ++ more)

/-- A player that begins to play a script. -/
def start (script : Script) (debug : Bool) (v : Verbosity) : Player × List Effect :=
  let p : Player := { session := opening script debug, verbosity := v }
  let (p, effects) := p.request
    [.register "wait" ⟨[⟨.float, false⟩], true, 0⟩, .addFunction "inc" ⟨1, 0⟩, .listen 0]
  let (s, outputs) := p.session.call (.start none)
  match outputs.getLast? with
  | some (.reply (.failed e)) =>
    ({ p with exitCode := some 1 },
      effects ++ outputs.dropLast.flatMap (effectsOf v) ++ failure e.message)
  | _ => ({ p with session := s }, effects ++ outputs.flatMap (effectsOf v))

/-- A player for the text of a script file, or for the reason why there is none. -/
def ofFile (file : String) (debug : Bool) (environment : Option String)
    (contents : Except ReadFailure String) : Player × List Effect :=
  let v := Verbosity.ofEnvironment environment
  let v := { v with enabled := v.enabled || debug }
  let failed (reason : String) : Player × List Effect :=
    ({ session := {}, verbosity := v, exitCode := some 1 }, failure reason)
  match contents with
  | .error reason => failed s!"failed to read script {file}: {reason.message}"
  | .ok source =>
    match Script.ofJson source with
    | .error flaw => failed flaw.message
    | .ok script => start script debug v

end Player

end Prompter.Console

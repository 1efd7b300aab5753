import Prompter.Console.Program
import Prompter.Proofs.Command.Arguments
import Prompter.Proofs.Console.Duration
import Prompter.Proofs.Session.Heeding

/-!
# Prompter.Proofs.Console.Waiting

What a player does about the command `wait`.

The handler of `wait` is the only one that a player has, and whenever it is called a command of the
script has called it (`Plays.heeds`). So it waits for the number that the only word of the command
reads as, if this is finite and positive, or not at all. The handler does not look at the size of
the number: from `2 ^ 64` seconds on there is no duration of it, and the player breaks off
(`plays_waiting`).
-/

namespace Prompter.Console

open Session (Heeds)

variable {script : Script} {debug : Bool} {v : Verbosity} {p : Player}

/-! ### The command -/

/-- The handler of `wait`: it takes a number, and the script waits for it. -/
def waitHandler : Handler := ⟨[⟨.float, false⟩], true, 0⟩

/-- The tables in which a player looks commands up. -/
def playerTables : CommandTables := { handlers := ⟨Table.empty.insert "wait" waitHandler⟩ }

/-- A script says somewhere to wait for a number. -/
def SaysToWait (script : Script) (x : Float) : Prop :=
  ∃ c word, script.Says c ∧ c.words = ["wait", word] ∧ Number.readDouble? word.toList = some x

theorem words_of_means {c : Command} {name : String} {h : Handler} {args : List Argument}
    (means : playerTables.Means c (.handler name h args)) :
    h = waitHandler ∧ ∃ word x, c.words = ["wait", word] ∧
      Number.readDouble? word.toList = some x ∧ args = [.float x] := by
  cases means with
  | @handler _ words _ _ spelled registered read =>
    have found : (Table.empty.insert "wait" waitHandler).find? name = some h := registered
    rw [Table.find?_insert] at found
    split at found
    · next named =>
      cases found
      obtain ⟨enough, few, converted⟩ := readArguments_eq_ok.1 read
      obtain ⟨word, rfl⟩ : ∃ word, words = [word] :=
        List.length_eq_one_iff.1 (Nat.le_antisymm few enough)
      obtain ⟨a, others, made, rest, rfl⟩ := convertAll_cons_eq_ok.1 converted
      obtain ⟨x, reads, rfl⟩ : ∃ x, Number.readDouble? word.toList = some x ∧ .float x = a := by
        simpa [Parameter.argument?, ParameterKind.convert] using made
      cases rest
      exact ⟨rfl, word, x, named ▸ spelled, reads, rfl⟩
    · cases found

theorem calledFor_wait {key : HostKey} {name : String} {args : List Argument}
    {handle : Option Nat} (called : Session.CalledFor script playerTables key name args handle) :
    ∃ x, SaysToWait script x ∧ args = [.float x] := by
  obtain ⟨c, h, said, means, -, -⟩ := called
  obtain ⟨-, word, x, spelled, reads, rfl⟩ := words_of_means means
  exact ⟨x, ⟨c, word, said, spelled, reads⟩, rfl⟩

/-! ### Playing -/

/-- What a player that begins to play a script can get to. -/
inductive Plays (script : Script) (debug : Bool) (v : Verbosity) : Player → Prop
  | start : Plays script debug v (Player.start script debug v).1
  | step {p : Player} (plays : Plays script debug v p) (on : p.exitCode = none) :
      Plays script debug v p.step.1

namespace Player

/-- What a step does to the session of a player. -/
inductive Plies (s : Session) : Session → Prop
  | rests : Plies s s
  | works : Plies s s.step.1
  | answers (x : Answer) : Plies s (s.answer x).1
  | alarmed (a : Alarm) : Plies s (s.call (Alarm.call a)).1
  | removed (x : Answer) (t : Token) : Plies s ((s.answer x).1.call (.complete t)).1
  | broken : Plies s { s with agenda := [] }

theorem view_plies (p : Player) (n : ViewNotice) : Plies p.session (p.view n).1.session := by
  cases n with
  | removeLine serial line t => exact .removed .heard t
  | offerOptions options serial =>
    simp only [view]
    split <;> exact .answers .heard
  | _ => exact .answers .heard

theorem wait_plies (p : Player) (args : List Argument) (handle : Nat) :
    Plies p.session (p.wait args handle).1.session := by
  unfold wait
  dsimp only
  split
  · exact .answers .heard
  · unfold breakOff
    split
    · exact .broken
    · exact .rests

theorem pass_plies (p : Player) : Plies p.session p.pass.1.session := by
  unfold pass
  split
  · exact .rests
  · split
    · exact .rests
    · next time a rest next => exact .alarmed a

theorem step_plies (p : Player) : Plies p.session p.step.1.session := by
  unfold step
  split
  · exact p.pass_plies
  · exact p.view_plies _
  · exact p.wait_plies _ _
  · exact .answers _
  · exact .answers _
  · exact .answers _
  · exact .answers _
  · exact .works

theorem Plies.heeds {s s' : Session} (plies : Plies s s') (heeds : Heeds script playerTables s) :
    Heeds script playerTables s' := by
  cases plies with
  | rests => exact heeds
  | works => exact heeds.step
  | answers x => exact heeds.answer x
  | alarmed a =>
    cases a with
    | complete | resume | select => exact heeds.call rfl rfl rfl
  | removed x t => exact (heeds.answer x).call rfl rfl rfl
  | broken => exact heeds.of_fewer (by simp)

end Player

/-- The session of a player that is about to start the dialogue. -/
def ready (script : Script) (debug : Bool) : Session :=
  { Player.opening script debug with
    commands := playerTables
    functions := ⟨Table.empty.insert "inc" ⟨1, 0⟩⟩
    unhandled := some 0 }

/-- A player starts its dialogue, or is through. -/
theorem start_cases (script : Script) (debug : Bool) (v : Verbosity) :
    (Player.start script debug v).1.session = ((ready script debug).call (.start none)).1 ∧
      (Player.start script debug v).1.exitCode = none ∨
    (Player.start script debug v).1.session = ready script debug ∧
      (Player.start script debug v).1.exitCode = some 1 := by
  unfold Player.start
  dsimp only
  split
  · exact .inr ⟨rfl, rfl⟩
  · exact .inl ⟨rfl, rfl⟩

/-- A player starts with the handler of `wait` alone, and with nothing heard. -/
theorem start_heeds (script : Script) (debug : Bool) (v : Verbosity) :
    Heeds script playerTables (Player.start script debug v).1.session := by
  have ready : Heeds script playerTables (ready script debug) :=
    ⟨rfl, ⟨_, rfl, rfl⟩, fun i mem => nomatch mem⟩
  obtain ⟨same, -⟩ | ⟨same, -⟩ := start_cases script debug v
  · exact same ▸ ready.start none
  · exact same ▸ ready

theorem Plays.heeds (plays : Plays script debug v p) : Heeds script playerTables p.session := by
  induction plays with
  | start => exact start_heeds script debug v
  | @step p _ _ ih => exact p.step_plies.heeds ih

/-! ### Waiting -/

/-- What a player does when the handler of `wait` is called for a number of seconds. -/
structure Waits (p : Player) (x : Float) (handle : Nat) : Prop where
  /-- The seconds that it waits for are never negative, and never infinite or not a number. -/
  finite : (Number.doublePattern (waitingTime x)).2 < Number.binary64.infinity
  nonneg : (Number.doublePattern (waitingTime x)).1 = false
  /-- A clock can hold them unless the number is finite and too large. -/
  holds : Holds (waitingTime x) ↔ ¬ Overlong x
  /-- Then the script is resumed after that time, -/
  short : ¬ Overlong x → ∃ nanoseconds, duration? (waitingTime x) = some nanoseconds ∧
    p.step.1 = (p.answer .heard).setAlarm nanoseconds (.resume handle)
  /-- and otherwise the player breaks off. -/
  long : Overlong x → p.step.1 = p.breakOff

/-- What a player does about the command `wait`. -/
structure WaitsAsTold (script : Script) (p : Player) : Prop where
  /-- When the handler is called, it is for a number that the script says to wait for. -/
  called (key : HostKey) (name : String) (args : List Argument) (handle : Nat) (rest : List Item)
    (top : p.session.agenda = .telling (.handler key name args (some handle)) :: rest) :
    ∃ x, SaysToWait script x ∧ args = [.float x] ∧ Waits p x handle
  /-- If the script does not say to wait too long, the program never breaks off. -/
  safe (short : ∀ x, SaysToWait script x → ¬ Overlong x) : p.exitCode ≠ some 101

theorem step_of_called {key : HostKey} {name : String} {args : List Argument} {handle : Nat}
    {rest : List Item}
    (top : p.session.agenda = .telling (.handler key name args (some handle)) :: rest) :
    p.step = p.wait args handle := by
  simp [Player.step, top]

theorem waits_of_called {key : HostKey} {name : String} {x : Float} {handle : Nat}
    {rest : List Item}
    (top : p.session.agenda = .telling (.handler key name [.float x] (some handle)) :: rest) :
    Waits p x handle := by
  have seconds : ((([Argument.float x] : List Argument).head?.bind (·.float?)).getD 0) = x := rfl
  refine ⟨(waitingTime_finite x).1, (waitingTime_finite x).2, holds_waitingTime x,
    fun short => ?_, fun long => ?_⟩
  · obtain ⟨nanoseconds, lasts⟩ := Option.isSome_iff_exists.1
      ((duration?_isSome _).2 ((holds_waitingTime x).2 short))
    refine ⟨nanoseconds, lasts, ?_⟩
    simp only [step_of_called top, Player.wait, seconds, lasts]
  · have none : duration? (waitingTime x) = none := by
      rw [← Option.not_isSome_iff_eq_none, duration?_isSome, holds_waitingTime]
      exact not_not_intro long
    simp only [step_of_called top, Player.wait, seconds, none]

/-- Only the handler of `wait` breaks a player off. -/
theorem exitCode_step (on : p.exitCode = none)
    (uncalled : ∀ key name args handle rest,
      p.session.agenda ≠ .telling (.handler key name args (some handle)) :: rest) :
    p.step.1.exitCode ≠ some 101 := by
  have keeps {code : Option Nat} (same : code = p.exitCode) : code ≠ some 101 := by
    rw [same, on]
    nofun
  unfold Player.step
  split
  · unfold Player.pass
    split
    · simp
    · split <;> exact keeps rfl
  · next n _ _ =>
    refine keeps ?_
    cases n with
    | offerOptions options serial =>
      simp only [Player.view]
      split <;> rfl
    | _ => rfl
  · next top => exact absurd top (uncalled _ _ _ _ _)
  all_goals exact keeps rfl

theorem Plays.called (plays : Plays script debug v p) {key : HostKey} {name : String}
    {args : List Argument} {handle : Nat} {rest : List Item}
    (top : p.session.agenda = .telling (.handler key name args (some handle)) :: rest) :
    ∃ x, SaysToWait script x ∧ args = [.float x] ∧ Waits p x handle := by
  have why : Session.CalledFor script playerTables key name args (some handle) :=
    plays.heeds.items (.telling (.handler key name args (some handle))) (top ▸ List.mem_cons_self)
  obtain ⟨x, said, rfl⟩ := calledFor_wait why
  exact ⟨x, said, rfl, waits_of_called top⟩

theorem Plays.exitCode_ne (plays : Plays script debug v p)
    (short : ∀ x, SaysToWait script x → ¬ Overlong x) : p.exitCode ≠ some 101 := by
  cases plays with
  | start =>
    obtain ⟨-, code⟩ | ⟨-, code⟩ := start_cases script debug v <;> rw [code] <;> nofun
  | @step p plays on =>
    by_cases called : ∃ key name args handle rest,
        p.session.agenda = .telling (.handler key name args (some handle)) :: rest
    · obtain ⟨key, name, args, handle, rest, top⟩ := called
      obtain ⟨x, said, -, waits⟩ := plays.called top
      obtain ⟨nanoseconds, -, same⟩ := waits.short (short x said)
      rw [same]
      exact fun broken => by cases on.symm.trans broken
    · exact exitCode_step on fun key name args handle rest top =>
        called ⟨key, name, args, handle, rest, top⟩

/-- The handler of `wait` is called only for a number that the script says to wait for. It waits for
that long if the number is positive and finite, and not at all if it is neither; but a finite number
of `2 ^ 64` or more, for which there is no duration, makes it break the player off. -/
theorem plays_waiting (plays : Plays script debug v p) : WaitsAsTold script p where
  called _ _ _ _ _ top := plays.called top
  safe := plays.exitCode_ne

/-- A player after some steps, unless it is through before that. -/
def Player.after : Nat → Player → Player
  | 0, p => p
  | n + 1, p => if p.exitCode.isSome then p else p.step.1.after n

theorem Plays.after (plays : Plays script debug v p) (n : Nat) :
    Plays script debug v (p.after n) := by
  induction n generalizing p with
  | zero => exact plays
  | succ n ih =>
    unfold Player.after
    split
    · exact plays
    · next on => exact ih (plays.step (by simpa using on))

def quietly : Verbosity := Verbosity.ofEnvironment none

/-- A script that waits for a number of seconds. -/
def pausing (word : String) : Script :=
  ⟨⟨[("Start", [.command ("wait " ++ word)])], List.pairwise_singleton _ _⟩⟩

/-- A player that has come to the wait. -/
def poised (word : String) : Player := (Player.start (pausing word) false quietly).1.after 13

/-- A wait of two seconds. -/
theorem waitsAsTold_two :
    (poised "2").session.agenda.head? = some (.telling (.handler 0 "wait"
        [.float (Number.double false 0x4000000000000000)] (some 0))) ∧
      (poised "2").step.1.alarms = [(2000000000, .resume 0)] ∧
      WaitsAsTold (pausing "2") (poised "2") :=
  ⟨rfl, by decide +kernel, plays_waiting (.after .start 13)⟩

/-- The text of a script that waits for `10 ^ 20` seconds. -/
def endlessText : String :=
  "\x7b\"nodes\":\x7b\"Start\":[\x7b\"type\":\"command\",\"text\":\"wait 1e20\"\x7d]\x7d\x7d"

/-- Such a script is accepted, and playing it breaks off. -/
theorem exists_overlong_wait :
    (Script.ofJson endlessText).toOption = some (pausing "1e20") ∧ ∃ p x,
      Plays (pausing "1e20") false quietly p ∧ SaysToWait (pausing "1e20") x ∧
      p.session.agenda.head? = some (.telling (.handler 0 "wait" [.float x] (some 0))) ∧
      ¬ Holds (waitingTime x) ∧ duration? (waitingTime x) = none ∧
      p.step.1.exitCode = some 101 := by
  have read : Number.readDouble? "1e20".toList =
      some (Number.double false 0x4415AF1D78B58C40) := by decide +kernel
  have none : duration? (waitingTime (Number.double false 0x4415AF1D78B58C40)) = none := by
    decide +kernel
  have overlong : ¬ Holds (waitingTime (Number.double false 0x4415AF1D78B58C40)) := by
    rw [← duration?_isSome, none]
    nofun
  have said : SaysToWait (pausing "1e20") (Number.double false 0x4415AF1D78B58C40) :=
    ⟨.ofScript "wait 1e20", "1e20", ⟨"Start", 0, _, rfl, rfl⟩, by decide +kernel, read⟩
  exact ⟨by decide +kernel, poised "1e20", _, .after .start 13, said, rfl, overlong, none, rfl⟩

end Prompter.Console

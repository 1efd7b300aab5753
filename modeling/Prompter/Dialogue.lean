import Prompter.Barrier
import Prompter.Error
import Prompter.Event
import Prompter.Settings
import Prompter.StringTable
import Prompter.Text.Quoted

/-!
# Prompter.Dialogue

The books of a dialogue: whether it is running, the line its views present and the options they
offer.

Each presentation of a line has a serial number, and so has each offer. What is left to do for a
line names its serial number and does nothing when a later line has been presented; a choice names
the serial number of its offer and is refused when that offer is no longer open.

The operations here only keep the books. `Prompter.Session` tells the views and the engine.
-/

namespace Prompter

/-- What happens when the last view has completed its token, or a command resumes. -/
inductive Continuation
  /-- Every view has shown the line with this serial number. -/
  | lineShown (serial : Nat)
  /-- Every view has taken the line with this serial number away. -/
  | lineGone (serial : Nat)
  /-- The command with this handle lets the engine go on. -/
  | commandDone (handle : Nat)
  /-- The host does what it keeps under this key. -/
  | host (key : HostKey)
deriving DecidableEq

/-- Options that wait for a choice. -/
structure Offer where
  serial : Nat
  options : List LocalizedOption
deriving DecidableEq

/-- The state of a dialogue. -/
structure Dialogue where
  settings : Settings := {}
  /-- The views, as slots that are present or empty. -/
  slots : List Bool := []
  strings : StringTable := {}
  running : Bool := false
  /-- The serial number of the last line that was presented. -/
  lineSerial : Nat := 0
  line : Option LocalizedLine := none
  /-- The serial number of the last offer. -/
  offerSerial : Nat := 0
  offer : Option Offer := none
  barrier : Barrier Continuation := {}
deriving DecidableEq

namespace Dialogue

/-- The slots of the views that are present. -/
def views (d : Dialogue) : List Nat := presentFrom 0 d.slots

def courseRemark (d : Dialogue) (text : String) : Remark :=
  ⟨if d.settings.verbose then .info else .debug, .dialogue, text⟩

/-- A remark on a request that makes no sense now. -/
def misuseRemark (e : DialogueError) : Remark := ⟨.warn, .dialogue, e.message⟩

/-- The remark on a new status of a line. -/
def statusRemark (line : LocalizedLine) : Remark :=
  ⟨.debug, .dialogue, s!"line {line.id} is now {line.status.name}"⟩

/-- A line as it is presented. -/
def localize (d : Dialogue) (line : Line) : LocalizedLine × List Remark :=
  (d.strings.localize line,
    if (d.strings.template line).2 then []
    else [⟨.trace, .strings, s!"no string table entry for {line.id}; using raw text"⟩])

/-- The options of a set as they are presented. -/
def localizeOptions (d : Dialogue) : List DialogueOption → List LocalizedOption × List Remark
  | [] => ([], [])
  | o :: os =>
    let (line, remarks) := d.localize o.line
    let (os, more) := d.localizeOptions os
    (⟨o.id, line, o.available⟩ :: os, remarks ++ more)

def present (d : Dialogue) (line : LocalizedLine) : Dialogue :=
  { d with lineSerial := d.lineSerial + 1, line := some { line with status := .running } }

/-- The line with a serial number, while it is being presented. -/
def lineAt? (d : Dialogue) (serial : Nat) : Option LocalizedLine :=
  if d.lineSerial = serial then d.line else none

/-- Notes that every view has shown a line; `none` if there is nothing to note. -/
def deliver? (d : Dialogue) (serial : Nat) : Option (Dialogue × LocalizedLine) :=
  (d.lineAt? serial).bind fun line =>
    line.status.deliver?.map fun status =>
      ({ d with line := some { line with status := status } }, { line with status := status })

/-- Ends a line without the player; `none` if it has ended or is no longer presented. -/
def closeLine? (d : Dialogue) (serial : Nat) : Option (Dialogue × LocalizedLine) :=
  (d.lineAt? serial).bind fun line =>
    (line.status.moveTo? .ended).map fun status =>
      ({ d with line := some { line with status := status } }, { line with status := status })

/-- Gives the proceed signal to the line that is presented, if there is one. -/
def proceed? (d : Dialogue) : Option (Dialogue × LocalizedLine × ProceedEffect) :=
  d.line.map fun line =>
    let (status, effect) := line.status.proceed
    ({ d with line := some { line with status := status } }, { line with status := status }, effect)

/-- Notes that every view has taken a line away; `none` if a later line has been presented. -/
def dismiss? (d : Dialogue) (serial : Nat) : Option Dialogue :=
  if d.lineSerial = serial then some { d with line := none } else none

/-- Opens an offer; no line is presented any more. -/
def openOffer (d : Dialogue) (options : List LocalizedOption) : Dialogue :=
  let serial := d.offerSerial + 1
  { d with line := none, offerSerial := serial, offer := some ⟨serial, options⟩ }

/-- Chooses an option of the offer with a serial number, which closes the offer. -/
def choose (d : Dialogue) (serial : Nat) (id : OptionId) :
    Except DialogueError (Dialogue × LocalizedOption) :=
  match d.offer with
  | none => .error (.misuse "option selected while no options are offered")
  | some offer =>
    if offer.serial ≠ serial then
      .error (.misuse "option selected for an option set that was already answered")
    else
      match offer.options.find? (·.id = id) with
      | none => .error (.unknownOption id)
      | some o =>
        if o.available then .ok ({ d with offer := none }, o) else .error (.unavailableOption id)

/-- Ends the dialogue in the books. -/
def close (d : Dialogue) : Dialogue := { d with running := false, line := none, offer := none }

/-- Why a dialogue cannot start at a node, if it cannot. `stored` says whether there is storage for
variables, `known` whether the engine has the node. -/
def startError? (d : Dialogue) (stored known : Bool) (node : String) : Option DialogueError :=
  if d.views.isEmpty then some .missingViews
  else if !stored then some .missingVariables
  else if d.running then some (.misuse "dialogue is already running")
  else if !known then some (.unknownNode node)
  else none

/-- The remark on a dialogue that cannot start. -/
def startRemark : DialogueError → Remark
  | .misuse reason => misuseRemark (.misuse reason)
  | .unknownNode node =>
    ⟨.error, .dialogue, s!"cannot start dialogue: {(DialogueError.unknownNode node).message}"⟩
  | e => ⟨.error, .dialogue, e.message⟩

/-- A description of the dialogue. -/
def shown (d : Dialogue) : String :=
  Text.record "DialogueOrchestrator"
    [("running", shownFlag d.running),
      ("current_line", d.line.elim "None" fun line => s!"Some(LineId({Text.quoted line.id}))"),
      ("options_pending", shownFlag d.offer.isSome),
      ("views", toString d.slots.length)]
where
  shownFlag (b : Bool) : String := if b then "true" else "false"

/-! ### What the operations change -/

section

variable {d d' : Dialogue} {serial : Nat} {shown : LocalizedLine}

theorem lineAt?_eq_some {line : LocalizedLine} :
    d.lineAt? serial = some line ↔ d.lineSerial = serial ∧ d.line = some line := by
  unfold lineAt?
  split <;> simp_all

/-- Only a line that is presented and has not ended is delivered. -/
theorem deliver?_eq_some (h : d.deliver? serial = some (d', shown)) :
    d.lineSerial = serial ∧ ∃ line, d.line = some line ∧ line.status ≠ .ended ∧
      d' = { d with line := some { line with status := .delivered } } := by
  obtain ⟨line, hl, h⟩ := Option.bind_eq_some_iff.1 h
  obtain ⟨status, hs, h⟩ := Option.map_eq_some_iff.1 h
  obtain ⟨hserial, hline⟩ := lineAt?_eq_some.1 hl
  refine ⟨hserial, line, hline, ?_, ?_⟩
  · intro he
    simp [he, LineStatus.deliver?] at hs
  · obtain rfl : status = .delivered := by
      cases he : line.status <;> simp [he, LineStatus.deliver?] at hs <;> exact hs.symm
    exact (congrArg Prod.fst h).symm

/-- Only a line that is presented and has not ended is closed. -/
theorem closeLine?_eq_some (h : d.closeLine? serial = some (d', shown)) :
    d.lineSerial = serial ∧ ∃ line, d.line = some line ∧ line.status ≠ .ended ∧
      d' = { d with line := some { line with status := .ended } } := by
  obtain ⟨line, hl, h⟩ := Option.bind_eq_some_iff.1 h
  obtain ⟨status, hs, h⟩ := Option.map_eq_some_iff.1 h
  obtain ⟨hserial, hline⟩ := lineAt?_eq_some.1 hl
  unfold LineStatus.moveTo? at hs
  split at hs
  · next hb =>
    obtain rfl : LineStatus.ended = status := by simpa using hs
    refine ⟨hserial, line, hline, ?_, (congrArg Prod.fst h).symm⟩
    intro he
    simp [he, LineStatus.isBefore] at hb
    exact absurd hb (by decide)
  · cases hs

/-- The proceed signal interrupts a running line, and ends one that has come further. -/
theorem proceed?_eq_some {effect : ProceedEffect} (h : d.proceed? = some (d', shown, effect)) :
    d'.lineSerial = d.lineSerial ∧ ∃ line, d.line = some line ∧
      (effect = .interrupt → line.status = .running ∧
        d' = { d with line := some { line with status := .interrupted } }) ∧
      (effect = .dismiss → line.status ≠ .ended ∧
        d' = { d with line := some { line with status := .ended } }) ∧
      (effect = .ignored → d' = d) := by
  obtain ⟨line, hline, h⟩ := Option.map_eq_some_iff.1 h
  cases hs : line.status with
  | running =>
    simp only [hs, LineStatus.proceed, Prod.mk.injEq] at h
    obtain ⟨rfl, -, rfl⟩ := h
    exact ⟨rfl, line, hline, by simp [hs]⟩
  | interrupted | delivered =>
    simp only [hs, LineStatus.proceed, Prod.mk.injEq] at h
    obtain ⟨rfl, -, rfl⟩ := h
    exact ⟨rfl, line, hline, by simp [hs]⟩
  | ended =>
    simp only [hs, LineStatus.proceed, Prod.mk.injEq] at h
    obtain ⟨rfl, -, rfl⟩ := h
    have same : { line with status := .ended } = line := by rw [← hs]
    exact ⟨rfl, line, hline, by simp [same, ← hline]⟩

/-- A line is dismissed unless a later one has been presented. -/
theorem dismiss?_eq_some (h : d.dismiss? serial = some d') :
    d.lineSerial = serial ∧ d' = { d with line := none } := by
  unfold dismiss? at h
  split at h
  · next hs => exact ⟨hs, (Option.some.inj h).symm⟩
  · cases h

/-- A choice is accepted exactly if it is an available option of the offer that is open, and closes
that offer. -/
theorem choose_eq_ok {id : OptionId} {o : LocalizedOption} :
    d.choose serial id = .ok (d', o) ↔ ∃ offer, d.offer = some offer ∧ offer.serial = serial ∧
      offer.options.find? (·.id = id) = some o ∧ o.available = true ∧
      d' = { d with offer := none } := by
  constructor
  · intro h
    unfold choose at h
    split at h
    · cases h
    · next offer opened =>
      split at h
      · cases h
      · next same =>
        split at h
        · cases h
        · next found =>
          split at h
          · next available =>
            cases h
            exact ⟨offer, opened, Decidable.not_not.1 same, found, available, rfl⟩
          · cases h
  · rintro ⟨offer, opened, same, found, available, rfl⟩
    simp [choose, opened, same, found, available]

theorem startError?_eq_none {stored known : Bool} {node : String} :
    d.startError? stored known node = none ↔
      d.views ≠ [] ∧ stored = true ∧ d.running = false ∧ known = true := by
  unfold startError?
  cases d.views <;> cases stored <;> cases d.running <;> cases known <;> simp

end

end Dialogue

end Prompter

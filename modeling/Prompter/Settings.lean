import Prompter.Error
import Prompter.Json.Decoder
import Prompter.Json.Writer

/-!
# Prompter.Settings

The settings of a dialogue and their JSON form. Every field may be left out of the JSON and has a
default; only the start node may be `null`.
-/

namespace Prompter

/-- How a dialogue behaves. -/
structure Settings where
  /-- Take each line away as soon as every view has shown it, without waiting for the player. -/
  autoAdvance : Bool := false
  /-- Present the text of the chosen option as a line before going on. -/
  echoChoice : Bool := false
  /-- Remark on the course of the dialogue at level info, not debug. -/
  verbose : Bool := false
  /-- The node to start at unless another is named. -/
  startNode : Option String := some "Start"
  /-- A hint to hosts: start as soon as everything is wired up. -/
  startAutomatically : Bool := true
deriving DecidableEq

namespace Settings

/-- Settings of which some fields have been read. -/
structure Draft where
  autoAdvance : Option Bool := none
  echoChoice : Option Bool := none
  verbose : Option Bool := none
  startNode : Option (Option String) := none
  startAutomatically : Option Bool := none

/-- The settings that a draft stands for. -/
def Draft.finish (d : Draft) : Settings :=
  let standard : Settings := {}
  { autoAdvance := d.autoAdvance.getD standard.autoAdvance
    echoChoice := d.echoChoice.getD standard.echoChoice
    verbose := d.verbose.getD standard.verbose
    startNode := d.startNode.getD standard.startNode
    startAutomatically := d.startAutomatically.getD standard.startAutomatically }

open Json Decoder in
def decoder : Decoder Settings :=
  record ({} : Draft)
    [⟨"auto_advance_lines", fun d => d.autoAdvance.isSome,
        flag.map fun b d => { d with autoAdvance := some b }⟩,
      ⟨"run_selected_option_as_line", fun d => d.echoChoice.isSome,
        flag.map fun b d => { d with echoChoice := some b }⟩,
      ⟨"verbose_logging", fun d => d.verbose.isSome,
        flag.map fun b d => { d with verbose := some b }⟩,
      ⟨"start_node", fun d => d.startNode.isSome,
        (optional text).map fun s d => { d with startNode := some s }⟩,
      ⟨"start_automatically", fun d => d.startAutomatically.isSome,
        flag.map fun b d => { d with startAutomatically := some b }⟩]
    fun d => some d.finish

def ofJson (source : String) : Except Json.Fault Settings := decoder.run source

def toJson (s : Settings) : Json :=
  .object
    [("auto_advance_lines", .bool s.autoAdvance),
      ("run_selected_option_as_line", .bool s.echoChoice),
      ("verbose_logging", .bool s.verbose),
      ("start_node", s.startNode.elim .null .string),
      ("start_automatically", .bool s.startAutomatically)]

end Settings

end Prompter

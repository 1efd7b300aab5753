import Prompter.Console.Effect

/-!
# Prompter.Console.Request

What the arguments of the console program ask for, and the texts that need no script.
-/

namespace Prompter.Console

/-- A request to the program. -/
inductive Request
  /-- No arguments were given. -/
  | nothing
  | help
  /-- Play a script; the flag turns the log on. -/
  | play (file : String) (debug : Bool)
  /-- Play a script, but no file was named. -/
  | missingFile
  | unknown (command : String)
deriving DecidableEq

/-- The request of a list of arguments. -/
def Request.ofArguments : List String → Request
  | [] => .nothing
  | ["play"] => .missingFile
  | "play" :: file :: rest => .play file (rest.head? = some "--debug")
  | "--help" :: _ | "-h" :: _ => .help
  | command :: _ => .unknown command

/-- How the program is used. -/
def usage : List Effect :=
  ["kataribe - Dialogue Orchestrator",
    "",
    "USAGE:",
    "    cargo run -- play <script.json> [--debug]",
    "",
    "COMMANDS:",
    "    play <file> [--debug]    Play a dialogue script in the terminal",
    "    --help, -h               Show this help message",
    "",
    "OPTIONS:",
    "    --debug    Log dialogue lifecycle to stderr (or set KATARIBE_DEBUG)",
    "",
    "EXAMPLES:",
    "    cargo run -- play demos/intro.json",
    "    cargo run -- play demos/intro.json --debug"].map .out

/-- What the program does for a request without a script, and its exit code. -/
def Request.answer? : Request → Option (List Effect × Nat)
  | nothing => some (usage, 1)
  | help => some (usage, 0)
  | play _ _ => none
  | missingFile => some (.err "Error: Missing script file path" :: .err "" :: usage, 1)
  | unknown command => some (.err s!"Error: Unknown command '{command}'" :: .err "" :: usage, 1)

end Prompter.Console

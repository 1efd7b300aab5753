/-!
# Prompter.HostKey

The behaviour of a host (what a handler, a method or a function does, who listens) stays with the
host. The library holds keys only, and gives a key back when that behaviour is due.
-/

namespace Prompter

/-- How a host knows a piece of its own behaviour. -/
abbrev HostKey := Nat

end Prompter

import Prompter.Library.Functions
import Prompter.Library.Variables

/-!
# Prompter.Library.Basic

What a host binds to a script: its variables and its functions.
-/

namespace Prompter

/-- Variables and functions, as they are now. -/
structure Library where
  storage : Variables
  functions : FunctionTable

end Prompter

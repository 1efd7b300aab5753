import Prompter.Barrier

/-!
# Prompter.Broadcast

A barrier at work for a host of its own, which may start, cancel and complete broadcasts at any
time, also while one of its consumers or continuations is being called.

What is still to be done stands on an agenda, the newest first. The host has the word when the
agenda is empty or begins with a call to the host (`consuming`, `resuming`); otherwise `step` takes
the first item off. As every operation puts its work on top of the agenda, a broadcast that is
started from inside a consumer is through with its consumers before the older one goes on.
-/

namespace Prompter

/-- Something a barrier at work has still to do. -/
inductive BroadcastItem (κ : Type)
  /-- Call the consumers of a broadcast that have not been called yet. -/
  | rest (generation : Nat) (slots : List Nat)
  /-- Call a consumer with its token. -/
  | consume (t : Token)
  /-- Run the continuation of the broadcast of a generation. -/
  | resume (generation : Nat) (k : κ)
  /-- The host's consumer is being called with its token. -/
  | consuming (t : Token)
  /-- The host's continuation is being run. -/
  | resuming (k : κ)
deriving DecidableEq

/-- A barrier and what is still to be done with it. -/
structure Broadcasts (κ : Type) where
  barrier : Barrier κ := {}
  agenda : List (BroadcastItem κ) := []
deriving DecidableEq

namespace Broadcasts

variable {κ : Type}

/-- Whether the host has the word. -/
def awaitsHost (b : Broadcasts κ) : Bool :=
  match b.agenda with
  | [] | .consuming _ :: _ | .resuming _ :: _ => true
  | _ => false

def start (b : Broadcasts κ) (slots : List Bool) (k : κ) : Broadcasts κ × List Remark :=
  let (barrier, opening, remarks) := b.barrier.start slots k
  let item := match opening with
    | .immediate k => .resume barrier.generation k
    | .waiting generation slots => .rest generation slots
  (⟨barrier, item :: b.agenda⟩, remarks)

def cancel (b : Broadcasts κ) : Broadcasts κ × List Remark :=
  let (barrier, remarks) := b.barrier.cancel
  ({ b with barrier := barrier }, remarks)

def complete (b : Broadcasts κ) (t : Token) : Broadcasts κ × List Remark :=
  let (barrier, k?, remarks) := b.barrier.complete t
  (⟨barrier, (k?.map (.resume t.generation)).toList ++ b.agenda⟩, remarks)

/-- Takes the first item off the agenda, unless it is the host's turn. -/
def step (b : Broadcasts κ) : Broadcasts κ × List Remark :=
  match b.agenda with
  | .rest generation slots :: agenda =>
    match b.barrier.nextCall generation slots with
    | .call t slots => ({ b with agenda := .consume t :: .rest generation slots :: agenda }, [])
    | .superseded r => ({ b with agenda := agenda }, [r])
    | .finished => ({ b with agenda := agenda }, [])
  | .consume t :: agenda => ({ b with agenda := .consuming t :: agenda }, [])
  | .resume _ k :: agenda => ({ b with agenda := .resuming k :: agenda }, [])
  | _ => (b, [])

/-- Notes that the host has returned from a call. -/
def answer (b : Broadcasts κ) : Broadcasts κ :=
  match b.agenda with
  | .consuming _ :: agenda | .resuming _ :: agenda => { b with agenda := agenda }
  | _ => b

end Broadcasts

end Prompter

import Mathlib.Data.Finset.Card
import Mathlib.Logic.Relation
import Prompter.Proofs.Engine.Story

/-!
# Prompter.Proofs.Script.Leaps

Nodes that a script only passes through.

A node whose first line, options, jump or stop is a jump leads on to the next node without telling
the player anything (`Leaps`). If no chain of such nodes comes back to where it began, then what is
passed through on the way from a node can be added up (`tollOf_eq`), although the script may go
round in circles everywhere else.
-/

namespace Prompter

/-- Whether an instruction tells the player something or leaves its node. -/
def Instruction.decides : Instruction → Bool
  | .line _ _ _ | .options _ | .jump _ | .stop => true
  | .command _ | .set _ _ => false

/-- Where instructions jump to before they tell the player anything. -/
def leap? (is : List Instruction) : Option String :=
  match is.find? Instruction.decides with
  | some (.jump destination) => some destination
  | _ => none

@[simp] theorem leap?_of_passing {i : Instruction} (passes : i.decides = false)
    (rest : List Instruction) : leap? (i :: rest) = leap? rest := by
  simp [leap?, passes]

namespace Script

variable (script : Script)

/-- A node is only passed through on the way to another one. -/
def Leaps (a b : String) : Prop := leap? (script.body a) = some b

/-- No chain of nodes that are only passed through comes back to where it began. -/
def IsForward : Prop := ∀ node, ¬ Relation.TransGen script.Leaps node node

open Classical in
/-- The nodes of the script that the leaps from a node come to, itself included. -/
noncomputable def reach (node : String) : Finset String :=
  script.nodes.names.toFinset.filter (Relation.ReflTransGen script.Leaps node)

variable {script}

theorem Leaps.mem_names {a b : String} (leaps : script.Leaps a b) : a ∈ script.nodes.names := by
  have stands : script.nodes.find? a ≠ none := by
    intro none
    simp [Leaps, leap?, body, none] at leaps
  obtain ⟨is, found⟩ := Option.ne_none_iff_exists'.1 stands
  exact List.mem_map.2 ⟨(a, is), Table.find?_eq_some.1 found, rfl⟩

/-- Every leap leaves less to come to. -/
theorem Leaps.reach_ssubset (forward : script.IsForward) {a b : String}
    (leaps : script.Leaps a b) : script.reach b ⊂ script.reach a := by
  classical
  have subset : script.reach b ⊆ script.reach a := by
    intro node hn
    obtain ⟨stands, path⟩ := Finset.mem_filter.1 hn
    exact Finset.mem_filter.2 ⟨stands, .head leaps path⟩
  refine (Finset.ssubset_iff_of_subset subset).2 ⟨a, ?_, fun back => ?_⟩
  · exact Finset.mem_filter.2 ⟨List.mem_toFinset.2 leaps.mem_names, .refl⟩
  · exact forward a (Relation.TransGen.head' leaps (Finset.mem_filter.1 back).2)

theorem card_reach_le (node : String) : (script.reach node).card ≤ script.nodes.size := by
  classical
  calc (script.reach node).card
      ≤ script.nodes.names.toFinset.card := Finset.card_filter_le _ _
    _ ≤ script.nodes.names.length := List.toFinset_card_le _
    _ = script.nodes.size := List.length_map _

variable (script)

/-- What the nodes weigh that are passed through from a node on, in a number of leaps. -/
def tollWithin (weight : String → Nat) : Nat → String → Nat
  | 0, _ => 0
  | n + 1, node =>
    weight node + (leap? (script.body node)).elim 0 (tollWithin weight n)

/-- What the nodes weigh that are passed through from a node on. -/
def tollOf (weight : String → Nat) (node : String) : Nat :=
  script.tollWithin weight (script.nodes.size + 1) node

variable {script} (forward : script.IsForward) (weight : String → Nat)

include forward

/-- More leaps than there are nodes to come to make no difference. -/
theorem tollWithin_eq {n m : Nat} {node : String} (hn : (script.reach node).card < n)
    (hm : (script.reach node).card < m) :
    script.tollWithin weight n node = script.tollWithin weight m node := by
  induction n generalizing m node with
  | zero => cases hn
  | succ n ih =>
    cases m with
    | zero => cases hm
    | succ m =>
      rw [tollWithin, tollWithin]
      cases leaps : leap? (script.body node) with
      | none => rfl
      | some next =>
        have fewer := Finset.card_lt_card (Leaps.reach_ssubset forward leaps)
        exact congrArg (weight node + ·) (ih (by omega) (by omega))

theorem tollOf_eq (node : String) : script.tollOf weight node =
    weight node + (leap? (script.body node)).elim 0 (script.tollOf weight) := by
  rw [tollOf, tollWithin]
  cases leaps : leap? (script.body node) with
  | none => rfl
  | some next =>
    have fewer := Finset.card_lt_card (Leaps.reach_ssubset forward leaps)
    have bounded : (script.reach node).card ≤ script.nodes.size := card_reach_le node
    exact congrArg (weight node + ·) (tollWithin_eq forward weight (by omega) (by omega))

end Script

end Prompter

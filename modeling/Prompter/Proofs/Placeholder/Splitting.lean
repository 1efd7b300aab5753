import Mathlib.Data.List.Basic
import Prompter.StringTable

/-!
# Prompter.Proofs.Placeholder.Splitting

The pieces of a template.

`Splits` says what a template consists of, given how many substitutions there are: characters
outside of braces, placeholders, braces around something else, and at the end perhaps an opening
brace that is never closed. A template consists of its pieces in one way only (`exists_splits`,
`Splits.unique`), and this has nothing to do with the values. To replace placeholders is to put the
values in the place of the pieces that are placeholders (`substitute_splits`).
-/

namespace Prompter.StringTable

open Number (readIndex?)

/-! ### Pieces -/

/-- A piece of a template for `n` substitutions. -/
inductive Piece (n : Nat)
  /-- Text that stays as it is. -/
  | kept (text : List Char)
  /-- A key between braces that writes the index of a substitution. -/
  | placeholder (key : List Char) (index : Fin n) (writes : readIndex? key = some index.val)

namespace Piece

variable {n : Nat}

/-- The piece as the template has it. -/
def source : Piece n → List Char
  | kept text => text
  | placeholder key _ _ => '{' :: key ++ ['}']

/-- The piece with the values filled in. -/
def filled (values : Vector String n) : Piece n → List Char
  | kept text => text
  | placeholder _ index _ => (values.get index).toList

def isKept : Piece n → Bool
  | kept _ => true
  | placeholder _ _ _ => false

theorem filled_of_isKept {piece : Piece n} (kept : piece.isKept = true) (values : Vector String n) :
    piece.filled values = piece.source := by
  cases piece with
  | kept => rfl
  | placeholder => cases kept

end Piece

/-- What stands behind an opening brace is a key, the first closing brace and the rest. -/
structure Closes (behind key rest : List Char) : Prop where
  parts : behind = key ++ '}' :: rest
  first : '}' ∉ key

/-- What a template for `n` substitutions consists of. -/
inductive Splits {n : Nat} : List Char → List (Piece n) → Prop
  | nil : Splits [] []
  /-- A character outside of braces. -/
  | outside {c : Char} {cs : List Char} {pieces : List (Piece n)} (other : c ≠ '{')
      (others : Splits cs pieces) : Splits (c :: cs) (.kept [c] :: pieces)
  | placeholder {behind key rest : List Char} {pieces : List (Piece n)} {index : Fin n}
      (closes : Closes behind key rest) (writes : readIndex? key = some index.val)
      (others : Splits rest pieces) :
      Splits ('{' :: behind) (.placeholder key index writes :: pieces)
  /-- Braces that hold no index of a substitution. -/
  | braces {behind key rest : List Char} {pieces : List (Piece n)} (closes : Closes behind key rest)
      (foreign : ∀ index : Fin n, readIndex? key ≠ some index.val) (others : Splits rest pieces) :
      Splits ('{' :: behind) (.kept ('{' :: key ++ ['}']) :: pieces)
  /-- An opening brace that is never closed. -/
  | unclosed {behind : List Char} (never : '}' ∉ behind) :
      Splits ('{' :: behind) [.kept ('{' :: behind)]

section

variable {n : Nat} {cs behind key key' rest rest' : List Char} {pieces pieces' : List (Piece n)}

/-! ### There is one split -/

theorem exists_closes (closed : '}' ∈ behind) : ∃ key rest, Closes behind key rest := by
  obtain ⟨key, rest, parts, first⟩ := List.eq_append_cons_of_mem closed
  exact ⟨key, rest, parts, first⟩

/-- The key ends where the first closing brace stands. -/
theorem Closes.key_eq (closes : Closes behind key rest) : key = behind.takeWhile (· ≠ '}') := by
  have before : ∀ c ∈ key, decide (c ≠ '}') = true := fun c hc =>
    decide_eq_true fun same => closes.first (same ▸ hc)
  rw [closes.parts, List.takeWhile_append_of_pos before]
  simp

theorem Closes.unique (closes : Closes behind key rest) (closes' : Closes behind key' rest') :
    key = key' ∧ rest = rest' := by
  obtain rfl : key = key' := closes.key_eq.trans closes'.key_eq.symm
  have same : key ++ '}' :: rest = key ++ '}' :: rest' := closes.parts.symm.trans closes'.parts
  exact ⟨rfl, (List.cons.inj (List.append_cancel_left same)).2⟩

theorem Closes.mem (closes : Closes behind key rest) : '}' ∈ behind := by
  rw [closes.parts]
  exact List.mem_append_right key List.mem_cons_self

theorem Closes.length_lt (closes : Closes behind key rest) : rest.length < behind.length := by
  rw [closes.parts, List.length_append, List.length_cons]
  omega

variable (n) in
/-- Every template can be split. -/
theorem exists_splits : ∀ cs : List Char, ∃ pieces : List (Piece n), Splits cs pieces
  | [] => ⟨[], .nil⟩
  | c :: cs => by
    by_cases opens : c = '{'
    · subst opens
      by_cases closed : '}' ∈ cs
      · obtain ⟨key, rest, closes⟩ := exists_closes closed
        have shorter := closes.length_lt
        obtain ⟨pieces, others⟩ := exists_splits rest
        by_cases known : ∃ index : Fin n, readIndex? key = some index.val
        · obtain ⟨index, writes⟩ := known
          exact ⟨_, .placeholder closes writes others⟩
        · exact ⟨_, .braces closes (fun index writes => known ⟨index, writes⟩) others⟩
      · exact ⟨_, .unclosed closed⟩
    · obtain ⟨pieces, others⟩ := exists_splits cs
      exact ⟨_, .outside opens others⟩
termination_by cs => cs.length

/-- A template can be split in one way only. -/
theorem Splits.unique (splits : Splits cs pieces) (splits' : Splits cs pieces') :
    pieces = pieces' := by
  induction splits generalizing pieces' with
  | nil =>
    cases splits'
    rfl
  | outside other others ih =>
    cases splits' with
    | outside _ others' => rw [ih others']
    | placeholder | braces | unclosed => exact absurd rfl other
  | placeholder closes writes others ih =>
    cases splits' with
    | outside other => exact absurd rfl other
    | placeholder closes' writes' others' =>
      obtain ⟨rfl, rfl⟩ := closes.unique closes'
      obtain rfl : _ = _ := Fin.ext (Option.some.inj (writes.symm.trans writes'))
      rw [ih others']
    | braces closes' foreign =>
      obtain ⟨rfl, rfl⟩ := closes.unique closes'
      exact absurd writes (foreign _)
    | unclosed never => exact absurd closes.mem never
  | braces closes foreign others ih =>
    cases splits' with
    | outside other => exact absurd rfl other
    | placeholder closes' writes' =>
      obtain ⟨rfl, rfl⟩ := closes.unique closes'
      exact absurd writes' (foreign _)
    | braces closes' _ others' =>
      obtain ⟨rfl, rfl⟩ := closes.unique closes'
      rw [ih others']
    | unclosed never => exact absurd closes.mem never
  | unclosed never =>
    cases splits' with
    | outside other => exact absurd rfl other
    | placeholder closes' | braces closes' => exact absurd closes'.mem never
    | unclosed => rfl

/-- Nothing of a template is lost in its pieces. -/
theorem Splits.source_eq (splits : Splits cs pieces) : pieces.flatMap Piece.source = cs := by
  induction splits with
  | nil => rfl
  | outside other others ih => rw [List.flatMap_cons, ih]; rfl
  | placeholder closes writes others ih | braces closes foreign others ih =>
    rw [List.flatMap_cons, ih, closes.parts]
    simp [Piece.source]
  | unclosed never => exact List.append_nil _

/-! ### What is filled in -/

variable {values : List String} {read : List Char}

/-- Up to a closing brace, everything is read. -/
theorem substituteFrom_append (never : '}' ∉ key) :
    substituteFrom values (some read) (key ++ cs) =
      substituteFrom values (some (key.reverse ++ read)) cs := by
  induction key generalizing read with
  | nil => rfl
  | cons c key ih =>
    obtain ⟨other, never⟩ := List.ne_and_not_mem_of_not_mem_cons never
    rw [List.cons_append, substituteFrom, if_neg (Ne.symm other), ih never, List.reverse_cons,
      List.append_assoc]
    rfl

/-- A placeholder is read up to the first closing brace. -/
theorem substituteFrom_closes (closes : Closes behind key rest) :
    substituteFrom values none ('{' :: behind) =
      fill key values ++ substituteFrom values none rest := by
  rw [substituteFrom, if_pos rfl, closes.parts, substituteFrom_append closes.first, substituteFrom,
    if_pos rfl, List.append_nil, List.reverse_reverse]

/-- Without a closing brace nothing is replaced. -/
theorem substituteFrom_unclosed (never : '}' ∉ behind) :
    substituteFrom values none ('{' :: behind) = '{' :: behind := by
  have read : substituteFrom values (some []) (behind ++ []) =
      substituteFrom values (some (behind.reverse ++ [])) [] := substituteFrom_append never
  rw [List.append_nil, List.append_nil] at read
  rw [substituteFrom, if_pos rfl, read, substituteFrom, List.reverse_reverse]

theorem fill_of_writes {values : Vector String n} {index : Fin n}
    (writes : readIndex? key = some index.val) :
    fill key values.toList = (values.get index).toList := by
  have found : values.toList[index.val]? = some (values.get index) := by
    simp [Vector.get]
  simp only [fill, writes, Option.bind_some, found]

theorem fill_of_foreign {values : Vector String n}
    (foreign : ∀ index : Fin n, readIndex? key ≠ some index.val) :
    fill key values.toList = '{' :: key ++ ['}'] := by
  unfold fill
  cases writes : readIndex? key with
  | none => rfl
  | some index =>
    have out : ¬ index < n := fun inside => foreign ⟨index, inside⟩ writes
    simp [out]

/-- To replace placeholders is to fill in the pieces. -/
theorem Splits.substituteFrom_eq (splits : Splits cs pieces) (values : Vector String n) :
    substituteFrom values.toList none cs = pieces.flatMap (Piece.filled values) := by
  induction splits with
  | nil => rfl
  | outside other others ih =>
    rw [substituteFrom, if_neg other, ih]
    rfl
  | placeholder closes writes others ih =>
    rw [substituteFrom_closes closes, fill_of_writes writes, ih]
    rfl
  | braces closes foreign others ih =>
    rw [substituteFrom_closes closes, fill_of_foreign foreign, ih]
    rfl
  | unclosed never =>
    rw [substituteFrom_unclosed never]
    exact (List.append_nil _).symm

/-- Where all pieces are kept, filling them in changes nothing. -/
theorem flatMap_filled_of_isKept (kept : ∀ piece ∈ pieces, piece.isKept = true)
    (values : Vector String n) :
    pieces.flatMap (Piece.filled values) = pieces.flatMap Piece.source :=
  List.flatMap_congr fun piece hp => Piece.filled_of_isKept (kept piece hp) values

/-- Where there is nothing to fill in, everything is kept. -/
theorem substituteFrom_nil (cs : List Char) : substituteFrom [] none cs = cs := by
  obtain ⟨pieces, splits⟩ := exists_splits 0 cs
  have kept : ∀ piece ∈ pieces, piece.isKept = true := by
    rintro (text | ⟨key, index, writes⟩) _
    · rfl
    · exact index.elim0
  have filled := splits.substituteFrom_eq #v[]
  rwa [flatMap_filled_of_isKept kept, splits.source_eq] at filled

/-- A template without substitutions is no special case. -/
theorem substitute_eq (template : String) (values : List String) :
    substitute template values = String.ofList (substituteFrom values none template.toList) := by
  cases values with
  | nil => rw [substituteFrom_nil, String.ofList_toList]; rfl
  | cons => rfl

end

/-- A template consists of pieces, whatever the values are, and in one way. To replace its
placeholders is to put each value in the place of the placeholders that write its index, and to keep
everything else. So a template without such placeholders stays as it is. -/
theorem substitute_splits (n : Nat) (template : String) :
    ∃ pieces : List (Piece n),
      (∀ pieces', Splits template.toList pieces' ↔ pieces' = pieces) ∧
      pieces.flatMap Piece.source = template.toList ∧
      ∀ values : Vector String n,
        substitute template values.toList =
          String.ofList (pieces.flatMap (Piece.filled values)) ∧
        substitute template values.toList =
          String.ofList (substituteFrom values.toList none template.toList) ∧
        ((∀ piece ∈ pieces, piece.isKept = true) →
          substitute template values.toList = template) := by
  obtain ⟨pieces, splits⟩ := exists_splits n template.toList
  refine ⟨pieces, fun pieces' => ⟨fun splits' => splits'.unique splits, ?_⟩, splits.source_eq,
    fun values => ?_⟩
  · rintro rfl
    exact splits
  have filled : substitute template values.toList =
      String.ofList (pieces.flatMap (Piece.filled values)) := by
    rw [substitute_eq, splits.substituteFrom_eq]
  refine ⟨filled, substitute_eq template _, fun kept => ?_⟩
  rw [filled, flatMap_filled_of_isKept kept, splits.source_eq, String.ofList_toList]

/-- An index that is out of range and a stray brace are kept, with a placeholder between them and
without. -/
theorem splits_of_fiveZeroStray :
    (∃ pieces : List (Piece 1), Splits "\x7b5\x7d\x7b0\x7d\x7b".toList pieces ∧
      pieces.map Piece.source = [['{', '5', '}'], ['{', '0', '}'], ['{']] ∧
      pieces.map Piece.isKept = [true, false, true] ∧
      substitute "\x7b5\x7d\x7b0\x7d\x7b" ["a"] = "\x7b5\x7da\x7b") ∧
    ∃ pieces : List (Piece 1), Splits "\x7b5\x7d\x7b".toList pieces ∧
      (∀ piece ∈ pieces, piece.isKept = true) ∧
      substitute "\x7b5\x7d\x7b" ["a"] = "\x7b5\x7d\x7b" := by
  constructor
  · obtain ⟨pieces, unique, -, filled⟩ := substitute_splits 1 "\x7b5\x7d\x7b0\x7d\x7b"
    have zero : Closes ['0', '}', '{'] ['0'] ['{'] := ⟨rfl, by decide⟩
    have five : Closes ['5', '}', '{', '0', '}', '{'] ['5'] ['{', '0', '}', '{'] :=
      ⟨rfl, by decide⟩
    have splits : Splits "\x7b5\x7d\x7b0\x7d\x7b".toList
        [.kept ['{', '5', '}'], .placeholder ['0'] (0 : Fin 1) (by decide), .kept ['{']] :=
      .braces five (by decide) (.placeholder zero _ (.unclosed (by decide)))
    obtain rfl := (unique _).1 splits
    exact ⟨_, splits, rfl, rfl, (filled #v["a"]).1⟩
  · obtain ⟨pieces, unique, -, filled⟩ := substitute_splits 1 "\x7b5\x7d\x7b"
    have five : Closes ['5', '}', '{'] ['5'] ['{'] := ⟨rfl, by decide⟩
    have splits : Splits "\x7b5\x7d\x7b".toList
        [Piece.kept (n := 1) ['{', '5', '}'], .kept ['{']] :=
      .braces five (by decide) (.unclosed (by decide))
    obtain rfl := (unique _).1 splits
    have kept : ∀ piece ∈ [Piece.kept (n := 1) ['{', '5', '}'], .kept ['{']],
        piece.isKept = true := by simp [Piece.isKept]
    exact ⟨_, splits, kept, (filled #v["a"]).2.2 kept⟩

/-- What is filled in is not looked at again. -/
example : substitute "\x7b0\x7d, \x7b+01\x7d, \x7bx\x7d" ["\x7b1\x7d", "b"] =
    "\x7b1\x7d, b, \x7bx\x7d" := by
  decide +kernel

end Prompter.StringTable

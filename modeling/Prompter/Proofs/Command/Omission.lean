import Prompter.Command.Parameter

/-!
# Prompter.Proofs.Command.Omission

Which parameters of a command get no word.

Words are matched with parameters from the left and no word reads as `Argument.default`, so the
parameters that are left out are those behind the last word (`getElem?_of_convertAll`). The number
of words is compared with how many parameters are required, not with where they stand. So a required
parameter can be left out exactly if it stands behind an optional one (`readArguments_omits`).
-/

namespace Prompter

variable {resolver : Option EntityResolver} {p : Parameter} {ps : List Parameter} {word : String}
  {words : List String} {args : List Argument}

/-! ### One argument for each parameter -/

/-- The argument of a parameter, by the word that is matched with it. -/
def Parameter.argument? (resolver : Option EntityResolver) (p : Parameter) :
    Option String → Option Argument
  | some word => (p.kind.convert resolver word).1
  | none => some .default

/-- No word reads as an argument that is left out. -/
theorem ParameterKind.convert_ne_default (kind : ParameterKind) :
    (kind.convert resolver word).1 ≠ some .default := by
  cases kind with
  | integer | float | bool | text | entity => simp [convert]
  | component type =>
    unfold convert
    dsimp only
    split <;> simp

/-- A parameter is left out if it has no word. -/
theorem Parameter.argument?_eq_default {word : Option String} :
    p.argument? resolver word = some .default ↔ word = none := by
  cases word with
  | none => simp [argument?]
  | some word => simp [argument?, p.kind.convert_ne_default]

theorem convertAll_cons_eq_ok {index : Nat} :
    (convertAll resolver index (p :: ps) words).1 = .ok args ↔
      ∃ a others, p.argument? resolver words.head? = some a ∧
        (convertAll resolver (index + 1) ps words.tail).1 = .ok others ∧ args = a :: others := by
  have map_ok {x : Except CommandError (List Argument)} {a : Argument} :
      x.map (a :: ·) = .ok args ↔ ∃ others, x = .ok others ∧ args = a :: others := by
    cases x <;> simp [Except.map, eq_comm]
  cases words with
  | nil => simp [convertAll, Parameter.argument?, map_ok]
  | cons word words =>
    simp only [convertAll, Parameter.argument?, List.head?_cons, List.tail_cons]
    rcases p.kind.convert resolver word with ⟨a | a, remarks⟩
    · simp
    · simp [map_ok]

/-- Each parameter gets the argument that its own word makes, if all words can be read. -/
theorem getElem?_of_convertAll {index : Nat}
    (ok : (convertAll resolver index ps words).1 = .ok args) (i : Nat) :
    args[i]? = ps[i]?.bind fun p => p.argument? resolver words[i]? := by
  induction ps generalizing index words args i with
  | nil =>
    cases ok
    rfl
  | cons p ps ih =>
    obtain ⟨a, others, made, rest, rfl⟩ := convertAll_cons_eq_ok.1 ok
    cases i with
    | zero => simpa [List.head?_eq_getElem?] using made.symm
    | succ i => simpa using ih rest i

theorem readArguments_eq_ok : (readArguments resolver ps words).1 = .ok args ↔
    requiredCount ps ≤ words.length ∧ words.length ≤ ps.length ∧
      (convertAll resolver 0 ps words).1 = .ok args := by
  unfold readArguments
  by_cases few : words.length < requiredCount ps
  · simp [few, Nat.not_le_of_lt few]
  · by_cases many : ps.length < words.length
    · simp [many, Nat.not_le_of_lt many]
    · simp [few, many, Nat.not_lt.1 few, Nat.not_lt.1 many]

/-! ### Words that can be read -/

/-- A word that reads as a kind. -/
def ParameterKind.sample : ParameterKind → String
  | integer | float => "0"
  | bool => "true"
  | text | entity | component _ => ""

variable (resolver) in
theorem Parameter.argument?_sample (p : Parameter) :
    ∃ a, p.argument? resolver (some p.kind.sample) = some a := by
  rw [← Option.isSome_iff_exists]
  unfold argument?
  cases p.kind with
  | integer | float | bool | text | entity => rfl
  | component type =>
    unfold ParameterKind.convert
    dsimp only
    split <;> rfl

variable (resolver ps) in
/-- Words can be read as the first parameters of a list, however many they are. -/
theorem exists_convertAll_take (index n : Nat) :
    ∃ args, (convertAll resolver index ps ((ps.take n).map (·.kind.sample))).1 = .ok args := by
  induction ps generalizing index n with
  | nil => exact ⟨[], rfl⟩
  | cons p ps ih =>
    cases n with
    | zero =>
      obtain ⟨others, rest⟩ := ih (index + 1) 0
      exact ⟨_, convertAll_cons_eq_ok.2 ⟨.default, others, rfl, by simpa using rest, rfl⟩⟩
    | succ n =>
      obtain ⟨others, rest⟩ := ih (index + 1) n
      obtain ⟨a, made⟩ := p.argument?_sample resolver
      exact ⟨_, convertAll_cons_eq_ok.2 ⟨a, others, by simpa using made, by simpa using rest, rfl⟩⟩

/-! ### Where the required parameters stand -/

theorem requiredCount_cons : requiredCount (p :: ps) =
    if p.isOptional then requiredCount ps else requiredCount ps + 1 := by
  cases h : p.isOptional <;> simp [requiredCount, h]

theorem requiredCount_le_length : requiredCount ps ≤ ps.length := List.length_filter_le _ _

theorem requiredCount_eq_zero : requiredCount ps = 0 ↔ ∀ p ∈ ps, p.isOptional = true := by
  simp [requiredCount]

theorem requiredCount_append {qs : List Parameter} :
    requiredCount (ps ++ qs) = requiredCount ps + requiredCount qs := by
  simp [requiredCount]

/-- Behind as many parameters as are required all are optional, exactly if no required one stands
behind an optional one. -/
theorem optional_drop_iff : (∀ p ∈ ps.drop (requiredCount ps), p.isOptional = true) ↔
    ps.Pairwise fun p q => p.isOptional = true → q.isOptional = true := by
  induction ps with
  | nil => simp
  | cons p ps ih =>
    rw [List.pairwise_cons, ← ih, requiredCount_cons]
    cases required : p.isOptional with
    | false => simp
    | true =>
      rw [if_pos rfl]
      cases count : requiredCount ps with
      | zero => simp [required]
      | succ n =>
        -- the required ones cannot all be among fewer than they are
        constructor
        · intro behind
          have few : requiredCount (ps.take n) ≤ n :=
            Nat.le_trans requiredCount_le_length (List.length_take_le _ _)
          have parts : requiredCount (ps.take n) + requiredCount (ps.drop n) = n + 1 := by
            rw [← requiredCount_append, List.take_append_drop, count]
          have none : requiredCount (ps.drop n) = 0 := requiredCount_eq_zero.2 behind
          omega
        · rintro ⟨all, -⟩
          have none : requiredCount ps = 0 := requiredCount_eq_zero.2 fun q hq => all q hq rfl
          omega

/-! ### What is left out -/

/-- Whatever words a command comes with, if they can be read then every required parameter gets
one. -/
def Furnishes (ps : List Parameter) : Prop :=
  ∀ (resolver : Option EntityResolver) (words : List String) (args : List Argument),
    (readArguments resolver ps words).1 = .ok args →
      ∀ (i : Nat) (p : Parameter), ps[i]? = some p → args[i]? = some .default → p.isOptional = true

/-- A parameter is left out if there are no more words than stand before it. -/
theorem getElem?_eq_default_iff (ok : (readArguments resolver ps words).1 = .ok args) {i : Nat}
    (at_ : ps[i]? = some p) : args[i]? = some .default ↔ words.length ≤ i := by
  obtain ⟨-, -, all⟩ := readArguments_eq_ok.1 ok
  rw [getElem?_of_convertAll all, at_, Option.bind_some, Parameter.argument?_eq_default,
    List.getElem?_eq_none_iff]

/-- As many words as there are required parameters are enough, if they are the right ones. -/
theorem exists_readArguments (ps : List Parameter) :
    ∃ (words : List String) (args : List Argument),
    words.length = requiredCount ps ∧ (readArguments none ps words).1 = .ok args := by
  obtain ⟨args, ok⟩ := exists_convertAll_take none ps 0 (requiredCount ps)
  have length : ((ps.take (requiredCount ps)).map (·.kind.sample)).length = requiredCount ps := by
    rw [List.length_map, List.length_take, Nat.min_eq_left requiredCount_le_length]
  refine ⟨_, args, length, readArguments_eq_ok.2 ⟨?_, ?_, ok⟩⟩
  · exact Nat.le_of_eq length.symm
  · rw [length]
    exact requiredCount_le_length

/-- The parameters that a command leaves out are those behind its last word. So the required ones
always get a word exactly if none of them stands behind an optional one. -/
theorem readArguments_omits (ps : List Parameter) :
    (∀ (resolver : Option EntityResolver) (words : List String) (args : List Argument),
      (readArguments resolver ps words).1 = .ok args →
        ∀ (i : Nat) (p : Parameter), ps[i]? = some p →
          (args[i]? = some .default ↔ words.length ≤ i)) ∧
    (Furnishes ps ↔ ps.Pairwise fun p q => p.isOptional = true → q.isOptional = true) := by
  refine ⟨fun _ _ _ ok _ _ at_ => getElem?_eq_default_iff ok at_, ?_⟩
  rw [← optional_drop_iff]
  constructor
  · intro furnishes p hp
    obtain ⟨words, args, length, ok⟩ := exists_readArguments ps
    obtain ⟨i, hi⟩ := List.getElem?_of_mem hp
    rw [List.getElem?_drop] at hi
    refine furnishes none words args ok _ p hi ((getElem?_eq_default_iff ok hi).2 ?_)
    rw [length]
    exact Nat.le_add_right _ _
  · intro behind resolver words args ok i p at_ out
    have last := (getElem?_eq_default_iff ok at_).1 out
    obtain ⟨enough, -, -⟩ := readArguments_eq_ok.1 ok
    refine behind p (List.mem_of_getElem? (i := i - requiredCount ps) ?_)
    rw [List.getElem?_drop, Nat.add_sub_cancel' (Nat.le_trans enough last), at_]

/-- A required parameter behind an optional one is left out, although there is a word for it. -/
theorem exists_required_omitted :
    ∃ (ps : List Parameter) (words : List String) (args : List Argument),
    (readArguments none ps words).1 = .ok args ∧ words.length = requiredCount ps ∧
      ∃ (i : Nat) (p : Parameter), ps[i]? = some p ∧ p.isOptional = false ∧
        args[i]? = some .default :=
  ⟨[⟨.text, true⟩, ⟨.text, false⟩], ["door"], [.text "door", .default], rfl, rfl, 1, _, rfl, rfl,
    rfl⟩

/-- Where the optional parameter stands last, the word goes to the required one. -/
theorem omits_of_textThenText :
    (readArguments none [⟨.text, false⟩, ⟨.text, true⟩] ["door"]).1 =
        .ok [.text "door", .default] ∧
      Furnishes [⟨.text, false⟩, ⟨.text, true⟩] :=
  ⟨rfl, (readArguments_omits _).2.2 (by decide)⟩

end Prompter

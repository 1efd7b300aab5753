import Prompter.Proofs.Json.Reading
import Prompter.Script.Form

/-!
# Prompter.Proofs.Script.RoundTrip

A script that is written and read back is the same script (`Script.ofJson_compact_toJson`).

Of the spelling of numbers nothing is used but that the text of each literal of the script reads
back by itself (`Value.ReadsBack`). For everything else the two directions are compared: what an
expression, an option or an instruction is matched against is what was written for it
(`ofJson?_toJson`, `ofPayload?_content`), and its text can be read as deep as it nests
(`legible_toJson`).
-/

namespace Prompter

open Json Decoder Number

/-! ## Number literals -/

/-- A number is neither infinite nor a NaN. -/
def Number.IsFinite (x : Float32) : Prop := (singlePattern x).2 < binary32.infinity

instance (x : Float32) : Decidable (Number.IsFinite x) :=
  inferInstanceAs (Decidable ((singlePattern x).2 < binary32.infinity))

/-- The text written for a number reads back as that number. -/
def Value.ReadsBack (x : Float32) : Prop :=
  Value.decoder.run (compact (Value.number x).toJson) = .ok (.number x)

/-- A number has a numeral whose text reads as that numeral and which means the number. -/
def Value.HasNumeral (x : Float32) : Prop :=
  ∃ n, Numeral.ofSingle? x = some n ∧ n.Legible ∧ n.toSingle = x

theorem Value.hasNumeral_of_readsBack {x : Float32} (hfinite : Number.IsFinite x)
    (h : Value.ReadsBack x) : Value.HasNumeral x := by
  obtain ⟨n, hn⟩ : ∃ n, Numeral.ofSingle? x = some n := by
    have hbelow : ¬ binary32.infinity ≤ (singlePattern x).2 := by
      simpa [Number.IsFinite] using hfinite
    unfold Numeral.ofSingle?
    simp only [hbelow, if_false]
    split <;> exact ⟨_, rfl⟩
  have hdigital := Numeral.digital_of_ofSingle? hn
  have htext : skipSpaces n.text = n.text := by
    have hhead : ∀ c ∈ n.text.head?, isSpace c = false := fun c hc =>
      hdigital.no_space (List.mem_of_mem_head? hc)
    cases hcs : n.text with
    | nil => rfl
    | cons c cs => exact skipSpaces_cons (hhead c (by simp [hcs]))
  obtain ⟨m, rest, hread, hm⟩ : ∃ m rest, readNumeral n.text = .ok (m, rest) ∧ m.toSingle = x := by
    simp only [Value.ReadsBack, Decoder.run, Value.decoder, whole, Value.toJson, hn,
      Option.elim_some, compact, render, String.toList_ofList] at h
    rcases hvalue : readValue maxDepth n.text with fault | ⟨v, rest⟩
    · simp [hvalue] at h
    · cases v with
      | number m =>
        have hread := readNumeral_of_readValue hvalue
        refine ⟨m, rest, htext ▸ hread, ?_⟩
        simp only [hvalue, Value.ofJson?] at h
        split at h
        · exact Value.number.inj (Except.ok.inj h)
        · cases h
      | bool b => simp only [hvalue, Value.ofJson?] at h; split at h <;> cases h
      | string t => simp only [hvalue, Value.ofJson?] at h; split at h <;> cases h
      | null => simp [hvalue, Value.ofJson?] at h
      | array => simp [hvalue, Value.ofJson?] at h
      | object => simp [hvalue, Value.ofJson?] at h
  obtain ⟨rfl, -, hlegible⟩ := hdigital.legible_of_readNumeral hread
  exact ⟨n, hn, hlegible, hm⟩

theorem Value.HasNumeral.toJson {x : Float32} (h : Value.HasNumeral x) (k : Nat) :
    Legible k (Value.number x).toJson ∧
      Value.ofJson? (Value.number x).toJson = some (.number x) := by
  obtain ⟨n, hn, hlegible, rfl⟩ := h
  simp only [Value.toJson, hn, Option.elim_some]
  exact ⟨.number hlegible, rfl⟩

/-! ## Expressions -/

mutual

/-- The number literals of an expression. -/
def Expression.numbers : Expression → List Float32
  | .literal v => v.number?.toList
  | .read _ => []
  | .call _ args => Expression.numbersOf args

/-- The number literals of several expressions. -/
def Expression.numbersOf : List Expression → List Float32
  | [] => []
  | e :: es => e.numbers ++ Expression.numbersOf es

end

namespace Expression

mutual

/-- What an expression is matched against is what was written for it. -/
theorem ofJson?_toJson : ∀ e : Expression, (∀ x ∈ e.numbers, Value.HasNumeral x) →
    ofJson? e.toJson = some e
  | .literal (.bool b), _ => rfl
  | .literal (.text s), _ => rfl
  | .literal (.number x), h => by
    obtain ⟨n, hn, -, rfl⟩ := h x (by simp [numbers, Value.number?])
    simp [toJson, Value.toJson, hn, ofJson?]
  | .read x, _ => by simp [toJson, ofJson?, textMember?, presence, Json.text?]
  | .call f args, h => by
    have hargs := ofItems?_listToJson args (by simpa [numbers] using h)
    simp [toJson, ofJson?, textMember?, presence, Json.text?, argumentsOf, hargs, Arguments.join]

theorem ofItems?_listToJson : ∀ es : List Expression, (∀ x ∈ numbersOf es, Value.HasNumeral x) →
    ofItems? (listToJson es) = some es
  | [], _ => rfl
  | e :: es, h => by
    simp only [numbersOf, List.mem_append] at h
    simp [listToJson, ofItems?, ofJson?_toJson e fun x hx => h x (.inl hx),
      ofItems?_listToJson es fun x hx => h x (.inr hx)]

end

mutual

/-- The text of an expression can be read as deep as it nests. -/
theorem legible_toJson : ∀ (e : Expression) {k : Nat}, (∀ x ∈ e.numbers, Value.HasNumeral x) →
    e.toJson.depth ≤ k → Legible k e.toJson
  | .literal (.bool b), _, _, _ => .bool b
  | .literal (.text s), _, _, _ => .string s
  | .literal (.number x), k, h, _ => (h x (by simp [numbers, Value.number?])).toJson k |>.1
  | .read x, _, _, hdepth => legible_object hdepth fun _ _ => by simp [Legible.string]
  | .call f args, _, h, hdepth => by
    refine legible_object hdepth fun k hk => ?_
    simp only [depthOfMembers, Nat.max_le] at hk
    have hargs := legible_array hk.2.1 fun _ hk =>
      legible_listToJson args (by simpa [numbers] using h) hk
    simpa [Legible.string] using hargs

theorem legible_listToJson : ∀ (es : List Expression) {k : Nat},
    (∀ x ∈ numbersOf es, Value.HasNumeral x) → depthOfItems (listToJson es) ≤ k →
    ∀ v ∈ listToJson es, Legible k v
  | [], _, _, _ => by simp [listToJson]
  | e :: es, k, h, hdepth => by
    simp only [numbersOf, List.mem_append] at h
    simp only [listToJson, depthOfItems, Nat.max_le] at hdepth
    exact List.forall_mem_cons.2 ⟨legible_toJson e (fun x hx => h x (.inl hx)) hdepth.1,
      legible_listToJson es (fun x hx => h x (.inr hx)) hdepth.2⟩

end

end Expression

/-! ## Options -/

namespace ScriptOption

/-- The number literals of an option. -/
def numbers (o : ScriptOption) : List Float32 := o.condition.elim [] (·.numbers)

theorem optional?_textOrNull (s : Option String) :
    optional? Json.text? (some (textOrNull s)) = some s := by
  cases s <;> rfl

theorem optional?_condition {c : Option Expression}
    (h : ∀ x ∈ c.elim [] (·.numbers), Value.HasNumeral x) :
    optional? Expression.ofJson? (some (c.elim .null (·.toJson))) = some c := by
  cases c with
  | none => rfl
  | some e =>
    have he := Expression.ofJson?_toJson e h
    have hnull : e.toJson ≠ .null := fun hnull => by simp [hnull, Expression.ofJson?] at he
    simp only [Option.elim_some]
    cases hjson : e.toJson with
    | null => exact absurd hjson hnull
    | _ => simp [optional?, ← hjson, he]

/-- What an option is matched against is what was written for it. -/
theorem ofJson?_toJson {o : ScriptOption} (h : ∀ x ∈ o.numbers, Value.HasNumeral x) :
    ofJson? o.toJson = some o := by
  have hcondition := optional?_condition h
  simp [ofJson?, toJson, Payload.ofJson?, ofPayload?, Payload.fields?, fieldNames,
    fieldsOfMembers?, presence, optional?_textOrNull, hcondition, Json.text?, Json.flag?]

theorem listOfJson?_toJson (os : List ScriptOption)
    (h : ∀ o ∈ os, ∀ x ∈ o.numbers, Value.HasNumeral x) :
    listOfJson? (.array (os.map (·.toJson))) = some os := by
  simp only [listOfJson?]
  induction os with
  | nil => rfl
  | cons o os ih =>
    have ho := ofJson?_toJson (h o List.mem_cons_self)
    have hos := ih fun o ho => h o (List.mem_cons_of_mem _ ho)
    simp [ho, hos]

theorem legible_textOrNull (k : Nat) (s : Option String) : Legible k (textOrNull s) := by
  cases s
  · exact .null
  · exact .string _

/-- The text of an option can be read as deep as it nests. -/
theorem legible_toJson {o : ScriptOption} {k : Nat} (h : ∀ x ∈ o.numbers, Value.HasNumeral x)
    (hdepth : o.toJson.depth ≤ k) : Legible k o.toJson := by
  refine legible_object hdepth fun k hk => ?_
  have hcondition : Legible k (o.condition.elim .null (·.toJson)) := by
    simp only [depthOfMembers, Nat.max_le] at hk
    cases hc : o.condition with
    | none => exact .null
    | some e =>
      simp only [numbers, hc, Option.elim_some] at h hk
      exact Expression.legible_toJson e h hk.2.2.2.1
  simp [legible_textOrNull, Legible.string, Legible.bool, hcondition]

end ScriptOption

/-! ## Instructions -/

namespace Instruction

/-- The number literals of an instruction. -/
def numbers : Instruction → List Float32
  | line _ _ substitutions => Expression.numbersOf substitutions
  | options os => os.flatMap (·.numbers)
  | set _ value => value.numbers
  | _ => []

def kind : Instruction → Kind
  | line _ _ _ => .line
  | options _ => .options
  | command _ => .command
  | jump _ => .jump
  | set _ _ => .set
  | stop => .stop

/-- What is written beside the tag of an instruction. -/
def content : Instruction → List (String × Json)
  | line id text substitutions =>
    [("id", .string id), ("text", .string text),
      ("substitutions", .array (Expression.listToJson substitutions))]
  | options os => [("options", .array (os.map (·.toJson)))]
  | command text => [("text", .string text)]
  | jump node => [("node", .string node)]
  | set name value => [("variable", .string name), ("value", value.toJson)]
  | stop => []

theorem toJson_eq (i : Instruction) :
    i.toJson = .object (("type", .string i.kind.tag) :: i.content) := by
  cases i <;> rfl

theorem Kind.ofTag?_tag (k : Kind) : Kind.ofTag? k.tag = some k := by
  cases k <;> rfl

/-- No content is written under the name of the tag. -/
theorem ne_type_of_mem_content {i : Instruction} {m : String × Json} (h : m ∈ i.content) :
    m.1 ≠ "type" := by
  revert m
  cases i <;> simp [content]

/-- What an instruction is matched against is what was written for it. -/
theorem ofPayload?_content {i : Instruction} (h : ∀ x ∈ i.numbers, Value.HasNumeral x) :
    ofPayload? i.kind (.members i.content) = some i := by
  cases i with
  | line id text substitutions =>
    have hlist : Expression.listOfJson? (.array (Expression.listToJson substitutions)) =
        some substitutions := Expression.ofItems?_listToJson substitutions h
    simp [kind, content, ofPayload?, Payload.fields?, fieldsOfMembers?, presence, Json.text?, hlist]
  | options os =>
    have hlist := ScriptOption.listOfJson?_toJson os fun o ho x hx =>
      h x (List.mem_flatMap.2 ⟨o, ho, hx⟩)
    simp [kind, content, ofPayload?, Payload.fields?, fieldsOfMembers?, presence, hlist]
  | command text =>
    simp [kind, content, ofPayload?, Payload.fields?, fieldsOfMembers?, presence, Json.text?]
  | jump node =>
    simp [kind, content, ofPayload?, Payload.fields?, fieldsOfMembers?, presence, Json.text?]
  | set name value =>
    have hvalue := Expression.ofJson?_toJson value h
    simp [kind, content, ofPayload?, Payload.fields?, fieldsOfMembers?, presence, Json.text?,
      hvalue]
  | stop => rfl

/-- The content of an instruction can be read as deep as it nests. -/
theorem legible_content {i : Instruction} {k : Nat} (h : ∀ x ∈ i.numbers, Value.HasNumeral x)
    (hdepth : depthOfMembers i.content ≤ k) : ∀ m ∈ i.content, Legible k m.2 := by
  cases i with
  | line id text substitutions =>
    simp only [content, depthOfMembers, Nat.max_le] at hdepth
    have hlist := legible_array hdepth.2.2.1 fun _ hk =>
      Expression.legible_listToJson substitutions h hk
    simp [content, Legible.string, hlist]
  | options os =>
    simp only [content, depthOfMembers, Nat.max_le] at hdepth
    have hlist := legible_array hdepth.1 fun k hk v hv => by
      obtain ⟨o, ho, rfl⟩ := List.mem_map.1 hv
      exact ScriptOption.legible_toJson (fun x hx => h x (List.mem_flatMap.2 ⟨o, ho, hx⟩))
        (depthOfItems_le.1 hk _ hv)
    simp [content, hlist]
  | command text => simp [content, Legible.string]
  | jump node => simp [content, Legible.string]
  | set name value =>
    simp only [content, depthOfMembers, Nat.max_le] at hdepth
    simp [content, Legible.string, Expression.legible_toJson value h hdepth.2.1]
  | stop => simp [content]

/-- Behind its tag the reader of an instruction collects its content. -/
theorem takes_member {k : Nat} (kind : Kind) {members : List (String × Json)}
    (hlegible : ∀ m ∈ members, Legible k m.2) (htype : ∀ m ∈ members, m.1 ≠ "type")
    (read : List (String × Json)) :
    Takes (member k) ⟨some kind, read⟩ members ⟨some kind, members.reverse ++ read⟩ := by
  induction members generalizing read with
  | nil => exact .nil _
  | cons m members ih =>
    rw [List.reverse_cons, List.append_assoc]
    refine .cons (fun rest hrest => ?_)
      (ih (List.forall_mem_cons.1 hlegible).2 (List.forall_mem_cons.1 htype).2 (m :: read))
    have hread := (hlegible m List.mem_cons_self).reads rest hrest
    simp [member, htype m List.mem_cons_self, passColon_cons, hread, Except.map]

/-- The text of an instruction reads as that instruction. -/
theorem reads_decoder {i : Instruction} {k : Nat} (h : ∀ x ∈ i.numbers, Value.HasNumeral x)
    (hdepth : i.toJson.depth ≤ k) : Reads (decoder k) i.toJson i := by
  intro rest hrest
  rw [toJson_eq] at hdepth ⊢
  simp only [depth] at hdepth
  obtain ⟨k, rfl⟩ := Nat.exists_eq_add_of_le' (Nat.le_of_add_left_le hdepth)
  have hcontent : depthOfMembers i.content ≤ k := by
    simp only [depthOfMembers] at hdepth
    omega
  have htag : Reads (fun cs => member k {} "type" (':' :: cs)) (.string i.kind.tag)
      ⟨some i.kind, []⟩ := by
    intro rest hrest
    simp [member, passColon_cons, reads_name (Kind.ofTag?_tag i.kind) rest hrest, Except.map]
  have htakes := Takes.cons htag (takes_member i.kind (legible_content h hcontent)
    (fun m hm => ne_type_of_mem_content hm) [])
  obtain ⟨cs, hcs⟩ := render_object (("type", .string i.kind.tag) :: i.content) rest
  rw [hcs]
  simp only [decoder, skipSpaces_cons (c := '{') rfl, htakes.foldMembers_render hcs]
  simp [close, ofPayload?_content h]

end Instruction

/-! ## Scripts -/

namespace Script

/-- The number literals of a script. -/
def numbers (s : Script) : List Float32 := s.nodes.entries.flatMap fun e => e.2.flatMap (·.numbers)

/-- The text of a script reads as that script. -/
theorem reads_decoder {s : Script} {k : Nat} (h : ∀ x ∈ s.numbers, Value.HasNumeral x)
    (hdepth : s.toJson.depth ≤ k) : Reads (decoder k) s.toJson s := by
  -- One brace is for the script and one for its nodes.
  simp only [toJson, depth, depthOfMembers, Nat.max_zero] at hdepth
  obtain ⟨k, rfl⟩ := Nat.exists_eq_add_of_le' (show 2 ≤ k by omega)
  have hentries := depthOfMembers_le.1
    (Nat.le_of_add_le_add_right (Nat.le_of_add_le_add_right hdepth))
  have hnodes : ∀ e ∈ s.nodes.entries, Reads (list Instruction.decoder k)
      (.array (e.2.map (·.toJson))) e.2 := by
    intro e he
    have hentry := hentries _ (List.mem_map.2 ⟨e, he, rfl⟩)
    simp only [depth] at hentry
    obtain ⟨k, rfl⟩ := Nat.exists_eq_add_of_le' (Nat.le_of_add_left_le hentry)
    refine reads_list (fun i hi => ?_) fun i _ => ?_
    · have hi' := depthOfItems_le.1 (Nat.le_of_add_le_add_right hentry) _
        (List.mem_map.2 ⟨i, hi, rfl⟩)
      exact Instruction.reads_decoder
        (fun x hx => h x (List.mem_flatMap.2 ⟨e, he, List.mem_flatMap.2 ⟨i, hi, hx⟩⟩)) hi'
    · rw [Instruction.toJson_eq]
      exact ⟨'{', _, rfl, by decide⟩
  have htable := reads_table (f := fun is : List Instruction => .array (is.map (·.toJson))) hnodes
  exact reads_record (.cons (reads_member rfl rfl (htable.map fun t _ => some t)) (.nil _)) rfl

/-- A valid script whose literals are finite and which does not nest too deep is read back as it was
written. The spelling of numbers is only assumed to read back each of the literals by itself. -/
theorem ofJson_compact_toJson (s : Script) (hvalid : s.dangling? = none)
    (hfinite : ∀ x ∈ s.numbers, Number.IsFinite x)
    (hspelling : ∀ x ∈ s.numbers, Number.IsFinite x → Value.ReadsBack x)
    (hdepth : s.toJson.depth ≤ maxDepth) : ofJson (compact s.toJson) = .ok s := by
  have hnumbers : ∀ x ∈ s.numbers, Value.HasNumeral x := fun x hx =>
    Value.hasNumeral_of_readsBack (hfinite x hx) (hspelling x hx (hfinite x hx))
  simp only [ofJson, run_compact (reads_decoder hnumbers hdepth), hvalid]

/-- A script with every kind of instruction and every shape of expression. -/
def errand : Script where
  nodes :=
    ⟨[("Door",
        [.line "door" "\"Who is there?\"\n\u0007" [.call "name" [.read "$who", .call "me" []]],
        .options [{ text := "Nobody" },
          { id := some "in", text := "Come in", condition := some (.literal (.bool true)),
            destination := some "Ψ" }],
        .jump "Door"]),
      ("Ψ",
        [.set "$warmth" (.literal (.number (single true 0x40200000))), .command "wave", .stop])],
    by decide⟩

theorem errand_roundTrip : errand.dangling? = none ∧ errand.toJson.depth = 9 ∧
    errand.numbers = [single true 0x40200000] ∧ ofJson (compact errand.toJson) = .ok errand := by
  have hnumbers : errand.numbers = [single true 0x40200000] := rfl
  refine ⟨by decide, by decide, hnumbers,
    ofJson_compact_toJson errand (by decide) ?_ ?_ (by decide)⟩
  · rw [hnumbers]
    simp only [List.forall_mem_singleton]
    decide
  · rw [hnumbers]
    simp only [List.forall_mem_singleton]
    exact fun _ => rfl

end Script

end Prompter

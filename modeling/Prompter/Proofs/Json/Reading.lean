import Prompter.Forms
import Prompter.Proofs.Json.Spelling

/-!
# Prompter.Proofs.Json.Reading

Decoders on the compact text of a JSON value.

`Reads p v a` says that a reader makes `a` of the text of `v` and stops right behind it, whatever
may come after a value there. It holds of the reader of whole values for every legible value
(`Legible.reads`) and is carried through arrays by `reads_list`, through objects by `Takes`, which
follows the state of a reader from member to member.
-/

namespace Prompter.Json

variable {α β σ : Type}

/-! ## Depth -/

mutual

/-- How deep the brackets and braces of a value nest. -/
def depth : Json → Nat
  | .array items => depthOfItems items + 1
  | .object members => depthOfMembers members + 1
  | _ => 0

/-- How deep the deepest of several items nests. -/
def depthOfItems : List Json → Nat
  | [] => 0
  | item :: items => max item.depth (depthOfItems items)

/-- How deep the deepest value of several members nests. -/
def depthOfMembers : List (String × Json) → Nat
  | [] => 0
  | (_, value) :: members => max value.depth (depthOfMembers members)

end

theorem depthOfItems_le {items : List Json} {k : Nat} :
    depthOfItems items ≤ k ↔ ∀ v ∈ items, v.depth ≤ k := by
  induction items with
  | nil => simp [depthOfItems]
  | cons v items ih =>
    simp only [depthOfItems, Nat.max_le, ih, List.forall_mem_cons]

theorem depthOfMembers_le {members : List (String × Json)} {k : Nat} :
    depthOfMembers members ≤ k ↔ ∀ m ∈ members, m.2.depth ≤ k := by
  induction members with
  | nil => simp [depthOfMembers]
  | cons m members ih =>
    simp only [depthOfMembers, Nat.max_le, ih, List.forall_mem_cons]

/-- A numeral whose text reads as that numeral. -/
structure Numeral.Legible (n : Numeral) : Prop where
  digital : n.Digital
  spelled : n.Spelled
  inRange : n.amount?.isSome = true

/-- A value whose text can be read within a budget of brackets and braces. -/
inductive Legible : Nat → Json → Prop
  | null {k : Nat} : Legible k .null
  | bool {k : Nat} (b : Bool) : Legible k (.bool b)
  | number {k : Nat} {n : Numeral} (h : n.Legible) : Legible k (.number n)
  | string {k : Nat} (s : String) : Legible k (.string s)
  | array {k : Nat} {items : List Json} (h : ∀ v ∈ items, Legible k v) :
      Legible (k + 1) (.array items)
  | object {k : Nat} {members : List (String × Json)} (h : ∀ m ∈ members, Legible k m.2) :
      Legible (k + 1) (.object members)

theorem legible_array {items : List Json} {k : Nat} (hdepth : (Json.array items).depth ≤ k)
    (h : ∀ k, depthOfItems items ≤ k → ∀ v ∈ items, Legible k v) : Legible k (.array items) := by
  simp only [depth] at hdepth
  obtain ⟨k, rfl⟩ := Nat.exists_eq_add_of_le' (Nat.le_of_add_left_le hdepth)
  exact .array (h k (by omega))

theorem legible_object {members : List (String × Json)} {k : Nat}
    (hdepth : (Json.object members).depth ≤ k)
    (h : ∀ k, depthOfMembers members ≤ k → ∀ m ∈ members, Legible k m.2) :
    Legible k (.object members) := by
  simp only [depth] at hdepth
  obtain ⟨k, rfl⟩ := Nat.exists_eq_add_of_le' (Nat.le_of_add_left_le hdepth)
  exact .object (h k (by omega))

/-! ## What stands before and after a value -/

/-- What follows a value: nothing, a comma or a closing bracket or brace. -/
def Ends (cs : List Char) : Prop := ∀ c ∈ cs.head?, c = ',' ∨ c = ']' ∨ c = '}'

theorem ends_nil : Ends [] := by simp [Ends]

theorem Ends.noNumeral {cs : List Char} (h : Ends cs) : NoNumeral cs := by
  intro c hc
  rcases h c hc with rfl | rfl | rfl <;> decide

theorem ends_renderItems (items : List Json) (rest : List Char) :
    Ends (renderItems items ++ rest) := by
  cases items <;> simp [renderItems, Ends]

theorem ends_renderMembers (members : List (String × Json)) (rest : List Char) :
    Ends (renderMembers members ++ rest) := by
  obtain _ | ⟨⟨name, value⟩, members⟩ := members <;> simp [renderMembers, Ends]

/-- The text of a value starts with the value: not with a blank nor with a closing bracket. -/
def Opens (v : Json) : Prop := ∃ c cs, render v = c :: cs ∧ isSpace c = false ∧ c ≠ ']'

@[simp] theorem skipSpaces_cons {c : Char} {cs : List Char} (h : isSpace c = false) :
    skipSpaces (c :: cs) = c :: cs := by
  simp [skipSpaces, h]

/-- The text of a numeral starts with its sign or a digit. -/
theorem Numeral.Legible.text_eq_cons {n : Numeral} (h : n.Legible) :
    ∃ c cs, n.text = c :: cs ∧ (c = '-' ∨ c.isDigit = true) := by
  obtain ⟨d, ds, hd⟩ := List.exists_cons_of_ne_nil h.spelled.some_whole
  rw [Numeral.text_eq]
  cases n.negative with
  | true => exact ⟨'-', _, rfl, .inl rfl⟩
  | false => exact ⟨d, _, by rw [hd]; rfl, .inr (h.digital.whole d (hd ▸ List.mem_cons_self))⟩

theorem opening_of_numeral {c : Char} (h : c = '-' ∨ c.isDigit = true) :
    isSpace c = false ∧ c ≠ ']' ∧ c ≠ 'n' ∧ c ≠ 't' ∧ c ≠ 'f' ∧ c ≠ '"' ∧ c ≠ '[' ∧ c ≠ '{' := by
  rcases h with rfl | h
  · decide
  · refine ⟨?_, ?_, ?_, ?_, ?_, ?_, ?_, ?_⟩
    · simp only [isSpace, Bool.or_eq_false_iff, decide_eq_false_iff_not]
      refine ⟨⟨⟨?_, ?_⟩, ?_⟩, ?_⟩ <;> (rintro rfl; revert h; decide)
    all_goals (rintro rfl; revert h; decide)

theorem Legible.opens {k : Nat} {v : Json} (h : Legible k v) : Opens v := by
  cases h with
  | null => exact ⟨'n', _, rfl, by decide⟩
  | bool b => cases b <;> exact ⟨_, _, rfl, by decide⟩
  | number h =>
    obtain ⟨c, cs, hc, hfirst⟩ := h.text_eq_cons
    have hopen := opening_of_numeral hfirst
    exact ⟨c, cs, hc, hopen.1, hopen.2.1⟩
  | string s => exact ⟨'"', _, rfl, by decide⟩
  | @array _ items _ => cases items <;> exact ⟨'[', _, rfl, by decide⟩
  | @object _ members _ =>
    obtain _ | ⟨⟨name, value⟩, members⟩ := members <;> exact ⟨'{', _, rfl, by decide⟩

/-- Every further item takes up some text, and so does the closing bracket. -/
theorem length_lt_renderItems (items : List Json) : items.length < (renderItems items).length := by
  induction items with
  | nil => simp [renderItems]
  | cons v items ih =>
    simp only [renderItems, List.length_cons, List.length_append]
    omega

theorem length_lt_renderMembers (members : List (String × Json)) :
    members.length < (renderMembers members).length := by
  induction members with
  | nil => simp [renderMembers]
  | cons m members ih =>
    obtain ⟨name, value⟩ := m
    simp only [renderMembers, List.length_cons, List.length_append]
    omega

/-! ## Readers of values -/

/-- A reader makes `a` of the text of `v` and leaves what follows. -/
def Reads (p : List Char → Parse α) (v : Json) (a : α) : Prop :=
  ∀ rest, Ends rest → p (render v ++ rest) = .ok (a, rest)

theorem Reads.map {p : List Char → Parse α} {v : Json} {a : α} (h : Reads p v a) (f : α → β) :
    Reads (fun cs => (p cs).map fun (a, rest) => (f a, rest)) v (f a) := by
  intro rest hrest
  simp [h rest hrest, Except.map]

/-- Goes to the next of the items that are read into a list, the last one first. -/
def collect (p : List Char → Parse α) (items : List α) (cs : List Char) : Parse (List α) :=
  (p cs).map fun (a, cs) => (a :: items, cs)

theorem nextPart_close (close : Char) (h : isSpace close = false) (first : Bool)
    (rest : List Char) : nextPart close first (close :: rest) = .ok (.close rest) := by
  simp [nextPart, h]

theorem nextPart_first (close : Char) {c : Char} (h : isSpace c = false) (hc : c ≠ close)
    (rest : List Char) : nextPart close true (c :: rest) = .ok (.more (c :: rest)) := by
  simp [nextPart, h, hc]

theorem nextPart_comma (close : Char) {c : Char} (hclose : close ≠ ',') (h : isSpace c = false)
    (hc : c ≠ close) (rest : List Char) :
    nextPart close false (',' :: c :: rest) = .ok (.more (c :: rest)) := by
  have hcomma : isSpace ',' = false := rfl
  simp [nextPart, h, hc, hcomma, hclose.symm]

/-- Reading on after the first item collects all further items up to the closing bracket. -/
theorem foldItems_renderItems {p : List Char → Parse α} {f : α → Json} {as : List α}
    (hread : ∀ a ∈ as, Reads p (f a) a) (hopen : ∀ a ∈ as, Opens (f a)) (rest : List Char) :
    ∀ (fuel : Nat) (items : List α), as.length < fuel →
      foldItems (collect p) fuel false items (renderItems (as.map f) ++ rest) =
        .ok (as.reverse ++ items, rest) := by
  induction as with
  | nil =>
    intro fuel items hfuel
    obtain ⟨fuel, rfl⟩ := Nat.exists_eq_succ_of_ne_zero (Nat.ne_of_gt hfuel)
    simp [foldItems, nextItem, renderItems, nextPart_close ']' rfl]
  | cons a as ih =>
    intro fuel items hfuel
    obtain ⟨fuel, rfl⟩ := Nat.exists_eq_succ_of_ne_zero (Nat.ne_of_gt (Nat.zero_lt_of_lt hfuel))
    have ih := ih (List.forall_mem_cons.1 hread).2 (List.forall_mem_cons.1 hopen).2 fuel
      (a :: items) (by simpa using hfuel)
    obtain ⟨c, cs, hc, hspace, hclose⟩ := hopen a List.mem_cons_self
    have hitem := hread a List.mem_cons_self _ (ends_renderItems (as.map f) rest)
    rw [hc, List.cons_append] at hitem
    simp only [List.map_cons, renderItems, hc, List.cons_append, List.append_assoc, foldItems,
      nextItem, nextPart_comma ']' (by decide) hspace hclose, collect, hitem, Except.map] at ih ⊢
    simpa [collect] using ih

/-- Reading the items of an array collects them all. -/
theorem foldItems_render {p : List Char → Parse α} {f : α → Json} {as : List α}
    (hread : ∀ a ∈ as, Reads p (f a) a) (hopen : ∀ a ∈ as, Opens (f a)) {rest cs : List Char}
    (hcs : render (.array (as.map f)) ++ rest = '[' :: cs) :
    foldItems (collect p) (cs.length + 1) true [] cs = .ok (as.reverse, rest) := by
  cases as with
  | nil =>
    obtain rfl : ']' :: rest = cs := by simpa [render] using hcs
    simp [foldItems, nextItem, nextPart_close ']' rfl]
  | cons a as =>
    obtain rfl : render (f a) ++ (renderItems (as.map f) ++ rest) = cs := by
      simpa [render] using hcs
    have hfuel : as.length < (render (f a) ++ (renderItems (as.map f) ++ rest)).length := by
      have hlength := length_lt_renderItems (as.map f)
      simp only [List.length_map] at hlength
      simp only [List.length_append]
      omega
    have hitems := foldItems_renderItems (List.forall_mem_cons.1 hread).2
      (List.forall_mem_cons.1 hopen).2 rest _ [a] hfuel
    obtain ⟨c, cs, hc, hspace, hclose⟩ := hopen a List.mem_cons_self
    have hitem := hread a List.mem_cons_self _ (ends_renderItems (as.map f) rest)
    rw [hc, List.cons_append] at hitem hitems ⊢
    simp only [foldItems, nextItem, nextPart_first ']' hspace hclose, collect, hitem, Except.map]
    simpa [collect] using hitems

/-- The members of an object take a reader from one state to another. -/
inductive Takes (step : σ → String → List Char → Parse σ) : σ → List (String × Json) → σ → Prop
  | nil (state : σ) : Takes step state [] state
  | cons {state next last : σ} {name : String} {value : Json} {members : List (String × Json)}
      (h : Reads (fun cs => step state name (':' :: cs)) value next)
      (hrest : Takes step next members last) : Takes step state ((name, value) :: members) last

theorem nextMember_close (first : Bool) (rest : List Char) :
    nextMember first ('}' :: rest) = .ok (.close rest) := by
  simp [nextMember, nextPart_close '}' rfl]

theorem nextMember_first (name : String) (rest : List Char) :
    nextMember true (quote name ++ rest) =
      .ok (.more (encode name.toList ++ '"' :: rest)) := by
  simp [nextMember, quote, nextPart_first '}' (c := '"') rfl (by decide)]

theorem nextMember_comma (name : String) (rest : List Char) :
    nextMember false (',' :: (quote name ++ rest)) =
      .ok (.more (encode name.toList ++ '"' :: rest)) := by
  simp [nextMember, quote, nextPart_comma '}' (c := '"') (by decide) rfl (by decide)]

/-- Reading on after the first member passes through all further ones up to the closing brace. -/
theorem Takes.foldMembers_renderMembers {step : σ → String → List Char → Parse σ} {state last : σ}
    {members : List (String × Json)} (h : Takes step state members last) (rest : List Char) :
    ∀ fuel, members.length < fuel →
      foldMembers step fuel false state (renderMembers members ++ rest) = .ok (last, rest) := by
  induction h with
  | nil state =>
    intro fuel hfuel
    obtain ⟨fuel, rfl⟩ := Nat.exists_eq_succ_of_ne_zero (Nat.ne_of_gt hfuel)
    simp [foldMembers, renderMembers, nextMember_close]
  | @cons state next last name value members h hrest ih =>
    intro fuel hfuel
    obtain ⟨fuel, rfl⟩ := Nat.exists_eq_succ_of_ne_zero (Nat.ne_of_gt (Nat.zero_lt_of_lt hfuel))
    have hmember := h _ (ends_renderMembers members rest)
    simp only [renderMembers, List.cons_append, List.append_assoc, foldMembers, nextMember_comma,
      decode_encode, String.ofList_toList, hmember]
    exact ih fuel (by simpa using hfuel)

/-- Reading an object passes through its members. -/
theorem Takes.foldMembers_render {step : σ → String → List Char → Parse σ} {state last : σ}
    {members : List (String × Json)} (h : Takes step state members last) {rest cs : List Char}
    (hcs : render (.object members) ++ rest = '{' :: cs) :
    foldMembers step (cs.length + 1) true state cs = .ok (last, rest) := by
  cases h with
  | nil =>
    obtain rfl : '}' :: rest = cs := by simpa [render] using hcs
    simp [foldMembers, nextMember_close]
  | @cons _ next _ name value members h hrest =>
    obtain rfl : quote name ++ (':' :: (render value ++ (renderMembers members ++ rest))) = cs := by
      simpa [render] using hcs
    have hfuel : members.length <
        (quote name ++ (':' :: (render value ++ (renderMembers members ++ rest)))).length := by
      have hlength := length_lt_renderMembers members
      simp only [List.length_append, List.length_cons]
      omega
    have hmember := h _ (ends_renderMembers members rest)
    simp only [foldMembers, nextMember_first, decode_encode, String.ofList_toList, hmember]
    exact hrest.foldMembers_renderMembers rest _ hfuel

theorem render_array (items : List Json) (rest : List Char) :
    ∃ cs, render (.array items) ++ rest = '[' :: cs := by
  cases items <;> exact ⟨_, rfl⟩

theorem render_object (members : List (String × Json)) (rest : List Char) :
    ∃ cs, render (.object members) ++ rest = '{' :: cs := by
  obtain _ | ⟨⟨name, value⟩, members⟩ := members <;> exact ⟨_, rfl⟩

/-! ## The readers of the decoders -/

theorem readNumeral_text {n : Numeral} (h : n.Legible) {rest : List Char} (hrest : NoNumeral rest) :
    readNumeral (n.text ++ rest) = .ok (n, rest) := by
  simp [readNumeral, (Numeral.readSpelling_text h.digital hrest).2 ⟨rfl, h.spelled⟩, h.inRange]

theorem passColon_cons (cs : List Char) : passColon (':' :: cs) = .ok cs := by
  simp [passColon, skipSpaces_cons (c := ':') rfl]

/-- No blank stands inside a numeral. -/
theorem Numeral.Digital.no_space {n : Numeral} (h : n.Digital) {c : Char} (hc : c ∈ n.text) :
    isSpace c = false := by
  have hdigit : ∀ c : Char, c.isDigit = true → isSpace c = false := fun c hc =>
    (opening_of_numeral (.inr hc)).1
  obtain ⟨negative, whole, fraction, exponent⟩ := n
  rw [Numeral.text_eq] at hc
  simp only [List.mem_append] at hc
  rcases hc with hc | hc | hc | hc
  · cases negative <;> simp at hc
    subst hc
    rfl
  · exact hdigit c (h.whole c hc)
  · cases fraction with
    | none => cases hc
    | some ds =>
      rcases List.mem_cons.1 hc with rfl | hc
      · rfl
      · exact hdigit c (h.fraction ds rfl c hc)
  · cases exponent with
    | none => cases hc
    | some e =>
      obtain ⟨below, ds⟩ := e
      rcases List.mem_cons.1 hc with rfl | hc
      · rfl
      rcases List.mem_cons.1 hc with rfl | hc
      · cases below <;> rfl
      · exact hdigit c (h.exponent _ rfl c hc)

/-- A value that reads as a number starts with a numeral. -/
theorem readNumeral_of_readValue {k : Nat} {cs rest : List Char} {n : Numeral}
    (h : readValue k cs = .ok (.number n, rest)) : readNumeral (skipSpaces cs) = .ok (n, rest) := by
  have hmap : ∀ {γ : Type} {x : Except Fault γ} {f : γ → Json × List Char},
      x.map f = .ok (.number n, rest) → ∃ a, x = .ok a ∧ f a = (.number n, rest) := by
    intro γ x f h
    cases x with
    | error fault => cases h
    | ok a => exact ⟨a, rfl, Except.ok.inj h⟩
  unfold readValue at h
  split at h
  · cases h
  rename_i c rest' hcs
  rw [hcs]
  split at h
  · obtain ⟨_, -, ⟨⟩⟩ := hmap h
  split at h
  · obtain ⟨_, -, ⟨⟩⟩ := hmap h
  split at h
  · obtain ⟨_, -, ⟨⟩⟩ := hmap h
  split at h
  · obtain ⟨_, -, ⟨⟩⟩ := hmap h
  split at h
  · obtain ⟨⟨m, _⟩, hread, ⟨⟩⟩ := hmap h
    exact hread
  split at h
  · split at h
    · cases h
    · obtain ⟨_, -, ⟨⟩⟩ := hmap h
  split at h
  · split at h
    · cases h
    · obtain ⟨_, -, ⟨⟩⟩ := hmap h
  · cases h

/-- A numeral whose text can be read at all is legible, and what is read is the numeral. -/
theorem Numeral.Digital.legible_of_readNumeral {n m : Numeral} (h : n.Digital) {rest : List Char}
    (hread : readNumeral n.text = .ok (m, rest)) : n = m ∧ rest = [] ∧ n.Legible := by
  unfold readNumeral at hread
  split at hread
  · cases hread
  rename_i n' rest' hspelling
  split at hread
  · rename_i hrange
    obtain ⟨rfl, rfl⟩ := Prod.mk.inj (Except.ok.inj hread)
    rw [← List.append_nil n.text] at hspelling
    obtain ⟨hsame, hspelled⟩ := (readSpelling_text h ends_nil.noNumeral).1 hspelling
    obtain ⟨rfl, rfl⟩ := Prod.mk.inj hsame
    exact ⟨rfl, rfl, h, hspelled, hrange⟩
  · cases hread

/-- Reads a member of an object that is collected, the last one first. -/
def collectMember (p : List Char → Parse Json) (members : List (String × Json)) (name : String)
    (cs : List Char) : Parse (List (String × Json)) :=
  match passColon cs with
  | .error fault => .error fault
  | .ok cs => (p cs).map fun (v, cs) => ((name, v) :: members, cs)

theorem takes_collectMember {p : List Char → Parse Json} {members : List (String × Json)}
    (h : ∀ m ∈ members, Reads p m.2 m.2) (read : List (String × Json)) :
    Takes (collectMember p) read members (members.reverse ++ read) := by
  induction members generalizing read with
  | nil => exact .nil read
  | cons m members ih =>
    rw [List.reverse_cons, List.append_assoc]
    refine .cons (fun rest hrest => ?_) (ih (List.forall_mem_cons.1 h).2 (m :: read))
    simp [collectMember, passColon_cons, h m List.mem_cons_self rest hrest, Except.map]

/-- The reader of whole values reads back every legible value. -/
theorem Legible.reads {k : Nat} {v : Json} (h : Legible k v) : Reads (readValue k) v v := by
  intro rest hrest
  induction h generalizing rest with
  | null => simp [readValue, render, readWord, Except.map, skipSpaces_cons (c := 'n') rfl]
  | bool b =>
    cases b
    · simp [readValue, render, boolText, readWord, Except.map, skipSpaces_cons (c := 'f') rfl]
    · simp [readValue, render, boolText, readWord, Except.map, skipSpaces_cons (c := 't') rfl]
  | @number k n h =>
    obtain ⟨c, cs, hc, hfirst⟩ := h.text_eq_cons
    obtain ⟨hspace, -, hn, ht, hf, hquote, -, -⟩ := opening_of_numeral hfirst
    have hread := readNumeral_text h hrest.noNumeral
    simp only [render, hc, List.cons_append] at hread ⊢
    have hdigit : (decide (c = '-') || c.isDigit) = true := by simpa using hfirst
    unfold readValue
    simp [skipSpaces_cons hspace, hn, ht, hf, hquote, hdigit, hread, Except.map]
  | string s =>
    simp [readValue, render, quote, decode_encode, Except.map, skipSpaces_cons (c := '"') rfl]
  | @array k items h ih =>
    obtain ⟨cs, hcs⟩ := render_array items rest
    have hitems := foldItems_render (p := readValue k) (f := id) (fun v hv => ih v hv)
      (fun v hv => (h v hv).opens) (by rw [List.map_id]; exact hcs)
    rw [hcs]
    unfold readValue
    simp only [skipSpaces_cons (c := '[') rfl]
    change Except.map _ (foldItems (collect (readValue k)) (cs.length + 1) true [] cs) = _
    simp [hitems, Except.map]
  | @object k members _ ih =>
    obtain ⟨cs, hcs⟩ := render_object members rest
    have hmembers := (takes_collectMember (fun m hm => ih m hm) []).foldMembers_render hcs
    rw [hcs]
    unfold readValue
    simp only [skipSpaces_cons (c := '{') rfl]
    change Except.map _ (foldMembers (collectMember (readValue k)) (cs.length + 1) true [] cs) = _
    simp [hmembers, Except.map]

namespace Decoder

theorem reads_text (k : Nat) (s : String) : Reads (Decoder.text k) (.string s) s := by
  intro rest _
  simp [Decoder.text, render, quote, decode_encode, Except.map, skipSpaces_cons (c := '"') rfl]

theorem reads_name {k : Nat} {lookup : String → Option α} {s : String} {a : α}
    (h : lookup s = some a) : Reads (name lookup k) (.string s) a := by
  intro rest hrest
  simp [name, reads_text k s rest hrest, h]

/-- An array of values that read back reads back. -/
theorem reads_list {d : Decoder α} {k : Nat} {f : α → Json} {as : List α}
    (hread : ∀ a ∈ as, Reads (d k) (f a) a) (hopen : ∀ a ∈ as, Opens (f a)) :
    Reads (list d (k + 1)) (.array (as.map f)) as := by
  intro rest hrest
  obtain ⟨cs, hcs⟩ := render_array (as.map f) rest
  have hitems := foldItems_render hread hopen hcs
  rw [hcs]
  simp only [list, skipSpaces_cons (c := '[') rfl]
  change Except.map _ (foldItems (collect (d k)) (cs.length + 1) true [] cs) = _
  simp [hitems, Except.map]

/-- Reads a member of an object that is put into a table. -/
def tabulate (d : List Char → Parse α) (t : Table α) (name : String) (cs : List Char) :
    Parse (Table α) :=
  match passColon cs with
  | .error fault => .error fault
  | .ok cs => (d cs).map fun (a, cs) => (t.insert name a, cs)

/-- Entries that come after all those of a table go to its end. -/
theorem insertEntry_of_lt {name : String} {a : α} {es : List (String × α)}
    (h : ∀ e ∈ es, e.1 < name) : Table.insertEntry name a es = es ++ [(name, a)] := by
  induction es with
  | nil => rfl
  | cons e es ih =>
    have hlt : e.1 < name := h e List.mem_cons_self
    have hnot : ¬ name < e.1 := String.lt_asymm hlt
    have hne : name ≠ e.1 := fun heq => String.lt_irrefl _ (heq ▸ hlt)
    simp [Table.insertEntry, hnot, hne, ih fun e he => h e (List.mem_cons_of_mem _ he)]

/-- Members in the order of their names are put into a table one behind the other. -/
theorem takes_tabulate {p : List Char → Parse α} {f : α → Json} {t : Table α}
    (es : List (String × α)) (hread : ∀ e ∈ es, Reads p (f e.2) e.2) (t₀ : Table α)
    (ht : t.entries = t₀.entries ++ es) :
    Takes (tabulate p) t₀ (es.map fun e => (e.1, f e.2)) t := by
  induction es generalizing t₀ with
  | nil =>
    obtain ⟨entries, hsorted⟩ := t
    obtain rfl : entries = t₀.entries := by simpa using ht
    exact .nil t₀
  | cons e es ih =>
    have hlt : ∀ e' ∈ t₀.entries, e'.1 < e.1 := by
      intro e' he'
      have hsorted := t.sorted
      rw [ht, List.pairwise_append] at hsorted
      exact hsorted.2.2 e' he' e List.mem_cons_self
    have hnext : t.entries = (t₀.insert e.1 e.2).entries ++ es := by
      simp [Table.insert, insertEntry_of_lt hlt, ht]
    refine .cons (fun rest hrest => ?_) (ih (List.forall_mem_cons.1 hread).2 _ hnext)
    simp [tabulate, passColon_cons, hread e List.mem_cons_self rest hrest, Except.map]

/-- A table of values that read back reads back. -/
theorem reads_table {d : Decoder α} {k : Nat} {f : α → Json} {t : Table α}
    (hread : ∀ e ∈ t.entries, Reads (d k) (f e.2) e.2) :
    Reads (table d (k + 1)) (.object (t.entries.map fun e => (e.1, f e.2))) t := by
  intro rest hrest
  obtain ⟨cs, hcs⟩ := render_object (t.entries.map fun e => (e.1, f e.2)) rest
  have hmembers := (takes_tabulate t.entries hread .empty rfl).foldMembers_render hcs
  rw [hcs]
  simp only [table, skipSpaces_cons (c := '{') rfl]
  exact hmembers

/-- A field of a record reads its value and goes into the state. -/
theorem reads_member {k : Nat} {fields : List (Field σ)} {field : Field σ} {state : σ}
    {name : String} {v : Json} {update : σ → σ} (hfield : fields.find? (·.name = name) = some field)
    (hgiven : field.given state = false) (hread : Reads (field.read k) v update) :
    Reads (fun cs => member k fields state name (':' :: cs)) v (update state) := by
  intro rest hrest
  simp [member, hfield, hgiven, passColon_cons, hread rest hrest, Except.map]

/-- An object reads as a record if its members lead to a state that means one. -/
theorem reads_record {k : Nat} {start last : σ} {fields : List (Field σ)} {finish : σ → Option α}
    {members : List (String × Json)} {a : α} (h : Takes (member k fields) start members last)
    (ha : finish last = some a) :
    Reads (record start fields finish (k + 1)) (.object members) a := by
  intro rest hrest
  obtain ⟨cs, hcs⟩ := render_object members rest
  rw [hcs]
  simp only [record, skipSpaces_cons (c := '{') rfl, h.foldMembers_render hcs, ha]

/-- What a decoder reads in front of anything it reads from a text of its own. -/
theorem run_compact {d : Decoder α} {v : Json} {a : α} (h : Reads (d maxDepth) v a) :
    d.run (compact v) = .ok a := by
  have hread := h [] ends_nil
  rw [List.append_nil] at hread
  simp [run, compact, hread, skipSpaces]

end Decoder

end Prompter.Json

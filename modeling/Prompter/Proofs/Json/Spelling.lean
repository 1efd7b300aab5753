import Prompter.Json.Reader

/-!
# Prompter.Proofs.Json.Spelling

The tokens of JSON read back what was written, whatever follows them.

* A string may hold any characters: `decode` undoes `encode` (`decode_encode`).
* A numeral reads back if it is spelled as JSON wants it and nothing after it goes on with it
  (`Numeral.readSpelling_text`). What the writer makes of a finite number consists of digits
  (`Numeral.digital_of_ofSingle?`); that its text can be read at all then decides the rest
  (`Numeral.spelled_of_readSpelling`).
-/

namespace Prompter.Json

open Prompter.Number

/-! ## Strings -/

theorem hexValue?_hexDigit : ∀ n < 16, hexValue? (hexDigit n) = some n := by decide

theorem utf8Size_hexDigit : ∀ n < 16, (hexDigit n).utf8Size = 1 := by decide

/-- A four-digit escape of a control character stands for that character. -/
theorem scan_control (c : Char) (hc : c.toNat < 32) (read rest : List Char) :
    scan true .plain read
        ('\\' :: 'u' :: '0' :: '0' :: hexDigit (c.toNat / 16) :: hexDigit (c.toNat % 16) :: rest) =
      scan true .plain (c :: read) rest := by
  have hhigh : c.toNat / 16 < 16 := by omega
  have hlow : c.toNat % 16 < 16 := by omega
  have hbytes : hasBytes 4
      ('0' :: '0' :: hexDigit (c.toNat / 16) :: hexDigit (c.toNat % 16) :: rest) = true := by
    have hzero : ('0' : Char).utf8Size = 1 := rfl
    simp [hasBytes, hzero, utf8Size_hexDigit _ hhigh, utf8Size_hexDigit _ hlow]
  have hvalue : 16 * (c.toNat / 16) + c.toNat % 16 = c.toNat := by omega
  have hclose : closeHex true c.toNat none = .ok (.plain, some c) := by
    have h₁ : ¬ (0xDC00 ≤ c.toNat ∧ c.toNat ≤ 0xDFFF) := by omega
    have h₂ : ¬ (0xD800 ≤ c.toNat ∧ c.toNat ≤ 0xDBFF) := by omega
    simp [closeHex, h₁, h₂]
  have hzero : hexValue? '0' = some 0 := rfl
  simp [scan, hbytes, hzero, hexValue?_hexDigit _ hhigh, hexValue?_hexDigit _ hlow, hvalue, hclose]

/-- The text that stands for a character reads as that character. -/
theorem scan_encodeChar (c : Char) (read rest : List Char) :
    scan true .plain read (encodeChar c ++ rest) = scan true .plain (c :: read) rest := by
  unfold encodeChar
  split
  · subst_vars; simp [scan, shortEscape?]
  split
  · subst_vars; simp [scan, shortEscape?]
  split
  · subst_vars; simp [scan, shortEscape?]
  split
  · subst_vars; simp [scan, shortEscape?]
  split
  · subst_vars; simp [scan, shortEscape?]
  split
  · rename_i h
    rw [← Char.ofNat_toNat c, h]
    simp [scan, shortEscape?]
  split
  · rename_i h
    rw [← Char.ofNat_toNat c, h]
    simp [scan, shortEscape?]
  split
  · rename_i h
    exact scan_control c h read rest
  · rename_i hquote hslash _ _ _ _ _ hcontrol
    simp [scan, hquote, hslash, hcontrol]

/-- Reading a string up to its closing quote gives back its characters. -/
theorem decode_encode (cs rest : List Char) :
    decode (encode cs ++ '"' :: rest) = .ok (cs, rest) := by
  suffices h : ∀ read, scan true .plain read (encode cs ++ '"' :: rest) =
      .ok (read.reverse ++ cs, rest) by simpa [decode] using h []
  induction cs with
  | nil => intro read; simp [encode, scan]
  | cons c cs ih =>
    intro read
    have happend : encode (c :: cs) ++ '"' :: rest =
        encodeChar c ++ (encode cs ++ '"' :: rest) := by
      simp [encode]
    rw [happend, scan_encodeChar, ih]
    simp

/-! ## Numerals -/

/-- The text does not go on with digits. -/
def NoDigit (cs : List Char) : Prop := ∀ c ∈ cs.head?, c.isDigit = false

/-- The text does not go on with any part of a number. -/
def NoNumeral (cs : List Char) : Prop :=
  ∀ c ∈ cs.head?, c.isDigit = false ∧ c ≠ '-' ∧ c ≠ '.' ∧ c ≠ 'e' ∧ c ≠ 'E'

theorem NoNumeral.noDigit {cs : List Char} (h : NoNumeral cs) : NoDigit cs :=
  fun c hc => (h c hc).1

theorem noDigit_cons {c : Char} {cs : List Char} (h : c.isDigit = false) : NoDigit (c :: cs) := by
  simpa [NoDigit] using h

theorem spanDigits_digits {ds rest : List Char} (hds : ∀ c ∈ ds, c.isDigit = true)
    (hrest : NoDigit rest) : spanDigits (ds ++ rest) = (ds, rest) := by
  induction ds with
  | nil =>
    cases rest with
    | nil => rfl
    | cons c cs => simp [spanDigits, hrest c rfl]
  | cons d ds ih =>
    have hd : d.isDigit = true := hds d List.mem_cons_self
    simp [spanDigits, hd, ih fun c hc => hds c (List.mem_cons_of_mem _ hc)]

namespace Numeral

/-- The text of the fraction of a numeral. -/
def fractionText : Option (List Char) → List Char
  | none => []
  | some ds => '.' :: ds

/-- The text of the exponent of a numeral. -/
def exponentText : Option (Bool × List Char) → List Char
  | none => []
  | some (negative, ds) => 'e' :: (if negative then '-' else '+') :: ds

theorem text_eq (n : Numeral) : n.text = (if n.negative then ['-'] else []) ++
    (n.whole ++ (fractionText n.fraction ++ exponentText n.exponent)) := by
  obtain ⟨negative, whole, fraction, exponent⟩ := n
  cases fraction <;> cases exponent <;> simp [text, fractionText, exponentText]

/-- All digits of a numeral are decimal digits. -/
structure Digital (n : Numeral) : Prop where
  whole : ∀ c ∈ n.whole, c.isDigit = true
  fraction : ∀ ds ∈ n.fraction, ∀ c ∈ ds, c.isDigit = true
  exponent : ∀ e ∈ n.exponent, ∀ c ∈ e.2, c.isDigit = true

/-- A numeral is spelled as JSON wants it: there are digits wherever there have to be, and the first
of several is not zero. -/
structure Spelled (n : Numeral) : Prop where
  some_whole : n.whole ≠ []
  no_zero : ∀ d ds, n.whole ≠ '0' :: d :: ds
  some_fraction : n.fraction ≠ some []
  some_exponent : ∀ negative, n.exponent ≠ some (negative, [])

theorem noDigit_exponentText (e : Option (Bool × List Char)) {rest : List Char}
    (hrest : NoDigit rest) : NoDigit (exponentText e ++ rest) := by
  cases e with
  | none => exact hrest
  | some e => exact noDigit_cons rfl

theorem noDigit_fractionText (f : Option (List Char)) {rest : List Char}
    (hrest : NoDigit rest) : NoDigit (fractionText f ++ rest) := by
  cases f with
  | none => exact hrest
  | some ds => exact noDigit_cons rfl

theorem readWhole_eq_ok {ds rest : List Char} (hds : ∀ c ∈ ds, c.isDigit = true)
    (hrest : NoDigit rest) {p : List Char × List Char} :
    readWhole false (ds ++ rest) = .ok p ↔
      (ds, rest) = p ∧ ds ≠ [] ∧ ∀ d ds', ds ≠ '0' :: d :: ds' := by
  simp only [readWhole, spanDigits_digits hds hrest]
  match ds with
  | [] => simp
  | [d] => simp
  | d :: d' :: ds' =>
    by_cases hd : d = '0'
    · subst hd
      simp
    · simp [hd]

theorem readFraction_eq_ok {f : Option (List Char)} {rest : List Char}
    (hf : ∀ ds ∈ f, ∀ c ∈ ds, c.isDigit = true) (hrest : NoDigit rest)
    (hpoint : ∀ c ∈ rest.head?, c ≠ '.') {p : Option (List Char) × List Char} :
    readFraction false (fractionText f ++ rest) = .ok p ↔ (f, rest) = p ∧ f ≠ some [] := by
  cases f with
  | none =>
    have hnone : readFraction false rest = .ok (none, rest) := by
      cases rest with
      | nil => rfl
      | cons c cs => simp [readFraction, hpoint c rfl]
    simp [fractionText, hnone]
  | some ds =>
    simp only [fractionText, List.cons_append, readFraction, spanDigits_digits (hf ds rfl) hrest]
    cases ds <;> simp

theorem readPower_eq_ok {e : Option (Bool × List Char)} {rest : List Char}
    (he : ∀ q ∈ e, ∀ c ∈ q.2, c.isDigit = true) (hrest : NoNumeral rest)
    {p : Option (Bool × List Char) × List Char} :
    readPower false (exponentText e ++ rest) = .ok p ↔
      (e, rest) = p ∧ ∀ negative, e ≠ some (negative, []) := by
  match e with
  | none =>
    have hnone : readPower false rest = .ok (none, rest) := by
      cases rest with
      | nil => rfl
      | cons c cs => simp [readPower, (hrest c rfl).2]
    simp [exponentText, hnone]
  | some (negative, ds) =>
    have hsign : readSign ((if negative then '-' else '+') :: (ds ++ rest)) =
        (negative, ds ++ rest) := by
      cases negative <;> rfl
    have hspan : spanDigits (ds ++ rest) = (ds, rest) :=
      spanDigits_digits (he (negative, ds) rfl) hrest.noDigit
    simp only [exponentText, List.cons_append, readPower, hsign, hspan]
    cases ds <;> simp

/-- Reads what comes after the sign of a number. -/
def readMagnitude (negative : Bool) (cs : List Char) : Parse Numeral :=
  match readWhole false cs with
  | .error fault => .error fault
  | .ok (whole, cs) =>
    match readFraction false cs with
    | .error fault => .error fault
    | .ok (fraction, cs) =>
      match readPower false cs with
      | .error fault => .error fault
      | .ok (exponent, cs) => .ok (⟨negative, whole, fraction, exponent⟩, cs)

theorem readSpelling_minus (cs : List Char) :
    readSpelling false ('-' :: cs) = readMagnitude true cs := rfl

theorem readSpelling_plain {cs : List Char} (h : cs.head? ≠ some '-') :
    readSpelling false cs = readMagnitude false cs := by
  unfold readSpelling
  split
  rename_i hsign
  split at hsign
  · exact absurd rfl h
  · cases hsign
    rfl

/-- The sign of a numeral is told from what comes after it. -/
theorem readSpelling_sign {n : Numeral} (hn : n.Digital) {rest : List Char}
    (hrest : NoNumeral rest) : readSpelling false (n.text ++ rest) =
      readMagnitude n.negative
        (n.whole ++ (fractionText n.fraction ++ (exponentText n.exponent ++ rest))) := by
  rw [text_eq]
  cases n.negative with
  | true => simp [readSpelling_minus]
  | false =>
    simp only [Bool.false_eq_true, if_false, List.nil_append, List.append_assoc]
    refine readSpelling_plain fun h => ?_
    match hw : n.whole, hf : n.fraction, he : n.exponent with
    | d :: ds, _, _ =>
      have hd : d.isDigit = true := hn.whole d (hw ▸ List.mem_cons_self)
      obtain rfl : d = '-' := by simpa [hw] using h
      exact absurd hd (by decide)
    | [], some ds, _ => simp [hw, hf, fractionText] at h
    | [], none, some e => simp [hw, hf, he, fractionText, exponentText] at h
    | [], none, none =>
      simp only [hw, hf, he, fractionText, exponentText, List.nil_append] at h
      exact (hrest '-' h).2.1 rfl

/-- The text of a numeral reads as that numeral, and it does so exactly if it is spelled as JSON
wants it. -/
theorem readSpelling_text {n : Numeral} (hn : n.Digital) {rest : List Char} (hrest : NoNumeral rest)
    {p : Numeral × List Char} :
    readSpelling false (n.text ++ rest) = .ok p ↔ (n, rest) = p ∧ n.Spelled := by
  have hpower : NoDigit (exponentText n.exponent ++ rest) :=
    noDigit_exponentText _ hrest.noDigit
  have hfraction := noDigit_fractionText n.fraction hpower
  have hpoint : ∀ c ∈ (exponentText n.exponent ++ rest).head?, c ≠ '.' := by
    cases n.exponent with
    | none => exact fun c hc => (hrest c hc).2.2.1
    | some e => simp [exponentText]
  rw [readSpelling_sign hn hrest, readMagnitude]
  constructor
  · intro h
    split at h
    · cases h
    rename_i hwhole
    obtain ⟨⟨⟩, hsome, hzero⟩ := (readWhole_eq_ok hn.whole hfraction).1 hwhole
    split at h
    · cases h
    rename_i hfrac
    obtain ⟨⟨⟩, hplaces⟩ := (readFraction_eq_ok hn.fraction hpower hpoint).1 hfrac
    split at h
    · cases h
    rename_i hpow
    obtain ⟨⟨⟩, hplace⟩ := (readPower_eq_ok hn.exponent hrest).1 hpow
    exact ⟨Except.ok.inj h, hsome, hzero, hplaces, hplace⟩
  · rintro ⟨rfl, hs⟩
    simp only [(readWhole_eq_ok hn.whole hfraction).2 ⟨rfl, hs.some_whole, hs.no_zero⟩,
      (readFraction_eq_ok hn.fraction hpower hpoint).2 ⟨rfl, hs.some_fraction⟩,
      (readPower_eq_ok hn.exponent hrest).2 ⟨rfl, hs.some_exponent⟩]

/-! ## What the writer makes of a number -/

theorem isDigit_of_mem_text {d : Decimal} {c : Char} (h : c ∈ d.text) : c.isDigit = true :=
  Nat.isDigit_of_mem_toDigits (by decide) (by decide) h

theorem isDigit_of_mem_zeros {k : Nat} {c : Char} (h : c ∈ List.replicate k '0') :
    c.isDigit = true := by
  rw [List.eq_of_mem_replicate h]
  rfl

theorem isDigit_of_mem_sides {d : Decimal} {c : Char} (h : c ∈ d.sides.1 ∨ c ∈ d.sides.2) :
    c.isDigit = true := by
  unfold Decimal.sides at h
  simp only at h
  split at h
  · rcases h with h | h
    · rcases List.mem_append.1 h with h | h
      · exact isDigit_of_mem_text h
      · exact isDigit_of_mem_zeros h
    · cases h
  split at h
  · rcases h with h | h
    · exact isDigit_of_mem_text (List.mem_of_mem_take h)
    · exact isDigit_of_mem_text (List.mem_of_mem_drop h)
  · rcases h with h | h
    · simp only [List.mem_singleton] at h
      subst h
      rfl
    · rcases List.mem_append.1 h with h | h
      · exact isDigit_of_mem_zeros h
      · exact isDigit_of_mem_text h

theorem digital_positional (negative : Bool) (d : Decimal) : (positional negative d).Digital where
  whole _ hc := isDigit_of_mem_sides (.inl hc)
  fraction ds hds c hc := by
    obtain rfl := Option.some.inj hds
    split at hc
    · simp only [List.mem_singleton] at hc
      subst hc
      rfl
    · exact isDigit_of_mem_sides (.inr hc)
  exponent e he := by cases he

theorem digital_scientific (negative : Bool) (d : Decimal) : (scientific negative d).Digital where
  whole _ hc := isDigit_of_mem_text (List.mem_of_mem_take hc)
  fraction ds hds c hc := by
    simp only [scientific] at hds
    split at hds
    · cases hds
    · obtain rfl := Option.some.inj hds
      exact isDigit_of_mem_text (List.mem_of_mem_drop hc)
  exponent e he c hc := by
    obtain rfl := Option.some.inj he
    exact Nat.isDigit_of_mem_toDigits (by decide) (by decide) hc

/-- What is written for a finite number consists of digits. -/
theorem digital_of_ofSingle? {x : Float32} {n : Numeral} (h : ofSingle? x = some n) :
    n.Digital := by
  unfold ofSingle? at h
  simp only at h
  split at h
  · cases h
  split at h
  · obtain rfl := Option.some.inj h
    exact ⟨by simp, by simp, by simp⟩
  · obtain rfl := Option.some.inj h
    split
    · exact digital_positional _ _
    · exact digital_scientific _ _

end Numeral

end Prompter.Json

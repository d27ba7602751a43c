import ShardDNS.DNS.Presentation

/-!
# Quoted strings, read and written

`Quoted` says what a text between quotes stands for. `readQuoted` accepts exactly the texts
that start with such a quoted text, and returns what it stands for and the text behind its
closing quote (`readQuoted_eq_ok_iff`). The grammar has one reading of every text, because
three digits behind a backslash are always read as a number.

Any bytes can be written in quotes: a quote and a backslash by their numbers, every other
byte as it is or by its number (`writeByte`). Strings written so, with any blanks around
them, are read back by `parseQuotedStrings` one by one (`parseQuotedStrings_writeStrings`).
-/

set_option autoImplicit false

namespace ShardDNS.DNS

open Go

/-! ## What is accepted -/

/-- A text of the grammar is read to its closing quote. -/
theorem readQuotedLoop_of_quoted {body value : Bytes} (quoted : Quoted body value)
    (sb rest : Bytes) :
    readQuotedLoop sb (body ++ quote :: rest) = .ok (sb ++ value, rest) := by
  induction quoted generalizing sb with
  | nil =>
      rw [List.nil_append, readQuotedLoop.eq_def, List.append_nil]
      exact if_pos rfl
  | @byte c body value notQuote notBackslash _ ih =>
      rw [List.cons_append, readQuotedLoop.eq_def]
      simp only [if_neg notQuote, if_neg notBackslash]
      rw [ih, List.append_assoc, List.singleton_append]
  | @number x y z body value digits small _ ih =>
      have each : isDigit x = true ∧ isDigit y = true ∧ isDigit z = true := by
        simpa [startsWithNumber, and_assoc] using digits
      simp only [List.cons_append]
      rw [readQuotedLoop.eq_def]
      simp only [if_neg (show backslash ≠ quote by decide), if_true, if_pos each,
        if_neg (Nat.not_lt.mpr small)]
      rw [ih, List.append_assoc, List.singleton_append]
  | @escaped x body value plain _ ih =>
      -- the digits of an escape may not end behind the closing quote
      rw [← startsWithNumber_append x body rest] at plain
      simp only [List.cons_append]
      rw [readQuotedLoop.eq_def]
      simp only [if_neg (show backslash ≠ quote by decide), if_true]
      have later := ih (sb ++ [x])
      rw [List.append_assoc, List.singleton_append] at later
      generalize body ++ quote :: rest = text at plain later
      rcases text with - | ⟨y, - | ⟨z, text⟩⟩
      · exact later
      · exact later
      · have other : ¬ (isDigit x = true ∧ isDigit y = true ∧ isDigit z = true) := by
          simpa [startsWithNumber] using plain
        simp only [if_neg other]
        exact later

/-- **What `readQuoted` accepts**: a quoted text, and any rest. -/
theorem readQuoted_eq_ok_iff {s value rest : Bytes} :
    readQuoted s = .ok (value, rest) ↔
      ∃ body, s = quote :: (body ++ quote :: rest) ∧ Quoted body value := by
  constructor
  · exact quoted_of_readQuoted
  · rintro ⟨body, rfl, quoted⟩
    rw [readQuoted, if_neg (by simp), readQuotedLoop_of_quoted quoted, List.nil_append]

/-! ## Writing -/

/-- The number of a byte in three decimal digits. -/
def threeDigits (c : UInt8) : Bytes := [48 + c / 100, 48 + c / 10 % 10, 48 + c % 10]

/-- A byte between quotes: by its number if that is chosen or the byte has a meaning there. -/
def writeByte (c : UInt8) (chosen : Bool) : Bytes :=
  if chosen ∨ c = quote ∨ c = backslash then backslash :: threeDigits c else [c]

/-- A string to be written, with the choice for each of its bytes. -/
abbrev Chosen := List (UInt8 × Bool)

def Chosen.value (s : Chosen) : Bytes := s.map Prod.fst

def Chosen.body (s : Chosen) : Bytes := s.flatMap fun b => writeByte b.1 b.2

/-- A string in quotes. -/
def writeQuoted (s : Chosen) : Bytes := quote :: (s.body ++ [quote])

/-- Strings in quotes, each behind its blanks. -/
def writeStrings (parts : List (Bytes × Chosen)) : Bytes :=
  parts.flatMap fun part => part.1 ++ writeQuoted part.2

/-- The string is made of spaces and tabs. -/
def Blank (s : Bytes) : Prop := ∀ b ∈ s, b = 32 ∨ b = 9

theorem threeDigits_spec : ∀ c : UInt8, startsWithNumber (threeDigits c) = true ∧
    decimalValue (threeDigits c) = c.toNat := by
  decide +kernel

theorem quoted_body (s : Chosen) : Quoted s.body s.value := by
  induction s with
  | nil => exact .nil
  | cons b s ih =>
      obtain ⟨c, chosen⟩ := b
      rw [Chosen.body, List.flatMap_cons, writeByte]
      split
      · obtain ⟨digits, number⟩ := threeDigits_spec c
        have step := Quoted.number digits (number ▸ Nat.le_of_lt_succ c.toNat_lt) ih
        rw [show decimalValue [48 + c / 100, 48 + c / 10 % 10, 48 + c % 10] = c.toNat from number,
          UInt8.ofNat_toNat] at step
        exact step
      · rename_i plain
        rw [not_or, not_or] at plain
        exact .byte plain.2.1 plain.2.2 ih

theorem readQuoted_writeQuoted (s : Chosen) (rest : Bytes) :
    readQuoted (writeQuoted s ++ rest) = .ok (s.value, rest) :=
  readQuoted_eq_ok_iff.mpr ⟨s.body, by simp [writeQuoted], quoted_body s⟩

/-! ## Blanks -/

/-- Blanks are trimmed at the front. -/
theorem trimLeft_blank_append {fronts : List Bytes} (nonempty : ∀ front ∈ fronts, front ≠ [])
    (alone : ∀ b : UInt8, b = 32 ∨ b = 9 → [b] ∈ fronts ∧
      ∀ front ∈ fronts, front.head? = some b → front = [b])
    {blanks : Bytes} (blank : Blank blanks) (s : Bytes) :
    trimLeft fronts (blanks ++ s) = trimLeft fronts s := by
  induction blanks with
  | nil => rfl
  | cons b blanks ih =>
      obtain ⟨listed, only⟩ := alone b (blank b List.mem_cons_self)
      have found : fronts.find? (·.isPrefixOf (b :: (blanks ++ s))) = some [b] := by
        cases search : fronts.find? (·.isPrefixOf (b :: (blanks ++ s))) with
        | none =>
            have missed := List.find?_eq_none.mp search [b] listed
            simp at missed
        | some front =>
            have leads : front <+: b :: (blanks ++ s) := by simpa using List.find?_some search
            have member := List.mem_of_find?_eq_some search
            rw [only front member]
            obtain ⟨c, front', rfl⟩ := List.exists_cons_of_ne_nil (nonempty front member)
            rw [List.head?_cons, (List.cons_prefix_cons.mp leads).1]
      rw [List.cons_append, trimLeft, List.length_cons, trimLeftLoop, found]
      exact ih fun c member => blank c (List.mem_cons_of_mem _ member)

theorem spaceEncodings_alone : ∀ b : UInt8, b = 32 ∨ b = 9 → [b] ∈ spaceEncodings ∧
    ∀ front ∈ spaceEncodings, front.head? = some b → front = [b] := by
  decide +kernel

theorem spaceEncodings_reverse_alone : ∀ b : UInt8, b = 32 ∨ b = 9 →
    [b] ∈ spaceEncodings.map List.reverse ∧
      ∀ front ∈ spaceEncodings.map List.reverse, front.head? = some b → front = [b] := by
  decide +kernel

theorem not_quote_spaceEncodings : ∀ front ∈ spaceEncodings, quote ∉ front := by
  decide +kernel

/-- Trimming takes the blanks around a text that starts and ends with a quote. -/
theorem trimSpace_blank_append {front back inner : Bytes} (first : Blank front)
    (last : Blank back) :
    trimSpace (front ++ (quote :: (inner ++ [quote]) ++ back)) = quote :: (inner ++ [quote]) := by
  have ahead : trimLeft spaceEncodings (front ++ (quote :: (inner ++ [quote]) ++ back)) =
      quote :: (inner ++ [quote]) ++ back := by
    rw [trimLeft_blank_append spaceEncodings_ne_nil spaceEncodings_alone first]
    refine trimLeft_eq_self fun space member leads => ?_
    obtain ⟨c, space', rfl⟩ := List.exists_cons_of_ne_nil (spaceEncodings_ne_nil space member)
    rw [List.cons_append, List.cons_prefix_cons] at leads
    exact not_quote_spaceEncodings _ member (by simp [leads.1])
  have reversed : (quote :: (inner ++ [quote]) ++ back).reverse =
      back.reverse ++ (quote :: (inner.reverse ++ [quote])) := by
    simp
  have nonempty : ∀ space ∈ spaceEncodings.map List.reverse, space ≠ [] := by
    intro space member
    obtain ⟨source, listed, rfl⟩ := List.mem_map.mp member
    simpa using spaceEncodings_ne_nil source listed
  have behind : trimLeft (spaceEncodings.map List.reverse)
      (back.reverse ++ (quote :: (inner.reverse ++ [quote]))) =
        quote :: (inner.reverse ++ [quote]) := by
    rw [trimLeft_blank_append nonempty spaceEncodings_reverse_alone fun b member =>
      last b (List.mem_reverse.mp member)]
    refine trimLeft_eq_self fun space member leads => ?_
    obtain ⟨source, listed, rfl⟩ := List.mem_map.mp member
    obtain ⟨c, space', shape⟩ := List.exists_cons_of_ne_nil (nonempty _ member)
    rw [shape, List.cons_prefix_cons] at leads
    refine not_quote_spaceEncodings source listed (List.mem_reverse.mp ?_)
    rw [shape, leads.1]
    exact List.mem_cons_self
  rw [trimSpace, ahead, reversed, behind]
  simp

theorem trimSpace_blank {s : Bytes} (blank : Blank s) : trimSpace s = [] := by
  have front := trimLeft_blank_append spaceEncodings_ne_nil spaceEncodings_alone blank []
  rw [List.append_nil] at front
  rw [trimSpace, front]
  rfl

/-! ## Reading what was written -/

/-- The strings without the blanks in front of the first. -/
def trimmedStrings : List (Bytes × Chosen) → Bytes
  | [] => []
  | (_, s) :: parts => writeQuoted s ++ writeStrings parts

/-- Strings in quotes end with one. -/
theorem exists_trimmedStrings (blanks : Bytes) (s : Chosen) (parts : List (Bytes × Chosen)) :
    ∃ inner, trimmedStrings ((blanks, s) :: parts) = quote :: (inner ++ [quote]) := by
  cases parts using List.reverseRecOn with
  | nil => exact ⟨s.body, by simp [trimmedStrings, writeStrings, writeQuoted]⟩
  | append_singleton parts last =>
      refine ⟨s.body ++ quote :: (writeStrings parts ++ (last.1 ++ quote :: last.2.body)), ?_⟩
      simp [trimmedStrings, writeStrings, writeQuoted]

theorem trimSpace_writeStrings {parts : List (Bytes × Chosen)}
    (blank : ∀ part ∈ parts, Blank part.1) {back : Bytes} (last : Blank back) :
    trimSpace (writeStrings parts ++ back) = trimmedStrings parts := by
  cases parts with
  | nil => exact trimSpace_blank last
  | cons part parts =>
      obtain ⟨blanks, s⟩ := part
      obtain ⟨inner, shape⟩ := exists_trimmedStrings blanks s parts
      have layout : writeStrings ((blanks, s) :: parts) ++ back =
          blanks ++ (trimmedStrings ((blanks, s) :: parts) ++ back) := by
        simp [writeStrings, trimmedStrings]
      rw [layout, shape]
      exact trimSpace_blank_append (blank _ List.mem_cons_self) last

theorem parseQuotedLoop_trimmedStrings {parts : List (Bytes × Chosen)}
    (blank : ∀ part ∈ parts, Blank part.1) {fuel : Nat} (enough : parts.length < fuel) :
    parseQuotedLoop fuel (trimmedStrings parts) = .ok (parts.map fun part => part.2.value) := by
  induction parts generalizing fuel with
  | nil =>
      obtain ⟨fuel, rfl⟩ := Nat.exists_eq_add_of_lt enough
      rfl
  | cons part parts ih =>
      obtain ⟨blanks, s⟩ := part
      cases fuel with
      | zero => cases enough
      | succ fuel =>
          have later : ∀ part ∈ parts, Blank part.1 :=
            fun part member => blank part (List.mem_cons_of_mem _ member)
          have nonempty : trimmedStrings ((blanks, s) :: parts) ≠ [] := by
            simp [trimmedStrings, writeQuoted]
          have trimmed := @trimSpace_writeStrings parts later [] nofun
          rw [List.append_nil] at trimmed
          rw [parseQuotedLoop, if_neg nonempty, trimmedStrings, readQuoted_writeQuoted]
          simp only [Bind.bind, Except.bind]
          rw [trimmed, ih later (Nat.lt_of_succ_lt_succ enough)]
          rfl

theorem length_le_length_writeStrings (parts : List (Bytes × Chosen)) :
    parts.length ≤ (writeStrings parts).length := by
  induction parts with
  | nil => exact Nat.zero_le _
  | cons part parts ih =>
      have shape : writeStrings (part :: parts) =
          part.1 ++ writeQuoted part.2 ++ writeStrings parts := by
        simp [writeStrings]
      rw [shape]
      simp only [List.length_cons, List.length_append, writeQuoted]
      omega

/-- **Strings written in quotes are read back.** -/
theorem parseQuotedStrings_writeStrings {parts : List (Bytes × Chosen)}
    (blank : ∀ part ∈ parts, Blank part.1) {back : Bytes} (last : Blank back) :
    parseQuotedStrings (writeStrings parts ++ back) = .ok (parts.map fun part => part.2.value) := by
  rw [parseQuotedStrings, trimSpace_writeStrings blank last]
  refine parseQuotedLoop_trimmedStrings blank ?_
  have size := length_le_length_writeStrings parts
  rw [List.length_append]
  omega

/-- **The grammar of quoted strings.** `readQuoted` accepts exactly an opening quote, items of
the grammar, a closing quote and any rest, and returns what the items stand for and the rest;
strings written in quotes, with blanks around them, are read back as they were. -/
theorem quotedStrings_grammar :
    (∀ s value rest : Bytes, readQuoted s = .ok (value, rest) ↔
      ∃ body, s = quote :: (body ++ quote :: rest) ∧ Quoted body value) ∧
    ∀ (parts : List (Bytes × Chosen)) (back : Bytes), (∀ part ∈ parts, Blank part.1) → Blank back →
      parseQuotedStrings (writeStrings parts ++ back) =
        .ok (parts.map fun part => part.2.value) :=
  ⟨fun _ _ _ => readQuoted_eq_ok_iff, fun _ _ blank last =>
    parseQuotedStrings_writeStrings blank last⟩

end ShardDNS.DNS

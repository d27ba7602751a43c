import ShardDNS.Go.Strings
import ShardDNS.Library.LabelTree
import Mathlib.Data.List.TakeWhile

/-!
# Lower-casing label by label

No byte of an encoded rune but its first is an ASCII byte, so an ASCII byte always ends the
rune in front of it, also in a string that is not valid UTF-8. A string is therefore read
in two parts around such a byte (`runes_append_ascii`), and since no other letter has
the lower-case form `.`, lower-casing a dotted name lower-cases its labels
(`labels_toLower`). It may change their lengths in either direction.
-/

set_option autoImplicit false

namespace Go

open LabelTree

/-! ## ASCII bytes end runes -/

theorem isUTF8FirstByte_of_ascii : ∀ b : UInt8, b < 0x80 → b.IsUTF8FirstByte := by
  decide +kernel

variable {b : UInt8} {s : Bytes}

/-- An ASCII byte in an encoded rune is the first one. -/
theorem eq_nil_of_ascii_inside {c : Char} {front back : Bytes} (small : b < 0x80)
    (shape : String.utf8EncodeChar c = front ++ b :: back) : front = [] := by
  have inside : front.length < (String.utf8EncodeChar c).length := by
    rw [shape, List.length_append, List.length_cons]
    omega
  have value : (String.utf8EncodeChar c)[front.length] = b := by
    simp [shape]
  have first : ((String.utf8EncodeChar c)[front.length]).IsUTF8FirstByte := by
    rw [value]
    exact isUTF8FirstByte_of_ascii b small
  exact List.length_eq_zero_iff.mp (UInt8.isUTF8FirstByte_getElem_utf8EncodeChar.mp first)

/-- An encoded rune that contains an ASCII byte is the one of that byte. -/
theorem eq_asciiRune_of_mem {c : Char} (small : b < 0x80) (member : b ∈ String.utf8EncodeChar c) :
    c = asciiRune b := by
  obtain ⟨front, back, shape⟩ := List.append_of_mem member
  have alone := eq_nil_of_ascii_inside small shape
  subst alone
  have read := runes_append (asciiRune b) back
  rw [utf8EncodeChar_asciiRune b small, List.singleton_append] at read
  have same := runes_append c []
  rw [List.append_nil, shape, List.nil_append, read] at same
  exact (List.cons.inj same).1.symm

/-- What follows an ASCII byte does not change how the string before it is read. -/
theorem decodeRune?_append_ascii (nonempty : s ≠ []) (small : b < 0x80) (t : Bytes) :
    decodeRune? (s ++ b :: t) = decodeRune? s := by
  cases decoded : decodeRune? (s ++ b :: t) with
  | none =>
      cases decoded' : decodeRune? s with
      | none => rfl
      | some c =>
          rw [eq_append_of_decodeRune? decoded', List.append_assoc, decodeRune?_append] at decoded
          cases decoded
  | some c =>
      have split := eq_append_of_decodeRune? decoded
      rcases List.append_eq_append_iff.mp split with ⟨extra, whole, rest⟩ | ⟨extra, whole, -⟩
      · -- the byte would lie inside the rune
        cases extra with
        | nil =>
            rw [List.append_nil] at whole
            rw [← whole, ← List.append_nil (String.utf8EncodeChar c), decodeRune?_append]
        | cons d extra =>
            rw [List.cons_append, List.cons.injEq] at rest
            rw [← rest.1] at whole
            exact absurd (eq_nil_of_ascii_inside small whole) nonempty
      · rw [whole, decodeRune?_append]

theorem runes_cons_ascii (small : b < 0x80) (t : Bytes) :
    runes (b :: t) = asciiRune b :: runes t := by
  have read := runes_append (asciiRune b) t
  rwa [utf8EncodeChar_asciiRune b small] at read

theorem runeWidth_le_length (nonempty : s ≠ []) : runeWidth s ≤ s.length := by
  unfold runeWidth
  split
  · rename_i c found
    have whole := congrArg List.length (eq_append_of_decodeRune? found)
    rw [List.length_append, String.length_utf8EncodeChar] at whole
    omega
  · exact List.length_pos_iff.mpr nonempty

/-- Induction over a string, one rune at a time. -/
theorem rune_induction {motive : Bytes → Prop} (nil : motive [])
    (cons : ∀ b s, motive ((b :: s).drop (runeWidth (b :: s))) → motive (b :: s)) (s : Bytes) :
    motive s := by
  induction size : s.length using Nat.strong_induction_on generalizing s with
  | _ n ih =>
      cases s with
      | nil => exact nil
      | cons b s =>
          have positive := runeWidth_pos (b :: s)
          refine cons b s (ih _ ?_ _ rfl)
          rw [List.length_drop, size]
          rw [List.length_cons] at size
          omega

/-- **A string is read in two parts around an ASCII byte.** -/
theorem runes_append_ascii (small : b < 0x80) (s t : Bytes) :
    runes (s ++ b :: t) = runes s ++ asciiRune b :: runes t := by
  induction s using rune_induction with
  | nil => exact runes_cons_ascii small t
  | cons d s ih =>
      have decoded := decodeRune?_append_ascii (List.cons_ne_nil d s) small t
      have width : runeWidth (d :: s ++ b :: t) = runeWidth (d :: s) := by
        rw [runeWidth, runeWidth, decoded]
      have inside := runeWidth_le_length (List.cons_ne_nil d s)
      rw [List.cons_append, runes_cons, ← List.cons_append, width, decoded,
        List.drop_append_of_le_length inside, ih, ← List.cons_append, ← runes_cons]

theorem asciiRune_ne_runeError : ∀ b : UInt8, b < 0x80 → asciiRune b ≠ runeError := by
  decide +kernel

/-- An ASCII rune is read only where its byte is. -/
theorem mem_of_asciiRune_mem (small : b < 0x80) (member : asciiRune b ∈ runes s) : b ∈ s := by
  induction s using rune_induction with
  | nil => cases member
  | cons d s ih =>
      rw [runes_cons] at member
      rcases List.mem_cons.mp member with here | later
      · cases decoded : decodeRune? (d :: s) with
        | none =>
            rw [decoded] at here
            exact absurd here (asciiRune_ne_runeError b small)
        | some c =>
            rw [decoded, Option.getD_some] at here
            have split := eq_append_of_decodeRune? decoded
            rw [← here, utf8EncodeChar_asciiRune b small, List.singleton_append] at split
            rw [split]
            exact List.mem_cons_self
      · exact List.mem_of_mem_drop (ih later)

/-! ## Lower-casing -/

/-- Every letter that is moved goes to `a` or beyond. -/
theorem lowerRanges_image : lowerRanges.all (fun range => Nat.ble 97 range.image) = true := by
  decide +kernel

/-- No other letter has the lower-case form of a byte before `a`. -/
theorem eq_of_toLowerRune_eq {c : Char} (small : b < 97) (lowered : toLowerRune c = asciiRune b) :
    c = asciiRune b := by
  rcases mapCase_cases lowerRanges c with ⟨stays, -⟩ | ⟨range, member, inside, moves⟩
  · rw [← lowered, toLowerRune, stays]
  · have beyond := Nat.le_of_ble_eq_true (List.all_eq_true.mp lowerRanges_image range member)
    have image := CaseRange.toNat_ofNat_shift
      (List.all_eq_true.mp lowerRanges_landOnLetters range member) inside
    have value : (asciiRune b).toNat = b.toNat := by
      have valid : b.toNat.isValidChar := .inl (Nat.lt_trans b.toNat_lt (by decide))
      rw [asciiRune, Char.ofNat, dif_pos valid]
      rfl
    rw [← moves, ← toLowerRune, lowered, value, CaseRange.shift] at image
    have bound := UInt8.lt_iff_toNat_lt.mp small
    simp only [UInt8.reduceToNat] at bound
    omega

/-- Lower-casing goes in two parts around an ASCII byte. -/
theorem toLower_append_ascii (small : b < 0x80) (s t : Bytes) :
    toLower (s ++ b :: t) = toLower s ++ lowerByte b :: toLower t := by
  obtain ⟨lowered, still⟩ := agreesOnASCII_lower b small
  rw [toLower_eq_encode, toLower_eq_encode s, toLower_eq_encode t, runes_append_ascii small,
    List.map_append, List.map_cons, encode_append, encode_cons, lowered,
    utf8EncodeChar_asciiRune _ still, List.singleton_append]

theorem toLower_append_dot (s t : Bytes) :
    toLower (s ++ dot :: t) = toLower s ++ dot :: toLower t :=
  toLower_append_ascii (by decide) s t

@[simp] theorem toLower_nil : toLower [] = [] := rfl

theorem toLower_eq_nil_iff : toLower s = [] ↔ s = [] := by
  constructor
  · intro empty
    cases s with
    | nil => rfl
    | cons b s =>
        rw [toLower_eq_encode, runes_cons, List.map_cons, encode_cons, List.append_eq_nil_iff]
          at empty
        exact absurd empty.1 (utf8EncodeChar_ne_nil _)
  · rintro rfl
    rfl

/-- Lower-casing brings in no dot. -/
theorem dot_not_mem_toLower (clean : dot ∉ s) : dot ∉ toLower s := by
  intro member
  rw [toLower_eq_encode, encode, List.mem_flatMap] at member
  obtain ⟨c, read, inside⟩ := member
  obtain ⟨source, member, rfl⟩ := List.mem_map.mp read
  have lowered := eq_asciiRune_of_mem (by decide) inside
  rw [eq_of_toLowerRune_eq (by decide) lowered] at member
  exact clean (mem_of_asciiRune_mem (by decide) member)

theorem toLower_intercalate (names : List Bytes) :
    toLower ([dot].intercalate names) = [dot].intercalate (names.map toLower) := by
  induction names with
  | nil => rfl
  | cons label names ih =>
      cases names with
      | nil => simp
      | cons next names =>
          have more : (next :: names).map toLower ≠ [] := by simp
          rw [List.map_cons, List.intercalate_cons_of_ne_nil (List.cons_ne_nil next names),
            List.intercalate_cons_of_ne_nil more, ← ih, List.append_assoc, List.append_assoc,
            List.singleton_append, List.singleton_append, toLower_append_dot]

/-- **Lower-casing a name lower-cases its labels.** -/
theorem labels_toLower (name : Bytes) :
    labels dot (toLower name) = (labels dot name).map toLower := by
  have whole : toLower name = [dot].intercalate ((labels dot name).map toLower) := by
    rw [← toLower_intercalate, labels, List.intercalate_splitOn]
  rw [whole]
  refine List.splitOn_intercalate dot (fun label member => ?_) (by simp [labels])
  obtain ⟨source, inside, rfl⟩ := List.mem_map.mp member
  exact dot_not_mem_toLower (not_mem_of_mem_labels inside)

/-- No name lies above itself, whatever the case. -/
theorem toLower_ne_of_mem_ancestors {name above : Bytes}
    (member : above ∈ ancestors dot (toLower name)) :
    toLower above ≠ toLower name := by
  intro same
  obtain ⟨front, nonempty, split⟩ := mem_ancestors_iff_labels.mp member
  have counted := congrArg List.length split
  rw [← same, labels_toLower, List.length_map, List.length_append] at counted
  exact nonempty (List.length_eq_zero_iff.mp (by omega))

/-! ## Letters of ASCII alone -/

/-- A string with its ASCII letters in lower case, and all other bytes as they are. -/
def foldASCII (s : Bytes) : Bytes := s.map lowerByte

theorem lowerByte_lowerByte : ∀ b : UInt8, lowerByte (lowerByte b) = lowerByte b := by
  decide +kernel

theorem lowerByte_of_large : ∀ b : UInt8, 0x80 ≤ b → lowerByte b = b := by decide +kernel

/-- Folding leaves a string without ASCII bytes alone. -/
theorem foldASCII_of_large (large : ∀ b ∈ s, 0x80 ≤ b) : foldASCII s = s :=
  (List.map_congr_left fun b member => lowerByte_of_large b (large b member)).trans (List.map_id _)

theorem foldASCII_append_cons (s : Bytes) (b : UInt8) (t : Bytes) :
    foldASCII (s ++ b :: t) = foldASCII s ++ lowerByte b :: foldASCII t := by
  rw [foldASCII, List.map_append, List.map_cons]
  rfl

/-- Induction over a string, cut at its first ASCII byte. -/
theorem ascii_induction {motive : Bytes → Prop}
    (plain : ∀ s, (∀ b ∈ s, 0x80 ≤ b) → motive s)
    (cut : ∀ s b t, (∀ b ∈ s, 0x80 ≤ b) → b < 0x80 → motive t → motive (s ++ b :: t))
    (s : Bytes) : motive s := by
  induction size : s.length using Nat.strong_induction_on generalizing s with
  | _ n ih =>
      have front : ∀ b ∈ s.takeWhile (0x80 ≤ ·), 0x80 ≤ b := by
        intro b member
        simpa using List.mem_takeWhile_imp member
      have split := List.takeWhile_append_dropWhile (p := (0x80 ≤ ·)) (l := s)
      cases rest : s.dropWhile (0x80 ≤ ·) with
      | nil =>
          rw [rest, List.append_nil] at split
          rw [← split]
          exact plain _ front
      | cons b t =>
          rw [rest] at split
          have small : b < 0x80 := by
            have nonempty : s.dropWhile (0x80 ≤ ·) ≠ [] := by simp [rest]
            have stops := List.head_dropWhile_not (fun b => decide (0x80 ≤ b)) nonempty
            simpa [rest] using stops
          have shorter : t.length < n := by
            rw [← size, ← split, List.length_append, List.length_cons]
            omega
          rw [← split]
          exact cut _ b t front small (ih t.length shorter t rfl)

/-- **Lower-casing does not see the case of ASCII letters.** -/
theorem toLower_foldASCII (s : Bytes) : toLower (foldASCII s) = toLower s := by
  induction s using ascii_induction with
  | plain s large => rw [foldASCII_of_large large]
  | cut s b t large small ih =>
      have still : lowerByte b < 0x80 := (agreesOnASCII_lower b small).2
      rw [foldASCII_append_cons, foldASCII_of_large large, toLower_append_ascii still,
        toLower_append_ascii small, lowerByte_lowerByte, ih]

/-- A lower-cased string has no upper-case ASCII letter. -/
theorem Lowered.foldASCII_eq (lowered : Lowered s) : foldASCII s = s := by
  obtain ⟨rs, rfl, fixed⟩ := lowered
  refine (List.map_congr_left fun b member => ?_).trans (List.map_id _)
  by_cases small : b < 0x80
  · obtain ⟨c, read, inside⟩ := List.mem_flatMap.mp member
    have rune := eq_asciiRune_of_mem small inside
    obtain ⟨lower, still⟩ := agreesOnASCII_lower b small
    have same : asciiRune (lowerByte b) = asciiRune b := by
      rw [← lower, ← rune, fixed c read]
    have bytes := congrArg String.utf8EncodeChar same
    rw [utf8EncodeChar_asciiRune _ still, utf8EncodeChar_asciiRune _ small] at bytes
    exact (List.cons.inj bytes).1
  · exact lowerByte_of_large b (UInt8.not_lt.mp small)

theorem foldASCII_eq_of_toLower_eq (lowered : toLower s = s) : foldASCII s = s := by
  rw [← lowered]
  exact (lowered_toLower s).foldASCII_eq

/-- The parts of a lower-cased name around a dot are lower-cased. -/
theorem toLower_parts {front rest : Bytes}
    (fixed : toLower (front ++ dot :: rest) = front ++ dot :: rest) :
    toLower front = front ∧ toLower rest = rest := by
  have names := labels_toLower (front ++ dot :: rest)
  rw [fixed, labels, List.splitOn_append_cons_self, List.map_append] at names
  obtain ⟨first, second⟩ := List.append_inj names (by rw [List.length_map])
  have whole : ∀ s : Bytes, s.splitOn dot = (s.splitOn dot).map toLower → toLower s = s := by
    intro s same
    have joined : [dot].intercalate (s.splitOn dot) = s := List.intercalate_splitOn dot
    rw [← joined, toLower_intercalate, ← same]
  exact ⟨whole front first, whole rest second⟩

/-- A lower-cased name ends with a dot only if the name does. -/
theorem dot_suffix_of_toLower {name : Bytes} (ends : [dot] <:+ toLower name) : [dot] <:+ name := by
  obtain ⟨front, shape⟩ := ends
  have last : (labels dot name).map toLower = labels dot front ++ [[]] := by
    rw [← labels_toLower, ← shape, labels, List.splitOn_append_cons_self]
    rfl
  obtain ⟨first, second, whole, left, right⟩ := List.map_eq_append_iff.mp last
  obtain ⟨label, rfl, empty⟩ := List.map_eq_singleton_iff.mp right
  rw [toLower_eq_nil_iff] at empty
  subst empty
  have nonempty : first ≠ [] := by
    rintro rfl
    exact List.splitOn_ne_nil dot front left.symm
  refine ⟨[dot].intercalate first, ?_⟩
  have joined := congrArg ([dot].intercalate) whole
  rw [labels, List.intercalate_splitOn, intercalate_append_append nonempty (by simp)] at joined
  rw [joined]
  simp

theorem toLower_trimSuffix_dot (name : Bytes) :
    toLower (trimSuffix name [dot]) = trimSuffix (toLower name) [dot] := by
  rcases trimSuffix_cases name [dot] with split | ⟨other, same⟩
  · have lowered : toLower name = toLower (trimSuffix name [dot]) ++ [dot] := by
      conv_lhs => rw [split]
      exact toLower_append_dot _ []
    rw [lowered, trimSuffix_append]
  · rw [same, trimSuffix_eq_self fun ends => other (dot_suffix_of_toLower ends)]

end Go

import ShardDNS.Go.Unicode
import Mathlib.Data.FinEnum
import Mathlib.Data.List.Induction

/-!
# Byte-string functions

The functions of the packages `strings` and `bytes` that a program over Go
strings calls, on byte strings. Lower-casing has the fast path of the library
for strings of ASCII bytes and goes through runes otherwise; both paths agree
(`toLower_eq_encode`), so lower-casing is idempotent and a lower-cased string
stays one when it is extended by another or loses a trailing dot
(`Lowered.append`, `Lowered.trimSuffix_dot`).

Trimming white space leaves a string that neither starts nor ends with an
encoded white-space rune, and leaves such a string alone
(`not_startsWithSpace_trimSpace`, `trimSpace_eq_self`).
-/

set_option autoImplicit false

namespace Go

/-- The bytes of an ASCII text. -/
def ascii (text : String) : Bytes := text.toList.map fun c => UInt8.ofNat c.toNat

/-- The byte `.`. -/
def dot : UInt8 := 46

/-! ## Prefixes, suffixes and separators -/

/-- `strings.HasPrefix`. -/
def hasPrefix (s front : Bytes) : Bool := front.isPrefixOf s

/-- `strings.HasSuffix`. -/
def hasSuffix (s tail : Bytes) : Bool := tail.isSuffixOf s

/-- `strings.TrimSuffix`. -/
def trimSuffix (s tail : Bytes) : Bytes :=
  if hasSuffix s tail then s.take (s.length - tail.length) else s

/-- `strings.IndexByte`. -/
def indexByte (s : Bytes) (c : UInt8) : Option Nat := s.findIdx? (· = c)

/-- `strings.ContainsAny` for a set of ASCII bytes. -/
def containsAny (s chars : Bytes) : Bool := s.any chars.contains

/-- `strings.Replace(s, old, new, 1)` for single bytes. -/
def replaceFirst (s : Bytes) (old new : UInt8) : Bytes :=
  match s with
  | [] => []
  | b :: s => if b = old then new :: s else b :: replaceFirst s old new

/-- `strings.SplitN` at a single byte: the last part holds the rest. -/
def splitN (s : Bytes) (sep : UInt8) : Nat → List Bytes
  | 0 => []
  | 1 => [s]
  | n + 1 =>
      match indexByte s sep with
      | none => [s]
      | some i => s.take i :: splitN (s.drop (i + 1)) sep n

variable {s : Bytes}

theorem hasSuffix_iff {tail : Bytes} : hasSuffix s tail = true ↔ tail <:+ s := by
  simp [hasSuffix]

theorem trimSuffix_append (s tail : Bytes) : trimSuffix (s ++ tail) tail = s := by
  have ends : hasSuffix (s ++ tail) tail = true := hasSuffix_iff.mpr (List.suffix_append s tail)
  simp [trimSuffix, ends]

theorem trimSuffix_eq_self {tail : Bytes} (other : ¬ tail <:+ s) : trimSuffix s tail = s := by
  have ends : hasSuffix s tail = false := by
    rw [Bool.eq_false_iff]
    exact fun h => other (hasSuffix_iff.mp h)
  simp [trimSuffix, ends]

/-- Trimming removes the suffix or nothing. -/
theorem trimSuffix_cases (s tail : Bytes) :
    (s = trimSuffix s tail ++ tail) ∨ (¬ tail <:+ s ∧ trimSuffix s tail = s) := by
  by_cases ends : tail <:+ s
  · obtain ⟨front, rfl⟩ := ends
    exact .inl (by rw [trimSuffix_append])
  · exact .inr ⟨ends, trimSuffix_eq_self ends⟩

theorem trimSuffix_isPrefix (s tail : Bytes) : trimSuffix s tail <+: s := by
  rcases trimSuffix_cases s tail with split | ⟨-, same⟩
  · exact ⟨tail, split.symm⟩
  · rw [same]

theorem length_trimSuffix_le (s tail : Bytes) : (trimSuffix s tail).length ≤ s.length :=
  (trimSuffix_isPrefix s tail).length_le

/-! ## Case -/

/-- The lower-case form of an ASCII byte. -/
def lowerByte (b : UInt8) : UInt8 := if 65 ≤ b ∧ b ≤ 90 then b + 32 else b

/-- The upper-case form of an ASCII byte. -/
def upperByte (b : UInt8) : UInt8 := if 97 ≤ b ∧ b ≤ 122 then b - 32 else b

/-- All bytes are ASCII. -/
def isASCII (s : Bytes) : Bool := s.all (· < 0x80)

/-- `strings.ToLower`. -/
def toLower (s : Bytes) : Bytes :=
  if isASCII s then s.map lowerByte else encode ((runes s).map toLowerRune)

/-- `strings.ToUpper`. -/
def toUpper (s : Bytes) : Bytes :=
  if isASCII s then s.map upperByte else encode ((runes s).map toUpperRune)

/-- The rune an ASCII byte encodes. -/
def asciiRune (b : UInt8) : Char := Char.ofNat b.toNat

theorem utf8EncodeChar_asciiRune :
    ∀ b : UInt8, b < 0x80 → String.utf8EncodeChar (asciiRune b) = [b] := by
  decide +kernel

/-- The fast path for ASCII maps a byte to one, as the rune it encodes is mapped. -/
def AgreesOnASCII (byteMap : UInt8 → UInt8) (runeMap : Char → Char) : Prop :=
  ∀ b : UInt8, b < 0x80 → runeMap (asciiRune b) = asciiRune (byteMap b) ∧ byteMap b < 0x80

theorem encode_map_asciiRune (small : ∀ b ∈ s, b < 0x80) : encode (s.map asciiRune) = s := by
  induction s with
  | nil => rfl
  | cons b s ih =>
      have head := utf8EncodeChar_asciiRune b (small b (by simp))
      have tail := ih fun c member => small c (by simp [member])
      rw [List.map_cons, encode_cons, head, tail, List.singleton_append]

/-- **The fast path agrees with the reading through runes.** -/
theorem AgreesOnASCII.map_eq_encode {byteMap : UInt8 → UInt8} {runeMap : Char → Char}
    (agrees : AgreesOnASCII byteMap runeMap) (all : isASCII s = true) :
    s.map byteMap = encode ((runes s).map runeMap) := by
  have small : ∀ b ∈ s, b < 0x80 := by simpa [isASCII] using all
  have read : runes s = s.map asciiRune := by
    conv_lhs => rw [← encode_map_asciiRune small]
    exact runes_encode _
  have mapped : (s.map asciiRune).map runeMap = (s.map byteMap).map asciiRune := by
    simp only [List.map_map]
    exact List.map_congr_left fun b member => (agrees b (small b member)).1
  have stillSmall : ∀ b ∈ s.map byteMap, b < 0x80 := by
    intro b member
    obtain ⟨c, source, rfl⟩ := List.mem_map.mp member
    exact (agrees c (small c source)).2
  rw [read, mapped, encode_map_asciiRune stillSmall]

theorem agreesOnASCII_lower : AgreesOnASCII lowerByte toLowerRune := by
  unfold AgreesOnASCII
  decide +kernel

theorem agreesOnASCII_upper : AgreesOnASCII upperByte toUpperRune := by
  unfold AgreesOnASCII
  decide +kernel

theorem toLower_eq_encode (s : Bytes) : toLower s = encode ((runes s).map toLowerRune) := by
  unfold toLower
  split
  · rename_i all
    exact agreesOnASCII_lower.map_eq_encode all
  · rfl

theorem toUpper_eq_encode (s : Bytes) : toUpper s = encode ((runes s).map toUpperRune) := by
  unfold toUpper
  split
  · rename_i all
    exact agreesOnASCII_upper.map_eq_encode all
  · rfl

theorem toUpper_toUpper (s : Bytes) : toUpper (toUpper s) = toUpper s := by
  rw [toUpper_eq_encode s, toUpper_eq_encode, runes_encode, List.map_map]
  congr 1
  exact List.map_congr_left fun c _ => toUpperRune_toUpperRune c

/-- A string of encoded runes that are their own lower-case forms. -/
def Lowered (s : Bytes) : Prop := ∃ rs, s = encode rs ∧ ∀ c ∈ rs, toLowerRune c = c

theorem lowered_toLower (s : Bytes) : Lowered (toLower s) := by
  refine ⟨_, toLower_eq_encode s, fun c member => ?_⟩
  obtain ⟨d, -, rfl⟩ := List.mem_map.mp member
  exact toLowerRune_toLowerRune d

theorem Lowered.toLower_eq (lowered : Lowered s) : toLower s = s := by
  obtain ⟨rs, rfl, fixed⟩ := lowered
  rw [toLower_eq_encode, runes_encode, List.map_congr_left fixed, List.map_id']

theorem Lowered.append {t : Bytes} (first : Lowered s) (second : Lowered t) : Lowered (s ++ t) := by
  obtain ⟨rs, rfl, fixed⟩ := first
  obtain ⟨qs, rfl, fixed'⟩ := second
  refine ⟨rs ++ qs, (encode_append rs qs).symm, fun c member => ?_⟩
  rcases List.mem_append.mp member with member | member
  · exact fixed c member
  · exact fixed' c member

theorem lowered_dot : Lowered [dot] := by
  refine ⟨['.'], by decide, fun c member => ?_⟩
  rw [List.mem_singleton.mp member]
  decide

/-- Two encoded runes at the end of one string are one rune. -/
theorem utf8EncodeChar_eq_of_append_eq {c d : Char} {t : Bytes}
    (same : s ++ String.utf8EncodeChar c = t ++ String.utf8EncodeChar d) : s = t := by
  -- the longer front would put a first byte inside the other rune
  have inside : ∀ {c d : Char} {extra : Bytes},
      String.utf8EncodeChar c = extra ++ String.utf8EncodeChar d → extra = [] := by
    intro c d extra shape
    have long : extra.length < (String.utf8EncodeChar c).length := by
      have := List.length_pos_iff.mpr (utf8EncodeChar_ne_nil d)
      rw [shape, List.length_append]
      omega
    have positive : 0 < (String.utf8EncodeChar d).length :=
      List.length_pos_iff.mpr (utf8EncodeChar_ne_nil d)
    have value : (String.utf8EncodeChar c)[extra.length] = (String.utf8EncodeChar d)[0] := by
      simp [shape]
    have first : ((String.utf8EncodeChar c)[extra.length]).IsUTF8FirstByte := by
      rw [value]
      exact UInt8.isUTF8FirstByte_getElem_utf8EncodeChar.mpr rfl
    exact List.length_eq_zero_iff.mp (UInt8.isUTF8FirstByte_getElem_utf8EncodeChar.mp first)
  rcases List.append_eq_append_iff.mp same with ⟨extra, rfl, shape⟩ | ⟨extra, rfl, shape⟩
  · rw [inside shape, List.append_nil]
  · rw [inside shape, List.append_nil]

/-- Without its last rune the string still is one of lower-case runes. -/
theorem Lowered.of_append {c : Char} (lowered : Lowered (s ++ String.utf8EncodeChar c)) :
    Lowered s := by
  obtain ⟨rs, equal, fixed⟩ := lowered
  cases rs using List.reverseRecOn with
  | nil => simp at equal
  | append_singleton rs d =>
      rw [encode_append, encode_cons, encode_nil, List.append_nil] at equal
      exact ⟨rs, utf8EncodeChar_eq_of_append_eq equal, fun r member => fixed r (by simp [member])⟩

theorem Lowered.of_encode_append {c : Char} (lowered : Lowered (String.utf8EncodeChar c ++ s)) :
    Lowered s := by
  obtain ⟨rs, equal, fixed⟩ := lowered
  have decoded := congrArg runes equal
  rw [runes_append, runes_encode] at decoded
  subst decoded
  rw [encode_cons, List.append_cancel_left_eq] at equal
  exact ⟨_, equal, fun r member => fixed r (List.mem_cons_of_mem _ member)⟩

theorem Lowered.trimSuffix_dot (lowered : Lowered s) : Lowered (trimSuffix s [dot]) := by
  rcases trimSuffix_cases s [dot] with split | ⟨-, same⟩
  · rw [split] at lowered
    exact Lowered.of_append (c := '.') lowered
  · rwa [same]

/-! ## White space -/

/-- The encodings of the white-space runes. -/
def spaceEncodings : List Bytes := spaceRunes.map String.utf8EncodeChar

/-- Removes listed strings from the front as long as one of them is there;
`fuel` bounds the number of passes. -/
def trimLeftLoop (fronts : List Bytes) : Nat → Bytes → Bytes
  | 0, s => s
  | fuel + 1, s =>
      match fronts.find? (·.isPrefixOf s) with
      | none => s
      | some front => trimLeftLoop fronts fuel (s.drop front.length)

/-- A string without the listed strings at its front. -/
def trimLeft (fronts : List Bytes) (s : Bytes) : Bytes := trimLeftLoop fronts s.length s

/-- `strings.TrimSpace`. -/
def trimSpace (s : Bytes) : Bytes :=
  (trimLeft (spaceEncodings.map List.reverse) (trimLeft spaceEncodings s).reverse).reverse

/-- `strings.Fields`, on what is left of the string and the field being read. -/
def fieldsLoop : Nat → Bytes → Bytes → List Bytes
  | 0, _, field => if field = [] then [] else [field]
  | _ + 1, [], field => if field = [] then [] else [field]
  | fuel + 1, b :: s, field =>
      match spaceEncodings.find? (·.isPrefixOf (b :: s)) with
      | some space =>
          (if field = [] then [] else [field]) ++ fieldsLoop fuel ((b :: s).drop space.length) []
      | none => fieldsLoop fuel s (field ++ [b])

/-- `strings.Fields`. -/
def fields (s : Bytes) : List Bytes := fieldsLoop (s.length + 1) s []

/-- The string starts with an encoded white-space rune. -/
def StartsWithSpace (s : Bytes) : Prop := ∃ front ∈ spaceEncodings, front <+: s

/-- The string ends with an encoded white-space rune. -/
def EndsWithSpace (s : Bytes) : Prop := ∃ tail ∈ spaceEncodings, tail <:+ s

instance (s : Bytes) : Decidable (StartsWithSpace s) :=
  inferInstanceAs (Decidable (∃ front ∈ spaceEncodings, front <+: s))

instance (s : Bytes) : Decidable (EndsWithSpace s) :=
  inferInstanceAs (Decidable (∃ tail ∈ spaceEncodings, tail <:+ s))

theorem trimLeft_eq_self {fronts : List Bytes} (clean : ∀ front ∈ fronts, ¬ front <+: s) :
    trimLeft fronts s = s := by
  have unfound : fronts.find? (·.isPrefixOf s) = none := by
    rw [List.find?_eq_none]
    intro front member found
    exact clean front member (List.isPrefixOf_iff_prefix.mp found)
  unfold trimLeft
  cases s.length with
  | zero => rfl
  | succ n => simp only [trimLeftLoop, unfound]

theorem not_prefix_trimLeftLoop {fronts : List Bytes} (nonempty : ∀ front ∈ fronts, front ≠ []) :
    ∀ (fuel : Nat) (s : Bytes), s.length ≤ fuel →
      ∀ front ∈ fronts, ¬ front <+: trimLeftLoop fronts fuel s
  | 0, s, short, front, member, bad => by
      have empty : s = [] := List.length_eq_zero_iff.mp (Nat.le_zero.mp short)
      rw [trimLeftLoop, empty, List.prefix_nil] at bad
      exact nonempty front member bad
  | fuel + 1, s, short, front, member, bad => by
      unfold trimLeftLoop at bad
      split at bad
      · rename_i missing
        have absent := List.find?_eq_none.mp missing front member
        exact absent (List.isPrefixOf_iff_prefix.mpr bad)
      · rename_i other found
        have positive := List.length_pos_iff.mpr (nonempty other (List.mem_of_find?_eq_some found))
        refine not_prefix_trimLeftLoop nonempty fuel _ ?_ front member bad
        rw [List.length_drop]
        omega

theorem not_prefix_trimLeft {fronts : List Bytes} (nonempty : ∀ front ∈ fronts, front ≠ [])
    (s : Bytes) : ∀ front ∈ fronts, ¬ front <+: trimLeft fronts s :=
  not_prefix_trimLeftLoop nonempty s.length s (Nat.le_refl _)

theorem trimLeftLoop_suffix (fronts : List Bytes) :
    ∀ (fuel : Nat) (s : Bytes), trimLeftLoop fronts fuel s <:+ s
  | 0, s => List.suffix_refl s
  | fuel + 1, s => by
      unfold trimLeftLoop
      split
      · exact List.suffix_refl s
      · exact (trimLeftLoop_suffix fronts fuel _).trans (List.drop_suffix _ _)

theorem spaceEncodings_ne_nil : ∀ front ∈ spaceEncodings, front ≠ [] := by
  intro front member
  obtain ⟨c, -, rfl⟩ := List.mem_map.mp member
  exact utf8EncodeChar_ne_nil c

theorem trimSpace_isPrefix (s : Bytes) : trimSpace s <+: trimLeft spaceEncodings s := by
  have tail := trimLeftLoop_suffix (spaceEncodings.map List.reverse)
    (trimLeft spaceEncodings s).reverse.length (trimLeft spaceEncodings s).reverse
  simpa [trimSpace, trimLeft] using List.reverse_prefix.mpr tail

theorem not_startsWithSpace_trimSpace (s : Bytes) : ¬ StartsWithSpace (trimSpace s) := by
  rintro ⟨front, member, leads⟩
  exact not_prefix_trimLeft spaceEncodings_ne_nil s front member
    (leads.trans (trimSpace_isPrefix s))

theorem not_endsWithSpace_trimSpace (s : Bytes) : ¬ EndsWithSpace (trimSpace s) := by
  rintro ⟨tail, member, ends⟩
  have nonempty : ∀ front ∈ spaceEncodings.map List.reverse, front ≠ [] := by
    intro front member
    obtain ⟨space, source, rfl⟩ := List.mem_map.mp member
    simpa using spaceEncodings_ne_nil space source
  refine not_prefix_trimLeft nonempty (trimLeft spaceEncodings s).reverse tail.reverse
    (List.mem_map_of_mem member) ?_
  rw [← List.reverse_suffix, List.reverse_reverse]
  exact ends

/-- Without white space at its end, a string is trimmed at its front. -/
theorem trimSpace_eq_trimLeft (trailing : ¬ EndsWithSpace s) :
    trimSpace s = trimLeft spaceEncodings s := by
  have back : trimLeft (spaceEncodings.map List.reverse) (trimLeft spaceEncodings s).reverse =
      (trimLeft spaceEncodings s).reverse := by
    refine trimLeft_eq_self fun tail member leads => ?_
    obtain ⟨space, source, rfl⟩ := List.mem_map.mp member
    exact trailing ⟨space, source, (List.reverse_prefix.mp leads).trans (trimLeftLoop_suffix ..)⟩
  rw [trimSpace, back, List.reverse_reverse]

/-- **A string without white space at its ends is left alone.** -/
theorem trimSpace_eq_self (leading : ¬ StartsWithSpace s) (trailing : ¬ EndsWithSpace s) :
    trimSpace s = s := by
  rw [trimSpace_eq_trimLeft trailing]
  exact trimLeft_eq_self fun front member leads => leading ⟨front, member, leads⟩

/-- What dropping a listed string keeps, trimming keeps. -/
theorem trimLeftLoop_induction {fronts : List Bytes} (holds : Bytes → Prop)
    (drops : ∀ front ∈ fronts, ∀ s, holds (front ++ s) → holds s) :
    ∀ (fuel : Nat) (s : Bytes), holds s → holds (trimLeftLoop fronts fuel s)
  | 0, _, start => start
  | fuel + 1, s, start => by
      unfold trimLeftLoop
      split
      · exact start
      · rename_i front found
        have leads := List.find?_some found
        obtain ⟨rest, rfl⟩ := List.isPrefixOf_iff_prefix.mp leads
        refine trimLeftLoop_induction holds drops fuel _ ?_
        rw [List.drop_left]
        exact drops front (List.mem_of_find?_eq_some found) rest start

/-- What is trimmed at the front are bytes of the listed strings. -/
theorem trimLeft_split (fronts : List Bytes) (s : Bytes) :
    ∃ front, s = front ++ trimLeft fronts s ∧ ∀ b ∈ front, ∃ space ∈ fronts, b ∈ space := by
  refine trimLeftLoop_induction
    (fun rest => ∃ front, s = front ++ rest ∧ ∀ b ∈ front, ∃ space ∈ fronts, b ∈ space)
    (fun space member rest kept => ?_) _ _ ⟨[], rfl, nofun⟩
  obtain ⟨front, split, spaces⟩ := kept
  refine ⟨front ++ space, by rw [split, List.append_assoc], fun b occurs => ?_⟩
  rcases List.mem_append.mp occurs with early | late
  · exact spaces b early
  · exact ⟨space, member, late⟩

/-- What is trimmed are bytes of white space. -/
theorem trimSpace_split (s : Bytes) :
    ∃ front back, s = front ++ trimSpace s ++ back ∧
      ∀ b, b ∈ front ∨ b ∈ back → ∃ space ∈ spaceEncodings, b ∈ space := by
  obtain ⟨front, split, spaces⟩ := trimLeft_split spaceEncodings s
  obtain ⟨back, split', spaces'⟩ :=
    trimLeft_split (spaceEncodings.map List.reverse) (trimLeft spaceEncodings s).reverse
  have middle : trimLeft spaceEncodings s = trimSpace s ++ back.reverse := by
    have whole := congrArg List.reverse split'
    rwa [List.reverse_reverse, List.reverse_append] at whole
  refine ⟨front, back.reverse, by rw [List.append_assoc, ← middle]; exact split, fun b occurs => ?_⟩
  rcases occurs with early | late
  · exact spaces b early
  · obtain ⟨space, member, occurs⟩ := spaces' b (List.mem_reverse.mp late)
    obtain ⟨space, source, rfl⟩ := List.mem_map.mp member
    exact ⟨space, source, List.mem_reverse.mp occurs⟩

theorem Lowered.trimLeft {s : Bytes} (lowered : Lowered s) :
    Lowered (trimLeft spaceEncodings s) := by
  refine trimLeftLoop_induction Lowered (fun front member rest kept => ?_) _ _ lowered
  obtain ⟨c, -, rfl⟩ := List.mem_map.mp member
  exact kept.of_encode_append

/-- Trimming a string of lower-case runes leaves one. -/
theorem Lowered.trimSpace {s : Bytes} (lowered : Lowered s) : Lowered (trimSpace s) := by
  refine trimLeftLoop_induction (fun s => Lowered s.reverse) ?_ _ _
    (by rw [List.reverse_reverse]; exact lowered.trimLeft)
  intro tail member rest kept
  obtain ⟨space, source, rfl⟩ := List.mem_map.mp member
  obtain ⟨c, -, rfl⟩ := List.mem_map.mp source
  rw [List.reverse_append, List.reverse_reverse] at kept
  exact kept.of_append

theorem EndsWithSpace.trimSpace_ne (ends : EndsWithSpace s) : trimSpace s ≠ s := by
  intro same
  rw [← same] at ends
  exact not_endsWithSpace_trimSpace s ends

/-- Lower-casing puts no white space at the front. -/
theorem StartsWithSpace.of_toLower (leads : StartsWithSpace (toLower s)) : StartsWithSpace s := by
  obtain ⟨front, member, leads⟩ := leads
  obtain ⟨space, isSpaceRune, rfl⟩ := List.mem_map.mp member
  obtain ⟨rest, split⟩ := leads
  have read := congrArg runes split
  rw [runes_append, toLower_eq_encode, runes_encode] at read
  cases s with
  | nil => simp [runes, readLoop] at read
  | cons b s =>
      rw [runes_cons, List.map_cons, List.cons.injEq] at read
      have fixed := eq_of_isSpace_toLowerRune
        (c := (decodeRune? (b :: s)).getD runeError)
        (by rw [← read.1]; simpa [isSpace] using isSpaceRune)
      rw [fixed] at read
      cases decoded : decodeRune? (b :: s) with
      | none =>
          rw [decoded, Option.getD_none] at read
          rw [read.1] at isSpaceRune
          exact absurd isSpaceRune (by decide)
      | some c =>
          rw [decoded, Option.getD_some] at read
          refine ⟨_, member, _, (?_ : _ ++ List.drop c.utf8Size (b :: s) = b :: s)⟩
          rw [read.1]
          exact (eq_append_of_decodeRune? decoded).symm

end Go

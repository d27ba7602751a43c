import ShardDNS.Go.Lowering

/-!
# Letters

A string is a sequence of letters (`letters`): code points in UTF-8, and stray bytes that are
part of none. It is determined by them (`flatMap_bytes_letters`).

Two rules compare strings up to case. Folding compares their letters up to the case of A to Z
alone (`foldASCII_eq_iff`). Lower-casing compares the lower-case forms of the code points and
takes every stray byte for U+FFFD, so it also identifies letters that folding tells apart. Which
these are is said by `Confusable`, and that there are no others by `toLower_eq_iff`.
-/

set_option autoImplicit false

namespace Go

/-- A letter of a string: a code point, or a byte that is not part of an encoded one. -/
inductive Letter where
  | rune (c : Char)
  | stray (b : UInt8)
  deriving DecidableEq, Repr

/-- The code point with A to Z moved to a to z. -/
def foldRune (c : Char) : Char :=
  if 65 ≤ c.toNat ∧ c.toNat ≤ 90 then Char.ofNat (c.toNat + 32) else c

namespace Letter

/-- The bytes of the letter. -/
def bytes : Letter → Bytes
  | .rune c => String.utf8EncodeChar c
  | .stray b => [b]

/-- The code point the letter is read as. -/
def value : Letter → Char
  | .rune c => c
  | .stray _ => runeError

/-- The letter with A to Z moved to a to z. -/
def fold : Letter → Letter
  | .rune c => .rune (foldRune c)
  | .stray b => .stray b

end Letter

/-- The letter a string starts with. -/
def leadingLetter (s : Bytes) : Letter :=
  match decodeRune? s with
  | some c => .rune c
  | none => .stray (s.headD 0)

/-- The letters of a string. -/
def letters (s : Bytes) : List Letter := readLoop leadingLetter s.length s

theorem letters_cons (b : UInt8) (s : Bytes) :
    letters (b :: s) =
      leadingLetter (b :: s) :: letters ((b :: s).drop (runeWidth (b :: s))) :=
  readLoop_cons leadingLetter b s

theorem value_leadingLetter (s : Bytes) :
    (leadingLetter s).value = (decodeRune? s).getD runeError := by
  unfold leadingLetter
  cases decodeRune? s <;> rfl

theorem runes_eq_map_letters (s : Bytes) : runes s = (letters s).map Letter.value := by
  induction s using rune_induction with
  | nil => rfl
  | cons b s ih => rw [runes_cons, letters_cons, List.map_cons, ← ih, value_leadingLetter]

/-- **A string is made of the bytes of its letters.** -/
theorem flatMap_bytes_letters (s : Bytes) : (letters s).flatMap Letter.bytes = s := by
  induction s using rune_induction with
  | nil => rfl
  | cons b s ih =>
      rw [letters_cons, List.flatMap_cons, ih]
      unfold leadingLetter runeWidth
      cases decoded : decodeRune? (b :: s) with
      | none => rfl
      | some c => exact (eq_append_of_decodeRune? decoded).symm

theorem letters_injective : Function.Injective letters := by
  intro s t same
  rw [← flatMap_bytes_letters s, same, flatMap_bytes_letters]

theorem letters_cons_ascii {b : UInt8} (small : b < 0x80) (t : Bytes) :
    letters (b :: t) = .rune (asciiRune b) :: letters t := by
  have decoded := decodeRune?_append (asciiRune b) t
  rw [utf8EncodeChar_asciiRune b small, List.singleton_append] at decoded
  have width : runeWidth (b :: t) = 1 := by
    rw [runeWidth, decoded]
    have size := String.length_utf8EncodeChar (asciiRune b)
    rw [utf8EncodeChar_asciiRune b small] at size
    exact size.symm
  rw [letters_cons, width, leadingLetter, decoded]
  rfl

/-- A string has the letters of its parts around an ASCII byte. -/
theorem letters_append_ascii {b : UInt8} (small : b < 0x80) (s t : Bytes) :
    letters (s ++ b :: t) = letters s ++ .rune (asciiRune b) :: letters t := by
  induction s using rune_induction with
  | nil => exact letters_cons_ascii small t
  | cons d s ih =>
      have decoded := decodeRune?_append_ascii (List.cons_ne_nil d s) small t
      have width : runeWidth (d :: s ++ b :: t) = runeWidth (d :: s) := by
        rw [runeWidth, runeWidth, decoded]
      have leading : leadingLetter (d :: s ++ b :: t) = leadingLetter (d :: s) := by
        rw [leadingLetter, leadingLetter, decoded]
        rfl
      have inside := runeWidth_le_length (List.cons_ne_nil d s)
      rw [List.cons_append, letters_cons, ← List.cons_append, width, leading,
        List.drop_append_of_le_length inside, ih, ← List.cons_append, ← letters_cons]

/-! ## Folding -/

theorem foldRune_asciiRune : ∀ b : UInt8, b < 0x80 →
    foldRune (asciiRune b) = asciiRune (lowerByte b) := by
  decide +kernel

theorem foldRune_of_large {c : Char} (large : 0x80 ≤ c.toNat) : foldRune c = c := by
  rw [foldRune, if_neg]
  omega

theorem toNat_asciiRune (b : UInt8) : (asciiRune b).toNat = b.toNat := by
  have valid : b.toNat.isValidChar := .inl (Nat.lt_trans b.toNat_lt (by decide))
  rw [asciiRune, Char.ofNat, dif_pos valid]
  rfl

/-- A small code point is the one of a byte. -/
theorem exists_asciiRune {c : Char} (small : c.toNat < 0x80) :
    ∃ b : UInt8, b < 0x80 ∧ c = asciiRune b := by
  have byte : (UInt8.ofNat c.toNat).toNat = c.toNat := by
    rw [UInt8.toNat_ofNat']
    omega
  refine ⟨UInt8.ofNat c.toNat, ?_, ?_⟩
  · rw [UInt8.lt_iff_toNat_lt, byte]
    exact small
  · rw [asciiRune, byte, Char.ofNat_toNat]

/-- Folding leaves a string without ASCII bytes alone. -/
theorem map_fold_of_large {s : Bytes} (large : ∀ b ∈ s, 0x80 ≤ b) :
    (letters s).map Letter.fold = letters s := by
  refine (List.map_congr_left fun letter member => ?_).trans (List.map_id _)
  cases letter with
  | stray b => rfl
  | rune c =>
      by_cases small : c.toNat < 0x80
      · obtain ⟨b, ascii, rfl⟩ := exists_asciiRune small
        have inside : b ∈ s := by
          rw [← flatMap_bytes_letters s, List.mem_flatMap]
          refine ⟨_, member, ?_⟩
          rw [Letter.bytes, utf8EncodeChar_asciiRune b ascii]
          exact List.mem_singleton_self b
        exact absurd (large b inside) (UInt8.not_le.mpr ascii)
      · exact congrArg Letter.rune (foldRune_of_large (Nat.not_lt.mp small))

theorem letters_foldASCII (s : Bytes) : letters (foldASCII s) = (letters s).map Letter.fold := by
  induction s using ascii_induction with
  | plain s large => rw [foldASCII_of_large large, map_fold_of_large large]
  | cut s b t large small ih =>
      have still := (agreesOnASCII_lower b small).2
      rw [foldASCII_append_cons, foldASCII_of_large large, letters_append_ascii still,
        letters_append_ascii small, ih, List.map_append, List.map_cons, map_fold_of_large large,
        Letter.fold, foldRune_asciiRune b small]

/-- Lists are equal under a function when their elements are. -/
theorem map_eq_map_iff_forall₂ {α β : Type} {f : α → β} {first second : List α} :
    first.map f = second.map f ↔ List.Forall₂ (fun a b => f a = f b) first second := by
  rw [← List.forall₂_eq_eq_eq, List.forall₂_map_left_iff, List.forall₂_map_right_iff]

/-- **Strings fold to the same exactly if their letters do.** -/
theorem foldASCII_eq_iff {s t : Bytes} :
    foldASCII s = foldASCII t ↔
      List.Forall₂ (fun a b => Letter.fold a = Letter.fold b) (letters s) (letters t) := by
  rw [← letters_injective.eq_iff, letters_foldASCII, letters_foldASCII, map_eq_map_iff_forall₂]

/-! ## Letters that lower-casing takes for one another -/

/-- The Kelvin sign U+212A, whose lower case is k. -/
def kelvinSign : Char := Char.ofNat 0x212A

/-- The dotted capital I, U+0130, whose lower case is i. -/
def dottedI : Char := Char.ofNat 0x130

/-- The first letter is taken for the second: two code points beyond ASCII with one lower case;
K or k and the Kelvin sign; I or i and the dotted I; a stray byte and another one, or the
replacement character. -/
inductive Mistaken : Letter → Letter → Prop where
  | cased {c d : Char} : 0x80 ≤ c.toNat → 0x80 ≤ d.toNat → c ≠ d →
      toLowerRune c = toLowerRune d → Mistaken (.rune c) (.rune d)
  | kelvin {c : Char} : c = 'K' ∨ c = 'k' → Mistaken (.rune c) (.rune kelvinSign)
  | dotted {c : Char} : c = 'I' ∨ c = 'i' → Mistaken (.rune c) (.rune dottedI)
  | stray {b d : UInt8} : b ≠ d → Mistaken (.stray b) (.stray d)
  | replaced (b : UInt8) : Mistaken (.stray b) (.rune runeError)

/-- Lower-casing takes the letters for one another, and they are not one letter in two cases of
A to Z. -/
def Confusable (a b : Letter) : Prop := Mistaken a b ∨ Mistaken b a

theorem toLowerRune_eq_foldRune {c : Char} (small : c.toNat < 0x80) :
    toLowerRune c = foldRune c := by
  obtain ⟨b, ascii, rfl⟩ := exists_asciiRune small
  rw [(agreesOnASCII_lower b ascii).1, foldRune_asciiRune b ascii]

theorem toLowerRune_runeError : toLowerRune runeError = runeError := by decide +kernel

/-- No range leads to the replacement character, and one that leads to ASCII starts there or is
one of the two exceptions. -/
theorem lowerRanges_lead : ∀ range ∈ lowerRanges,
    (range.imageEnd < 0xFFFD ∨ 0xFFFD < range.image) ∧
      (0x80 ≤ range.image ∨ range.hi < 0x80 ∨ range.lo = 0x130 ∧ range.hi = 0x130 ∨
        range.lo = 0x212A ∧ range.hi = 0x212A) := by
  decide +kernel

/-- Where a code point is moved to. -/
theorem toLowerRune_cases (c : Char) : toLowerRune c = c ∨
    ∃ range ∈ lowerRanges, range.lo ≤ c.toNat ∧ c.toNat ≤ range.hi ∧
      range.image ≤ (toLowerRune c).toNat ∧ (toLowerRune c).toNat ≤ range.imageEnd := by
  rcases mapCase_cases lowerRanges c with ⟨stays, -⟩ | ⟨range, member, inside, moves⟩
  · exact .inl stays
  · have image := CaseRange.toNat_ofNat_shift
      (List.all_eq_true.mp lowerRanges_landOnLetters range member) inside
    obtain ⟨lower, upper, -⟩ := CaseRange.contains_iff.mp inside
    rw [← moves] at image
    refine .inr ⟨range, member, lower, upper, ?_, ?_⟩ <;>
      simp only [toLowerRune, image, CaseRange.shift, CaseRange.imageEnd] <;> omega

theorem toLowerRune_eq_runeError_iff {c : Char} : toLowerRune c = runeError ↔ c = runeError := by
  constructor
  · intro lowered
    rcases toLowerRune_cases c with stays | ⟨range, member, -, -, lower, upper⟩
    · rw [← stays, lowered]
    · have apart := (lowerRanges_lead range member).1
      have value : runeError.toNat = 0xFFFD := by decide
      rw [lowered, value] at lower upper
      omega
  · rintro rfl
    exact toLowerRune_runeError

/-- The code points beyond ASCII with a lower case in ASCII. -/
theorem eq_of_toLowerRune_small {c : Char} (large : 0x80 ≤ c.toNat)
    (small : (toLowerRune c).toNat < 0x80) : c = kelvinSign ∨ c = dottedI := by
  rcases toLowerRune_cases c with stays | ⟨range, member, lower, upper, image, -⟩
  · rw [stays] at small
    omega
  · have lead := (lowerRanges_lead range member).2
    have same : ∀ n, c.toNat = n → c = Char.ofNat n := by
      rintro _ rfl
      exact (Char.ofNat_toNat c).symm
    have exceptions : c.toNat = 0x212A ∨ c.toNat = 0x130 := by omega
    exact exceptions.imp (same _) (same _)

/-- Code points of ASCII with the lower case of one beyond. -/
theorem toLowerRune_eq_iff_mixed {c d : Char} (small : c.toNat < 0x80) (large : 0x80 ≤ d.toNat) :
    toLowerRune c = toLowerRune d ↔ Mistaken (.rune c) (.rune d) := by
  obtain ⟨b, ascii, rfl⟩ := exists_asciiRune small
  constructor
  · intro same
    have lowered : toLowerRune (asciiRune b) = asciiRune (lowerByte b) :=
      (agreesOnASCII_lower b ascii).1
    have still := UInt8.lt_iff_toNat_lt.mp (agreesOnASCII_lower b ascii).2
    have target : (toLowerRune d).toNat < 0x80 := by
      rw [← same, lowered, toNat_asciiRune]
      exact still
    rcases eq_of_toLowerRune_small large target with rfl | rfl
    · exact .kelvin ((show ∀ b : UInt8, b < 0x80 →
        toLowerRune (asciiRune b) = toLowerRune kelvinSign → asciiRune b = 'K' ∨ asciiRune b = 'k'
        by decide +kernel) b ascii same)
    · exact .dotted ((show ∀ b : UInt8, b < 0x80 →
        toLowerRune (asciiRune b) = toLowerRune dottedI → asciiRune b = 'I' ∨ asciiRune b = 'i'
        by decide +kernel) b ascii same)
  · intro mistaken
    generalize source : asciiRune b = c at mistaken small
    cases mistaken with
    | cased large' => exact absurd small (Nat.not_lt.mpr large')
    | kelvin letter => rcases letter with rfl | rfl <;> decide +kernel
    | dotted letter => rcases letter with rfl | rfl <;> decide +kernel

theorem foldRune_ne_of_mixed {c d : Char} (small : c.toNat < 0x80) (large : 0x80 ≤ d.toNat) :
    foldRune c ≠ foldRune d := by
  rw [foldRune_of_large large]
  rintro rfl
  obtain ⟨b, ascii, rfl⟩ := exists_asciiRune small
  rw [foldRune_asciiRune b ascii, toNat_asciiRune] at large
  have still := UInt8.lt_iff_toNat_lt.mp (agreesOnASCII_lower b ascii).2
  exact absurd still (Nat.not_lt.mpr large)

/-- Two code points with one lower case. -/
theorem toLowerRune_eq_iff {c d : Char} :
    toLowerRune c = toLowerRune d ↔ foldRune c = foldRune d ∨ Confusable (.rune c) (.rune d) := by
  have ascii : ∀ {c d : Char}, c.toNat < 0x80 → d.toNat < 0x80 →
      ¬ Mistaken (.rune c) (.rune d) := by
    intro c d small small' mistaken
    cases mistaken with
    | cased large => exact absurd small (Nat.not_lt.mpr large)
    | kelvin => exact absurd small' (by decide)
    | dotted => exact absurd small' (by decide)
  have beyond : ∀ {c d : Char}, 0x80 ≤ c.toNat → d.toNat < 0x80 →
      ¬ Mistaken (.rune c) (.rune d) := by
    intro c d large small mistaken
    cases mistaken with
    | cased _ large' => exact absurd small (Nat.not_lt.mpr large')
    | kelvin => exact absurd small (by decide)
    | dotted => exact absurd small (by decide)
  rcases Nat.lt_or_ge c.toNat 0x80 with small | large <;>
    rcases Nat.lt_or_ge d.toNat 0x80 with small' | large'
  · rw [toLowerRune_eq_foldRune small, toLowerRune_eq_foldRune small', Confusable]
    simp [ascii small small', ascii small' small]
  · rw [toLowerRune_eq_iff_mixed small large', Confusable]
    simp [foldRune_ne_of_mixed small large', beyond large' small]
  · rw [eq_comm, toLowerRune_eq_iff_mixed small' large, Confusable]
    simp [(foldRune_ne_of_mixed small' large).symm, beyond large small']
  · rw [foldRune_of_large large, foldRune_of_large large']
    constructor
    · intro same
      by_cases equal : c = d
      · exact .inl equal
      · exact .inr (.inl (.cased large large' equal same))
    · rintro (rfl | mistaken | mistaken)
      · rfl
      · cases mistaken with
        | cased _ _ _ same => exact same
        | kelvin letter => rcases letter with rfl | rfl <;> exact absurd large (by decide)
        | dotted letter => rcases letter with rfl | rfl <;> exact absurd large (by decide)
      · cases mistaken with
        | cased _ _ _ same => exact same.symm
        | kelvin letter => rcases letter with rfl | rfl <;> exact absurd large' (by decide)
        | dotted letter => rcases letter with rfl | rfl <;> exact absurd large' (by decide)

/-- **Lower-casing takes two letters for one exactly if folding does or they are confusable.** -/
theorem toLowerRune_value_eq_iff {a b : Letter} :
    toLowerRune a.value = toLowerRune b.value ↔ a.fold = b.fold ∨ Confusable a b := by
  have stray : ∀ (c : Char) (b : UInt8), c = runeError ↔
      Letter.fold (.rune c) = Letter.fold (.stray b) ∨ Confusable (.rune c) (.stray b) := by
    intro c b
    refine ⟨fun same => .inr (.inr (same ▸ .replaced b)), ?_⟩
    rintro (same | mistaken | mistaken)
    · cases same
    · cases mistaken
    · cases mistaken
      rfl
  cases a with
  | rune c =>
      cases b with
      | rune d =>
          rw [Letter.fold, Letter.fold, Letter.rune.injEq]
          exact toLowerRune_eq_iff
      | stray b =>
          rw [Letter.value, Letter.value, toLowerRune_runeError, toLowerRune_eq_runeError_iff]
          exact stray c b
  | stray d =>
      cases b with
      | rune c =>
          rw [Letter.value, Letter.value, toLowerRune_runeError, eq_comm,
            toLowerRune_eq_runeError_iff, stray c d, eq_comm, Confusable, Confusable,
            or_comm (a := Mistaken _ _)]
      | stray b =>
          refine iff_of_true rfl ?_
          by_cases same : d = b
          · exact .inl (congrArg Letter.stray same)
          · exact .inr (.inl (.stray same))

theorem Mistaken.fold_ne {a b : Letter} (mistaken : Mistaken a b) : a.fold ≠ b.fold := by
  intro same
  cases mistaken with
  | cased large large' other =>
      injection same with same
      rw [foldRune_of_large large, foldRune_of_large large'] at same
      exact other same
  | kelvin letter =>
      injection same with same
      rcases letter with rfl | rfl <;> exact absurd same (by decide)
  | dotted letter =>
      injection same with same
      rcases letter with rfl | rfl <;> exact absurd same (by decide)
  | stray other =>
      injection same with same
      exact other same
  | replaced b => cases same

theorem Confusable.fold_ne {a b : Letter} (confusable : Confusable a b) : a.fold ≠ b.fold :=
  confusable.elim Mistaken.fold_ne fun mistaken => mistaken.fold_ne.symm

/-- **Strings are lower-cased to the same exactly if they agree letter by letter**, up to the
case of A to Z and confusable letters. -/
theorem toLower_eq_iff {s t : Bytes} :
    toLower s = toLower t ↔
      List.Forall₂ (fun a b => Letter.fold a = Letter.fold b ∨ Confusable a b) (letters s)
        (letters t) := by
  have read : Function.Injective encode := fun rs rs' same => by
    rw [← runes_encode rs, same, runes_encode]
  rw [toLower_eq_encode, toLower_eq_encode, read.eq_iff, runes_eq_map_letters,
    runes_eq_map_letters, List.map_map, List.map_map, map_eq_map_iff_forall₂]
  have pairs : (fun a b : Letter => (toLowerRune ∘ Letter.value) a =
      (toLowerRune ∘ Letter.value) b) = fun a b => a.fold = b.fold ∨ Confusable a b := by
    funext a b
    exact propext toLowerRune_value_eq_iff
  rw [pairs]

end Go

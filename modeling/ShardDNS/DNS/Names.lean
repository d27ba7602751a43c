import ShardDNS.DNS.NameCodec
import ShardDNS.Store.Names

/-!
# Names that may be stored

`validateName` accepts the names the API stores: labels of lower-case letters, digits,
hyphens and underscores, without a hyphen at either end, and a wildcard as the leftmost
label (`validateName_eq_ok_iff`). Such a name, and each name it ends in after a dot, is
its own normal form (`normalizeZone_of_valid`).

The three checks of lengths agree at the limits: `packName` adds two to the length of the
text, `parseName` adds up the octets of the labels, and `validateName` allows 253 bytes. So a
valid name is packed and read back unchanged (`packName_roundTrip`).
-/

set_option autoImplicit false

namespace ShardDNS.DNS

open Go LabelTree Store

/-- Why a name is not accepted. -/
inductive NameFault where
  | empty
  | tooLong (name : Bytes)
  | emptyLabel (name : Bytes)
  | labelTooLong (label : Bytes)
  | wildcard (name : Bytes)
  | invalidCharacter (label : Bytes) (c : UInt8)
  | hyphen (label : Bytes)
  deriving DecidableEq, Repr

/-- The byte `-`. -/
def hyphenByte : UInt8 := 45

/-- The bytes a label may have: `a` to `z`, `0` to `9`, `-` and `_`. -/
def isLabelByte (c : UInt8) : Bool :=
  (97 ≤ c && c ≤ 122) || (48 ≤ c && c ≤ 57) || c == hyphenByte || c == 95

/-- The checks on one label, with its position. -/
def validateLabel (name : Bytes) (i : Nat) (l : Bytes) : Except NameFault Unit :=
  if l = [] then .error (.emptyLabel name)
  else if maxLabelLen < l.length then .error (.labelTooLong l)
  else if l = ascii "*" then
    if i ≠ 0 then .error (.wildcard name) else .ok ()
  else
    match l.find? fun c => !isLabelByte c with
    | some c => .error (.invalidCharacter l c)
    | none =>
        if l.head? = some hyphenByte ∨ l.getLast? = some hyphenByte then .error (.hyphen l)
        else .ok ()

def validateLabels (name : Bytes) : Nat → List Bytes → Except NameFault Unit
  | _, [] => .ok ()
  | i, l :: ls => do
      validateLabel name i l
      validateLabels name (i + 1) ls

/-- `ValidateName`. -/
def validateName (name : Bytes) : Except NameFault Unit :=
  if name = [] then .error .empty
  else if 253 < name.length then .error (.tooLong name)
  else validateLabels name 0 (labels dot name)

/-! ## What is accepted -/

/-- A label that may stand anywhere. -/
structure ValidLabel (l : Bytes) : Prop where
  nonempty : l ≠ []
  length : l.length ≤ maxLabelLen
  bytes : ∀ c ∈ l, isLabelByte c = true
  first : l.head? ≠ some hyphenByte
  last : l.getLast? ≠ some hyphenByte

theorem validateLabel_eq_ok_iff {name l : Bytes} {i : Nat} :
    validateLabel name i l = .ok () ↔ ValidLabel l ∨ (i = 0 ∧ l = ascii "*") := by
  unfold validateLabel
  by_cases wild : l = ascii "*"
  · subst wild
    have notLabel : ¬ ValidLabel (ascii "*") := fun valid => absurd valid.bytes (by decide)
    rw [if_neg (by decide), if_neg (by decide), if_pos rfl]
    by_cases zero : i = 0 <;> simp [zero, notLabel]
  · constructor
    · intro accepted
      by_cases empty : l = []
      · simp [empty] at accepted
      · by_cases long : maxLabelLen < l.length
        · simp [empty, long] at accepted
        · rw [if_neg empty, if_neg long, if_neg wild] at accepted
          cases clean : l.find? fun c => !isLabelByte c with
          | some c => simp [clean] at accepted
          | none =>
              by_cases hyphens : l.head? = some hyphenByte ∨ l.getLast? = some hyphenByte
              · simp [clean, hyphens] at accepted
              · rw [not_or] at hyphens
                refine .inl ⟨empty, Nat.le_of_not_lt long, fun c member => ?_, hyphens.1, hyphens.2⟩
                simpa using List.find?_eq_none.mp clean c member
    · rintro (valid | ⟨-, same⟩)
      · have clean : l.find? (fun c => !isLabelByte c) = none := by
          rw [List.find?_eq_none]
          intro c member
          simp [valid.bytes c member]
        rw [if_neg valid.nonempty, if_neg (Nat.not_lt.mpr valid.length), if_neg wild, clean]
        exact if_neg (not_or.mpr ⟨valid.first, valid.last⟩)
      · exact absurd same wild

theorem validateLabels_succ_eq_ok_iff {name : Bytes} {ls : List Bytes} {i : Nat} :
    validateLabels name (i + 1) ls = .ok () ↔ ∀ l ∈ ls, ValidLabel l := by
  induction ls generalizing i with
  | nil => simp [validateLabels]
  | cons l ls ih =>
      rw [validateLabels, bind_eq_ok, List.forall_mem_cons, ← ih (i := i + 1)]
      constructor
      · rintro ⟨⟨⟩, first, rest⟩
        exact ⟨(validateLabel_eq_ok_iff.mp first).resolve_right (by simp), rest⟩
      · rintro ⟨first, rest⟩
        exact ⟨(), validateLabel_eq_ok_iff.mpr (.inl first), rest⟩

/-- **The names accepted.** -/
theorem validateName_eq_ok_iff {name : Bytes} :
    validateName name = .ok () ↔
      name ≠ [] ∧ name.length ≤ 253 ∧
        ∃ l ls, labels dot name = l :: ls ∧ (ValidLabel l ∨ l = ascii "*") ∧
          ∀ l' ∈ ls, ValidLabel l' := by
  unfold validateName
  by_cases empty : name = []
  · simp [empty]
  · by_cases long : 253 < name.length
    · simp [empty, long]
    · rw [if_neg empty, if_neg long]
      have rest : (name ≠ [] ∧ name.length ≤ 253 ∧ ∃ l ls, labels dot name = l :: ls ∧
          (ValidLabel l ∨ l = ascii "*") ∧ ∀ l' ∈ ls, ValidLabel l') ↔
          ∃ l ls, labels dot name = l :: ls ∧ (ValidLabel l ∨ l = ascii "*") ∧
            ∀ l' ∈ ls, ValidLabel l' :=
        ⟨fun all => all.2.2, fun split => ⟨empty, Nat.le_of_not_lt long, split⟩⟩
      rw [rest]
      cases split : labels dot name with
      | nil => exact absurd split (List.splitOn_ne_nil _ _)
      | cons l ls =>
          rw [validateLabels, bind_eq_ok]
          constructor
          · rintro ⟨⟨⟩, first, others⟩
            exact ⟨l, ls, rfl, (validateLabel_eq_ok_iff.mp first).imp_right fun wild => wild.2,
              validateLabels_succ_eq_ok_iff.mp others⟩
          · rintro ⟨l', ls', same, first, others⟩
            cases same
            exact ⟨(), validateLabel_eq_ok_iff.mpr (first.imp_right fun wild => ⟨rfl, wild⟩),
              validateLabels_succ_eq_ok_iff.mpr others⟩

/-! ## Valid names are normal -/

/-- The bytes of valid names. -/
def isNameByte (c : UInt8) : Bool := isLabelByte c || c == dot || c == 42

theorem isNameByte_lower : ∀ c : UInt8, isNameByte c = true → c < 0x80 ∧ lowerByte c = c := by
  decide +kernel

theorem exists_not_isNameByte : ∀ space ∈ spaceEncodings, ∃ c ∈ space, isNameByte c = false := by
  decide +kernel

theorem lowered_of_nameBytes {s : Bytes} (bytes : ∀ c ∈ s, isNameByte c = true) : Lowered s := by
  have small : ∀ c ∈ s, c < 0x80 := fun c member => (isNameByte_lower c (bytes c member)).1
  refine ⟨s.map asciiRune, (encode_map_asciiRune small).symm, fun r member => ?_⟩
  obtain ⟨c, source, rfl⟩ := List.mem_map.mp member
  rw [(agreesOnASCII_lower c (small c source)).1, (isNameByte_lower c (bytes c source)).2]

theorem normalizeZone_of_nameBytes {s : Bytes} (bytes : ∀ c ∈ s, isNameByte c = true)
    (undotted : ¬ ascii "." <:+ s) : normalizeZone s = s ∧ Settled s := by
  have clean : ∀ space ∈ spaceEncodings, ¬ space ⊆ s := by
    intro space member inside
    obtain ⟨c, occurs, other⟩ := exists_not_isNameByte space member
    rw [bytes c (inside occurs)] at other
    cases other
  have settled : Settled s :=
    ⟨undotted, fun ⟨space, member, ends⟩ => clean space member ends.subset⟩
  refine ⟨normalizeZone_eq_self (lowered_of_nameBytes bytes) ?_ settled, settled⟩
  rintro ⟨space, member, leads⟩
  exact clean space member leads.subset

theorem nameBytes_of_mem_labels {name label : Bytes} (valid : validateName name = .ok ())
    (member : label ∈ labels dot name) : ∀ c ∈ label, isNameByte c = true := by
  obtain ⟨-, -, l, ls, split, first, rest⟩ := validateName_eq_ok_iff.mp valid
  intro c occurs
  rw [split] at member
  have byte : isLabelByte c = true ∨ c = 42 := by
    rcases List.mem_cons.mp member with rfl | later
    · rcases first with valid | rfl
      · exact .inl (valid.bytes c occurs)
      · exact .inr (by simpa [ascii] using occurs)
    · exact .inl ((rest label later).bytes c occurs)
  rcases byte with letter | rfl
  · simp [isNameByte, letter]
  · decide

theorem nameBytes_of_valid {name : Bytes} (valid : validateName name = .ok ()) :
    ∀ c ∈ name, isNameByte c = true := by
  intro c member
  by_cases separates : c = dot
  · rw [separates]
    decide
  · obtain ⟨label, found, occurs⟩ := exists_mem_labels member separates
    exact nameBytes_of_mem_labels valid found c occurs

/-- **A valid name, and any name it ends in after a dot, is its own normal form.** -/
theorem normalizeZone_of_valid {name zone : Bytes} (valid : validateName name = .ok ())
    (ends : zone <:+ name) : normalizeZone zone = zone ∧ Settled zone := by
  refine normalizeZone_of_nameBytes
    (fun c member => nameBytes_of_valid valid c (ends.subset member)) fun dotted => ?_
  obtain ⟨-, -, l, ls, split, first, rest⟩ := validateName_eq_ok_iff.mp valid
  -- a trailing dot would leave an empty label
  have above : [] ∈ ancestors dot name :=
    mem_ancestors_iff_suffix.mpr (by simpa using dotted.trans ends)
  obtain ⟨front, -, tail⟩ := mem_ancestors_iff_labels.mp above
  have member : [] ∈ l :: ls := by
    rw [← split, tail]
    simp [labels]
  rcases List.mem_cons.mp member with same | later
  · subst same
    rcases first with valid | wild
    · exact valid.nonempty rfl
    · exact absurd wild (by decide)
  · exact (rest [] later).nonempty rfl

/-! ## Valid names on the wire -/

/-- The text of a name is a sequence of labels that fits a packed name. -/
theorem exists_packName_iff {name : Bytes} :
    (∃ out, packName [] name = .ok out) ↔
      trimSuffix name (ascii ".") = [] ∨
        (trimSuffix name (ascii ".")).length ≤ 253 ∧
          ∀ label ∈ labels dot (trimSuffix name (ascii ".")),
            1 ≤ label.length ∧ label.length ≤ 63 := by
  simp only [packName_eq_ok_iff, exists_and_left, exists_eq, and_true]
  by_cases root : trimSuffix name (ascii ".") = []
  · have bare : textLabels name = [] := if_pos root
    simp [root, bare, LabelsFit, wireLength, maxNameLen]
  · rw [wireLength_textLabels root, textLabels, if_neg root]
    simp only [root, false_or]
    constructor
    · rintro ⟨fit, short⟩
      exact ⟨Nat.le_of_add_le_add_right short, fit⟩
    · rintro ⟨short, fit⟩
      exact ⟨fit, Nat.add_le_add_right short 2⟩

/-- A packed name stands behind what was there and is read back from where it starts. -/
theorem parseName_of_packName {front name out : Bytes} (packed : packName front name = .ok out)
    (back : Bytes) :
    front <+: out ∧ parseName (out ++ back) front.length = .ok (readBack name, out.length) := by
  obtain ⟨fit, short, rfl⟩ := packName_eq_ok_iff.mp packed
  have size := length_encodeLabels (textLabels name)
  have read := parseName_packName fit short front back
  refine ⟨List.prefix_append _ _, ?_⟩
  have layout : front ++ (encodeLabels (textLabels name) ++ [0]) ++ back =
      front ++ (encodeLabels (textLabels name) ++ 0 :: back) := by
    simp
  rw [layout, read, List.length_append, List.length_append, List.length_singleton, size]

/-- A valid name does not end with a dot. -/
theorem trimSuffix_of_valid {name : Bytes} (valid : validateName name = .ok ()) :
    trimSuffix name (ascii ".") = name := by
  obtain ⟨-, settled⟩ := normalizeZone_of_valid valid List.suffix_rfl
  exact trimSuffix_eq_self settled.1

theorem labelsFit_of_valid {name : Bytes} (valid : validateName name = .ok ()) :
    LabelsFit (labels dot name) := by
  obtain ⟨-, -, l, ls, split, first, rest⟩ := validateName_eq_ok_iff.mp valid
  have fits : ∀ label, ValidLabel label → 0 < label.length ∧ label.length ≤ maxLabelLen :=
    fun label valid => ⟨List.length_pos_iff.mpr valid.nonempty, valid.length⟩
  rw [split]
  intro label member
  rcases List.mem_cons.mp member with rfl | later
  · rcases first with valid | rfl
    · exact fits label valid
    · decide
  · exact fits label (rest label later)

/-- **Names go to the wire and back at any position.** A packed name stands behind the prefix
it was packed to, and reading it from there, whatever follows, gives the text without one
trailing dot and the end of the name. Packing succeeds exactly on the root and on texts of at
most 253 bytes with labels of 1 to 63 bytes, among them every valid name, which is read back
unchanged. -/
theorem packName_roundTrip :
    (∀ front name back out : Bytes, packName front name = .ok out →
      front <+: out ∧ parseName (out ++ back) front.length = .ok (readBack name, out.length)) ∧
    (∀ name : Bytes, (∃ out, packName [] name = .ok out) ↔
      trimSuffix name (ascii ".") = [] ∨
        (trimSuffix name (ascii ".")).length ≤ 253 ∧
          ∀ label ∈ labels dot (trimSuffix name (ascii ".")),
            1 ≤ label.length ∧ label.length ≤ 63) ∧
    ∀ name : Bytes, validateName name = .ok () → ∀ front back : Bytes,
      ∃ out, packName front name = .ok out ∧
        parseName (out ++ back) front.length = .ok (name, out.length) := by
  refine ⟨fun front name back out packed => parseName_of_packName packed back,
    fun name => exists_packName_iff, fun name valid front back => ?_⟩
  obtain ⟨nonempty, short, -⟩ := validateName_eq_ok_iff.mp valid
  have whole := trimSuffix_of_valid valid
  have packable : ∃ out, packName [] name = .ok out := by
    rw [exists_packName_iff, whole]
    exact .inr ⟨short, labelsFit_of_valid valid⟩
  obtain ⟨out, packed⟩ := packable
  obtain ⟨fit, size, -⟩ := packName_eq_ok_iff.mp packed
  have behind : packName front name = .ok (front ++ (encodeLabels (textLabels name) ++ [0])) :=
    packName_eq_ok_iff.mpr ⟨fit, size, rfl⟩
  refine ⟨_, behind, ?_⟩
  have same : readBack name = name := by rw [readBack, whole, if_neg nonempty]
  rw [(parseName_of_packName behind back).2, same]

end ShardDNS.DNS

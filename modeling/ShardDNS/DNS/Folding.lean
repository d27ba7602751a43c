import ShardDNS.DNS.Handler
import ShardDNS.Go.Letters

/-!
# Names up to case

On the wire two names are the same if their labels are, up to the case of the letters A to Z.
The handler looks a name up under the lower-cased text of the question. Lower-casing works on
code points, not on bytes: it moves the letters of all alphabets, and in a text that is not
ASCII it replaces every invalid byte by U+FFFD.

Names that are the same by the rule of the wire are looked up under the same name. The
converse fails for names that agree letter by letter up to ASCII case and confusable letters,
and have a confusable pair (`Confused`); for all others the two rules agree
(`lookedUpAlike_iff`). The letters É and é are told apart on the wire and not by the handler
(`accented_lookedUpAlike`).
-/

set_option autoImplicit false

namespace ShardDNS.DNS

open Go LabelTree

/-! ## The two rules -/

/-- The labels are equal once A to Z are folded to a to z. -/
def SameFolded (first second : Bytes) : Prop := foldASCII first = foldASCII second

instance (first second : Bytes) : Decidable (SameFolded first second) :=
  inferInstanceAs (Decidable (_ = _))

/-- The labels agree letter by letter, up to ASCII case and confusable letters. -/
def Alike (first second : Bytes) : Prop :=
  List.Forall₂ (fun a b => Letter.fold a = Letter.fold b ∨ Confusable a b) (letters first)
    (letters second)

/-- The labels agree letter by letter up to ASCII case and confusable letters, and some letter
is confused with another. -/
structure Confused (first second : List Bytes) : Prop where
  alike : List.Forall₂ Alike first second
  confusable : ∃ pair ∈ (first.flatMap letters).zip (second.flatMap letters),
    Confusable pair.1 pair.2

theorem alike_iff {first second : Bytes} : Alike first second ↔ toLower first = toLower second :=
  toLower_eq_iff.symm

/-- Labels in which no letter is confused are the same up to ASCII case. -/
theorem sameFolded_iff {first second : List Bytes} (alike : List.Forall₂ Alike first second) :
    List.Forall₂ SameFolded first second ↔
      ¬ ∃ pair ∈ (first.flatMap letters).zip (second.flatMap letters),
        Confusable pair.1 pair.2 := by
  induction alike with
  | nil => simp
  | @cons label label' first second here _ ih =>
      have lengths : (letters label).length = (letters label').length := here.length_eq
      rw [List.forall₂_cons, ih, List.flatMap_cons, List.flatMap_cons, List.zip_append lengths]
      simp only [List.mem_append, or_and_right, exists_or, not_or]
      refine and_congr_left fun _ => ?_
      -- within a label the letters agree, so they fold alike unless they are confusable
      rw [SameFolded, foldASCII_eq_iff, List.forall₂_iff_zip, and_iff_right lengths]
      constructor
      · rintro folded ⟨⟨a, b⟩, member, confusable⟩
        exact confusable.fold_ne (folded member)
      · intro clear a b member
        rcases (List.forall₂_iff_zip.mp here).2 member with same | confusable
        · exact same
        · exact absurd ⟨(a, b), member, confusable⟩ clear

/-- What the wire does not tell apart, the handler does not either. -/
theorem SameFolded.alike {first second : Bytes} (same : SameFolded first second) :
    Alike first second := by
  rw [alike_iff, ← toLower_foldASCII first, same, toLower_foldASCII]

/-! ## Lookup names and labels -/

theorem trimSuffix_eq_intercalate (name : Bytes) :
    trimSuffix name (ascii ".") = [dot].intercalate (textLabels name) := by
  unfold textLabels
  split
  · rename_i root
    rw [root]
    rfl
  · rw [labels, List.intercalate_splitOn]

/-- Labels joined by dots can be told from one another. -/
theorem eq_of_intercalate_eq {first second : List Bytes}
    (clean : ∀ label ∈ first, label ≠ [] ∧ dot ∉ label)
    (clean' : ∀ label ∈ second, label ≠ [] ∧ dot ∉ label)
    (same : [dot].intercalate first = [dot].intercalate second) : first = second := by
  have empty : ∀ names : List Bytes, (∀ label ∈ names, label ≠ [] ∧ dot ∉ label) →
      [dot].intercalate names = [] → names = [] := by
    intro names clean joined
    cases names with
    | nil => rfl
    | cons label names =>
        rw [intercalate_dot, List.append_eq_nil_iff] at joined
        exact absurd joined.1 (clean label List.mem_cons_self).1
  by_cases root : first = []
  · subst root
    exact (empty second clean' same.symm).symm
  · have below : second ≠ [] := by
      rintro rfl
      exact root (empty first clean same)
    have split := List.splitOn_intercalate dot (fun label member => (clean label member).2) root
    have split' := List.splitOn_intercalate dot (fun label member => (clean' label member).2) below
    rw [← split, same, split']

/-- Names are looked up alike exactly if their labels agree letter by letter. -/
theorem questionName_eq_iff {first second : List Bytes} (fit : LabelsFit first)
    (fit' : LabelsFit second) (dotless : ∀ label ∈ first, dot ∉ label)
    (dotless' : ∀ label ∈ second, dot ∉ label) :
    questionName (nameText first) = questionName (nameText second) ↔
      List.Forall₂ Alike first second := by
  have lowered : ∀ names : List Bytes, LabelsFit names → (∀ label ∈ names, dot ∉ label) →
      questionName (nameText names) = [dot].intercalate (names.map toLower) ∧
        ∀ label ∈ names.map toLower, label ≠ [] ∧ dot ∉ label := by
    intro names fit dotless
    constructor
    · rw [questionName, trimSuffix_eq_intercalate, textLabels_nameText fit dotless,
        toLower_intercalate]
    · intro label member
      obtain ⟨source, inside, rfl⟩ := List.mem_map.mp member
      refine ⟨fun empty => ?_, dot_not_mem_toLower (dotless source inside)⟩
      rw [toLower_eq_nil_iff] at empty
      exact absurd (fit source inside).1 (by simp [empty])
  obtain ⟨text, clean⟩ := lowered first fit dotless
  obtain ⟨text', clean'⟩ := lowered second fit' dotless'
  rw [text, text']
  constructor
  · intro same
    have pairs := eq_of_intercalate_eq clean clean' same
    rw [← List.forall₂_eq_eq_eq, List.forall₂_map_left_iff, List.forall₂_map_right_iff] at pairs
    exact pairs.imp fun _ _ => alike_iff.mpr
  · intro pairs
    have same : first.map toLower = second.map toLower := by
      rw [← List.forall₂_eq_eq_eq, List.forall₂_map_left_iff, List.forall₂_map_right_iff]
      exact pairs.imp fun _ _ => alike_iff.mp
    rw [same]

/-- **Where the handler goes by the case rule of the wire.** Two names that `parseName` has
read, with labels that hold no dot, are looked up under one name exactly when their labels are
equal up to ASCII case, unless their labels are confused. -/
theorem lookedUpAlike_iff {buf buf' name name' : Bytes} {off off' stop stop' hops hops' : Nat}
    {first second : List Bytes} (read : parseName buf off = .ok (name, stop))
    (read' : parseName buf' off' = .ok (name', stop')) (names : NameAt buf off first stop hops)
    (names' : NameAt buf' off' second stop' hops') (dotless : ∀ label ∈ first, dot ∉ label)
    (dotless' : ∀ label ∈ second, dot ∉ label) :
    (questionName name = questionName name' ↔ List.Forall₂ SameFolded first second) ↔
      ¬ Confused first second := by
  have text : ∀ {buf name : Bytes} {off stop hops : Nat} {labels : List Bytes},
      parseName buf off = .ok (name, stop) → NameAt buf off labels stop hops →
        name = nameText labels ∧ LabelsFit labels := by
    intro buf name off stop hops labels read names
    obtain ⟨labels', hops', names', -, -, rfl⟩ := parseName_eq_ok_iff.mp read
    obtain ⟨rfl, -, -⟩ := names.unique names'
    exact ⟨rfl, fun label member => names.label_length label member⟩
  obtain ⟨rfl, fit⟩ := text read names
  obtain ⟨rfl, fit'⟩ := text read' names'
  rw [questionName_eq_iff fit fit' dotless dotless']
  constructor
  · rintro agree ⟨alike, confusable⟩
    exact (sameFolded_iff alike).mp (agree.mp alike) confusable
  · intro clear
    refine ⟨fun alike => (sameFolded_iff alike).mpr fun confusable => clear ⟨alike, confusable⟩, ?_⟩
    exact fun folded => folded.imp fun _ _ => SameFolded.alike

/-- The letters É and é are two names on the wire, and one for the handler. -/
theorem accented_lookedUpAlike :
    parseName [2, 0xC3, 0x89, 0] 0 = .ok ([0xC3, 0x89], 4) ∧
      parseName [2, 0xC3, 0xA9, 0] 0 = .ok ([0xC3, 0xA9], 4) ∧
      dot ∉ ([0xC3, 0x89] : Bytes) ∧ dot ∉ ([0xC3, 0xA9] : Bytes) ∧
      ¬ (questionName [0xC3, 0x89] = questionName [0xC3, 0xA9] ↔
        List.Forall₂ SameFolded [[0xC3, 0x89]] [[0xC3, 0xA9]]) := by
  decide +kernel

/-- The letters A and a are one name for both. -/
theorem lookedUpAlike_iff_letterA :
    (questionName [65] = questionName [97] ↔ List.Forall₂ SameFolded [[65]] [[97]]) ∧
      ¬ Confused [[65]] [[97]] := by
  have names : ∀ c : UInt8, NameAt [1, c, 0] 0 [[c]] 3 0 := by
    intro c
    exact .label (b := 1) rfl (by decide) (by decide) (by simp) (.root rfl)
  have agree : questionName [65] = questionName [97] ↔ List.Forall₂ SameFolded [[65]] [[97]] := by
    decide
  exact ⟨agree, (lookedUpAlike_iff (by decide) (by decide) (names 65) (names 97) (by decide)
    (by decide)).mp agree⟩

end ShardDNS.DNS

import Mathlib.Data.List.Basic

/-!
# Names as paths in a tree of labels

A name is a word over an alphabet with a distinguished separator. Cutting a
name after one of its separators gives an ancestor, so the names form a tree
whose edges remove the leading label. `ancestors` lists the proper ancestors
of a name from the nearest to the farthest; a scan that cuts at the first
separator again and again visits exactly this list
(`ancestors_eq_cut`).

The ancestors of a name form a chain: any two of them are comparable
(`ancestors_comparable`), and the list continues, after each of its members,
with that member's own ancestors (`exists_ancestors_eq_append`).

Writing the labels of a name in reverse order turns the subtree below a name
into an interval of the lexicographic order. The reversed names that lie
between `n` followed by the separator and `n` followed by the next letter are
exactly the reversed proper descendants of `n` (`reverseLabels_range_iff`).
-/

set_option autoImplicit false

namespace LabelTree

variable {α : Type*} [DecidableEq α]

/-! ## Ancestors -/

/-- The proper ancestors of a name, nearest first. -/
def ancestors (sep : α) : List α → List (List α)
  | [] => []
  | c :: rest => if c = sep then rest :: ancestors sep rest else ancestors sep rest

variable {sep : α}

@[simp] theorem ancestors_nil : ancestors sep [] = [] := rfl

@[simp] theorem ancestors_cons_sep (rest : List α) :
    ancestors sep (sep :: rest) = rest :: ancestors sep rest := by
  simp [ancestors]

theorem ancestors_cons_of_ne {c : α} (other : c ≠ sep) (rest : List α) :
    ancestors sep (c :: rest) = ancestors sep rest := by
  simp [ancestors, other]

/-- The ancestors of a name with a leading part are the ancestors of that part,
followed by the name under it and the ancestors of that. -/
theorem ancestors_append (front name : List α) :
    ancestors sep (front ++ sep :: name) =
      (ancestors sep front).map (· ++ sep :: name) ++ name :: ancestors sep name := by
  induction front with
  | nil => simp
  | cons c front ih =>
      by_cases same : c = sep
      · subst same
        simp [ih]
      · simp [ancestors_cons_of_ne same, ih]

variable {name ancestor : List α}

/-- A name is an ancestor exactly when it is what follows some separator. -/
theorem mem_ancestors :
    ancestor ∈ ancestors sep name ↔ ∃ front, name = front ++ sep :: ancestor := by
  constructor
  · intro member
    induction name with
    | nil => simp at member
    | cons c rest ih =>
        by_cases same : c = sep
        · subst same
          rw [ancestors_cons_sep, List.mem_cons] at member
          rcases member with rfl | member
          · exact ⟨[], rfl⟩
          · obtain ⟨front, rfl⟩ := ih member
            exact ⟨c :: front, rfl⟩
        · rw [ancestors_cons_of_ne same] at member
          obtain ⟨front, rfl⟩ := ih member
          exact ⟨c :: front, rfl⟩
  · rintro ⟨front, rfl⟩
    simp [ancestors_append]

/-- Text before the first separator makes no ancestor. -/
theorem ancestors_append_of_not_mem {front : List α} (plain : sep ∉ front) (name : List α) :
    ancestors sep (front ++ name) = ancestors sep name := by
  induction front with
  | nil => rfl
  | cons c front ih =>
      rw [List.mem_cons, not_or] at plain
      rw [List.cons_append, ancestors_cons_of_ne (Ne.symm plain.1), ih plain.2]

theorem length_lt_of_mem_ancestors (member : ancestor ∈ ancestors sep name) :
    ancestor.length < name.length := by
  obtain ⟨front, rfl⟩ := mem_ancestors.mp member
  simp only [List.length_append, List.length_cons]
  omega

theorem length_lt_of_ancestors_eq {parent : List α} {rest : List (List α)}
    (first : ancestors sep name = parent :: rest) : parent.length < name.length :=
  length_lt_of_mem_ancestors (by rw [first]; exact List.mem_cons_self)

theorem not_mem_ancestors_self (name : List α) : name ∉ ancestors sep name := fun member =>
  Nat.lt_irrefl _ (length_lt_of_mem_ancestors member)

theorem ancestors_trans {middle top : List α} (upper : top ∈ ancestors sep middle)
    (lower : middle ∈ ancestors sep name) : top ∈ ancestors sep name := by
  obtain ⟨front, rfl⟩ := mem_ancestors.mp lower
  rw [ancestors_append, List.mem_append, List.mem_cons]
  exact .inr (.inr upper)

theorem ancestors_asymm (member : ancestor ∈ ancestors sep name) :
    name ∉ ancestors sep ancestor := fun back =>
  not_mem_ancestors_self name (ancestors_trans back member)

/-- After one of its members, the list of ancestors goes on with the ancestors
of that member. -/
theorem exists_ancestors_eq_append (member : ancestor ∈ ancestors sep name) :
    ∃ below, ancestors sep name = below ++ ancestor :: ancestors sep ancestor := by
  obtain ⟨front, rfl⟩ := mem_ancestors.mp member
  exact ⟨_, ancestors_append front ancestor⟩

/-- Any split of the list of ancestors is the one at the ancestor it names. -/
theorem ancestors_tail_eq {below above : List (List α)}
    (split : ancestors sep name = below ++ ancestor :: above) : above = ancestors sep ancestor := by
  induction name generalizing below with
  | nil => simp at split
  | cons c rest ih =>
      by_cases same : c = sep
      · subst same
        rw [ancestors_cons_sep] at split
        cases below with
        | nil =>
            simp only [List.nil_append, List.cons.injEq] at split
            rw [← split.1, split.2]
        | cons _ below =>
            simp only [List.cons_append, List.cons.injEq] at split
            exact ih split.2
      · rw [ancestors_cons_of_ne same] at split
        exact ih split

/-- Members of the list that come before an ancestor are below it. -/
theorem mem_ancestors_of_split {lower : List α} {below above : List (List α)}
    (split : ancestors sep name = below ++ ancestor :: above) (member : lower ∈ below) :
    ancestor ∈ ancestors sep lower := by
  obtain ⟨before, after, rfl⟩ := List.append_of_mem member
  have split' : ancestors sep name = before ++ lower :: (after ++ ancestor :: above) := by
    simpa using split
  have tail : after ++ ancestor :: above = ancestors sep lower := ancestors_tail_eq split'
  rw [← tail]
  simp

/-- Any two names on the path from a name to the root are comparable. -/
theorem ancestors_comparable {first second : List α}
    (firstMember : first ∈ name :: ancestors sep name)
    (secondMember : second ∈ name :: ancestors sep name) :
    first = second ∨ first ∈ ancestors sep second ∨ second ∈ ancestors sep first := by
  rcases List.mem_cons.mp firstMember with rfl | firstMember
  · rcases List.mem_cons.mp secondMember with rfl | secondMember
    · exact .inl rfl
    · exact .inr (.inr secondMember)
  · rcases List.mem_cons.mp secondMember with rfl | secondMember
    · exact .inr (.inl firstMember)
    · obtain ⟨below, split⟩ := exists_ancestors_eq_append firstMember
      rw [split, List.mem_append, List.mem_cons] at secondMember
      rcases secondMember with lower | rfl | upper
      · exact .inr (.inl (mem_ancestors_of_split split lower))
      · exact .inl rfl
      · exact .inr (.inr upper)

/-- Ancestors of equal length are equal. -/
theorem ancestors_eq_of_length_eq {first second : List α}
    (firstMember : first ∈ name :: ancestors sep name)
    (secondMember : second ∈ name :: ancestors sep name) (same : first.length = second.length) :
    first = second := by
  rcases ancestors_comparable firstMember secondMember with equal | upper | lower
  · exact equal
  · exact absurd same (Nat.ne_of_lt (length_lt_of_mem_ancestors upper))
  · exact absurd same.symm (Nat.ne_of_lt (length_lt_of_mem_ancestors lower))

/-- **One pass of the scan.** The list of ancestors is empty when the name has
no separator, and otherwise starts with what follows the first one. -/
theorem ancestors_eq_cut (name : List α) :
    ancestors sep name =
      match name.findIdx? (· = sep) with
      | none => []
      | some i => name.drop (i + 1) :: ancestors sep (name.drop (i + 1)) := by
  induction name with
  | nil => rfl
  | cons c rest ih =>
      by_cases same : c = sep
      · subst same
        simp [List.findIdx?_cons]
      · rw [ancestors_cons_of_ne same, ih, List.findIdx?_cons]
        simp only [same, decide_false, Bool.false_eq_true, if_false]
        cases rest.findIdx? (· = sep) with
        | none => rfl
        | some i => rfl

/-! ## Labels -/

/-- The labels of a name; the empty name has one empty label. -/
def labels (sep : α) (name : List α) : List (List α) := name.splitOn sep

omit [DecidableEq α] in
/-- Joining two nonempty lists of labels joins the two names. -/
theorem intercalate_append_append {first second : List (List α)} (left : first ≠ [])
    (right : second ≠ []) :
    [sep].intercalate (first ++ second) =
      [sep].intercalate first ++ sep :: [sep].intercalate second := by
  induction first with
  | nil => exact absurd rfl left
  | cons head tail ih =>
      cases tail with
      | nil => simp [List.intercalate_cons_of_ne_nil right]
      | cons next tail =>
          have step := ih (by simp)
          have outer : (next :: tail) ++ second ≠ [] := by simp
          have inner : next :: tail ≠ [] := by simp
          rw [List.cons_append, List.intercalate_cons_of_ne_nil outer, step,
            List.intercalate_cons_of_ne_nil inner]
          simp only [List.append_assoc]

/-- A name is an ancestor exactly when its labels are a proper end part of the
labels of the name. -/
theorem mem_ancestors_iff_labels :
    ancestor ∈ ancestors sep name ↔
      ∃ front, front ≠ [] ∧ labels sep name = front ++ labels sep ancestor := by
  rw [mem_ancestors]
  constructor
  · rintro ⟨front, rfl⟩
    exact ⟨labels sep front, List.splitOn_ne_nil _ _, List.splitOn_append_cons_self _ _⟩
  · rintro ⟨front, nonempty, split⟩
    refine ⟨[sep].intercalate front, ?_⟩
    have joined := congrArg ([sep].intercalate) split
    rw [labels, labels, List.intercalate_splitOn] at joined
    rw [joined, intercalate_append_append nonempty (List.splitOn_ne_nil _ _),
      List.intercalate_splitOn]

/-! ## Reversed names -/

/-- The labels of a name written in reverse order. -/
def reverseLabels (sep : α) (name : List α) : List α :=
  [sep].intercalate (labels sep name).reverse

theorem not_mem_of_mem_labels {label : List α} (member : label ∈ labels sep name) :
    sep ∉ label := by
  induction name generalizing label with
  | nil =>
      have : label = [] := by simpa [labels] using member
      simp [this]
  | cons c rest ih =>
      rw [labels, List.splitOn_cons_eq_if_modifyHead] at member
      split at member
      · rcases List.mem_cons.mp member with rfl | member
        · simp
        · exact ih member
      · rename_i other
        obtain ⟨head, tail, shape⟩ := List.exists_cons_of_ne_nil (List.splitOn_ne_nil sep rest)
        rw [shape, List.modifyHead_cons, List.mem_cons] at member
        have inner : ∀ l ∈ head :: tail, sep ∉ l := fun l mem =>
          ih (by rw [labels, shape]; exact mem)
        rcases member with rfl | member
        · have clean := inner head (by simp)
          intro bad
          rcases List.mem_cons.mp bad with equal | bad
          · exact other (by simp [equal])
          · exact clean bad
        · exact inner label (by simp [member])

/-- Each letter of a name but the separator is in a label. -/
theorem exists_mem_labels {c : α} (member : c ∈ name) (other : c ≠ sep) :
    ∃ label ∈ labels sep name, c ∈ label := by
  induction name with
  | nil => cases member
  | cons b rest ih =>
      obtain ⟨head, tail, shape⟩ := List.exists_cons_of_ne_nil (List.splitOn_ne_nil sep rest)
      rw [labels, List.splitOn_cons_eq_if_modifyHead]
      split
      · rename_i separates
        have differs : c ≠ b := by
          rintro rfl
          exact other (by simpa using separates)
        obtain ⟨label, found, occurs⟩ := ih ((List.mem_cons.mp member).resolve_left differs)
        exact ⟨label, List.mem_cons_of_mem _ found, occurs⟩
      · rw [shape, List.modifyHead_cons]
        rcases List.mem_cons.mp member with rfl | later
        · exact ⟨_, List.mem_cons_self, List.mem_cons_self⟩
        · obtain ⟨label, found, occurs⟩ := ih later
          rw [labels, shape] at found
          rcases List.mem_cons.mp found with rfl | found
          · exact ⟨_, List.mem_cons_self, List.mem_cons_of_mem _ occurs⟩
          · exact ⟨label, List.mem_cons_of_mem _ found, occurs⟩

theorem labels_reverseLabels (name : List α) :
    labels sep (reverseLabels sep name) = (labels sep name).reverse := by
  refine List.splitOn_intercalate sep (fun label member => ?_) (by simp [labels])
  exact not_mem_of_mem_labels (List.mem_reverse.mp member)

/-- Reversed descendants are the reversed names that continue the reversed name
after a separator. -/
theorem reverseLabels_prefix_iff :
    reverseLabels sep ancestor ++ [sep] <+: reverseLabels sep name ↔
      ancestor ∈ ancestors sep name := by
  rw [mem_ancestors_iff_labels]
  constructor
  · rintro ⟨rest, equal⟩
    have split := congrArg (labels sep) equal
    rw [List.append_assoc, List.singleton_append] at split
    have parts : labels sep (reverseLabels sep ancestor ++ sep :: rest) =
        labels sep (reverseLabels sep ancestor) ++ labels sep rest :=
      List.splitOn_append_cons_self _ _
    rw [parts, labels_reverseLabels, labels_reverseLabels] at split
    refine ⟨(labels sep rest).reverse, by simp [labels], ?_⟩
    have back := congrArg List.reverse split
    simpa using back.symm
  · rintro ⟨front, nonempty, split⟩
    refine ⟨[sep].intercalate front.reverse, ?_⟩
    rw [reverseLabels, reverseLabels, split, List.reverse_append,
      intercalate_append_append (by simp [labels]) (by simpa using nonempty)]
    simp

/-! ## The order of reversed names -/

section Order

variable {β : Type*} [LT β] [Std.Irrefl fun x y : β => x < y]

/-- The words between `front` followed by a letter and `front` followed by the
next letter are the words that start with `front` and the letter. -/
theorem prefix_iff_range {letter next : β} (adjacent : ∀ x, (¬ x < letter ∧ x < next) ↔ x = letter)
    (front word : List β) :
    front ++ [letter] <+: word ↔ ¬ word < front ++ [letter] ∧ word < front ++ [next] := by
  induction front generalizing word with
  | nil =>
      cases word with
      | nil => simp
      | cons c rest =>
          have short : ¬ rest < ([] : List β) := List.not_lt_nil rest
          simp only [List.nil_append, List.cons_lt_cons_iff, short, and_false, or_false, adjacent,
            List.cons_prefix_cons, List.nil_prefix, and_true]
          exact eq_comm
  | cons d front ih =>
      cases word with
      | nil => simp
      | cons c rest =>
          rw [List.cons_append, List.cons_append, List.cons_prefix_cons, ih,
            List.cons_lt_cons_iff, List.cons_lt_cons_iff]
          constructor
          · rintro ⟨rfl, lower, upper⟩
            refine ⟨?_, .inr ⟨rfl, upper⟩⟩
            rintro (less | ⟨_, less⟩)
            · exact Std.Irrefl.irrefl _ less
            · exact lower less
          · rintro ⟨lower, less | ⟨rfl, upper⟩⟩
            · exact absurd (.inl less) lower
            · exact ⟨rfl, fun less => lower (.inr ⟨rfl, less⟩), upper⟩

/-- **The descendants of a name form an interval of the reversed names.** -/
theorem reverseLabels_range_iff [DecidableEq β] {sep next : β}
    (adjacent : ∀ x, (¬ x < sep ∧ x < next) ↔ x = sep) (name ancestor : List β) :
    (¬ reverseLabels sep name < reverseLabels sep ancestor ++ [sep] ∧
        reverseLabels sep name < reverseLabels sep ancestor ++ [next]) ↔
      ancestor ∈ ancestors sep name := by
  rw [← prefix_iff_range adjacent, reverseLabels_prefix_iff]

end Order

end LabelTree

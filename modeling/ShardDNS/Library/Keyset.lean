import Mathlib.Data.Finset.Card
import Mathlib.Data.List.Sort

/-!
# Pages of a table by key

The rows of a table have different keys in a linear order. A page holds the first rows after a
key, at most so many of them, and says whether there are more. It is asked for with one row
over its size, and whether that row is there tells. The next page starts after the last row
kept, not after the one that was over.

The table may change between the pages in any way. Each page is complete from the key it starts
after to the last of its rows, or to the end of the table (`covers_page`). A walk through the
pages therefore lists keys in increasing order (`Walk.increasing`), and none is missed that is
in the table whenever a page is asked for (`Walk.complete`). It ends if only finitely many keys
are ever in the table (`exists_walk`).
-/

set_option autoImplicit false

namespace Keyset

variable {α κ : Type*} [LinearOrder κ] (key : α → κ)

/-! ## Pages -/

/-- The rows after a key, in the order of their keys. -/
def rowsAfter (rows : List α) (start : κ) : List α :=
  (rows.filter fun a => start < key a).insertionSort fun a b => key a ≤ key b

/-- A page of the rows after a key, with its last row if there are more after it. -/
def page (rows : List α) (start : κ) (limit : Nat) : List α × Option α :=
  let found := (rowsAfter key rows start).take (limit + 1)
  if limit < found.length then (found.take limit, found[limit - 1]?) else (found, none)

variable {key}

theorem mem_rowsAfter {rows : List α} {start : κ} {a : α} :
    a ∈ rowsAfter key rows start ↔ a ∈ rows ∧ start < key a := by
  rw [rowsAfter, List.mem_insertionSort, List.mem_filter, decide_eq_true_eq]

theorem pairwise_rowsAfter {rows : List α} (distinct : (rows.map key).Nodup) (start : κ) :
    (rowsAfter key rows start).Pairwise fun a b => key a < key b := by
  have sorted : (rowsAfter key rows start).Pairwise fun a b => key a ≤ key b :=
    List.pairwise_insertionSort _ _
  have order := List.perm_insertionSort (fun a b => key a ≤ key b)
    (rows.filter fun a => start < key a)
  have apart : ((rowsAfter key rows start).map key).Nodup :=
    (order.map key).nodup_iff.mpr (distinct.sublist (List.filter_sublist.map key))
  exact (sorted.and (List.pairwise_map.mp apart)).imp fun both => lt_of_le_of_ne both.1 both.2

/-- A page lists rows after its start in the order of their keys, up to its last row, or all of
them. -/
structure Covers (key : α → κ) (rows : List α) (start : κ) (listed : List α) (last : Option α) :
    Prop where
  increasing : listed.Pairwise fun a b => key a < key b
  after : ∀ a ∈ listed, a ∈ rows ∧ start < key a
  greatest : ∀ b ∈ last, b ∈ listed ∧ ∀ a ∈ listed, key a ≤ key b
  complete : ∀ a ∈ rows, start < key a → (∀ b ∈ last, key a ≤ key b) → a ∈ listed

/-- The first of a list in order are all up to the last of them. -/
theorem covers_take {rows found : List α} {start : κ}
    (sorted : found.Pairwise fun a b => key a < key b)
    (members : ∀ a, a ∈ found ↔ a ∈ rows ∧ start < key a) {n : Nat} (inside : n < found.length) :
    Covers key rows start (found.take (n + 1)) (some found[n]) := by
  have cut : found.take (n + 1) = found.take n ++ [found[n]] :=
    (List.take_append_getElem inside).symm
  have kept : found[n] ∈ found.take (n + 1) := by
    rw [cut]
    exact List.mem_append_right _ (List.mem_singleton.mpr rfl)
  have front := sorted.sublist (List.take_sublist (n + 1) found)
  have whole := sorted
  rw [← List.take_append_drop (n + 1) found] at whole
  refine ⟨front, fun a member => (members a).mp (List.mem_of_mem_take member),
    ?_, fun a row after upTo => ?_⟩
  · rintro b ⟨⟩
    refine ⟨kept, fun a member => ?_⟩
    rw [cut] at member front
    rcases List.mem_append.mp member with earlier | here
    · exact le_of_lt ((List.pairwise_append.mp front).2.2 a earlier _ (List.mem_singleton.mpr rfl))
    · rw [List.mem_singleton.mp here]
  · -- a row behind the page has a key behind its last
    have present := (members a).mpr ⟨row, after⟩
    rw [← List.take_append_drop (n + 1) found] at present
    rcases List.mem_append.mp present with listed | behind
    · exact listed
    · have later := (List.pairwise_append.mp whole).2.2 found[n] kept a behind
      exact absurd (upTo _ rfl) (not_le_of_gt later)

/-- **A page covers the rows up to its last.** -/
theorem covers_page {rows : List α} (distinct : (rows.map key).Nodup) (start : κ) {limit : Nat}
    (positive : 0 < limit) :
    Covers key rows start (page key rows start limit).1 (page key rows start limit).2 := by
  have sorted := pairwise_rowsAfter distinct start
  have members : ∀ a, a ∈ rowsAfter key rows start ↔ a ∈ rows ∧ start < key a :=
    fun a => mem_rowsAfter
  obtain ⟨n, rfl⟩ := Nat.exists_eq_succ_of_ne_zero (Nat.ne_of_gt positive)
  unfold page
  generalize rowsAfter key rows start = found at sorted members
  dsimp only
  split
  · rename_i longer
    rw [List.length_take] at longer
    have inside : n < found.length := by omega
    have first : (found.take (n + 1 + 1)).take (n + 1) = found.take (n + 1) := by
      rw [List.take_take, Nat.min_eq_left (Nat.le_succ _)]
    have last : (found.take (n + 1 + 1))[n + 1 - 1]? = some found[n] := by
      rw [List.getElem?_take_of_lt (by omega), Nat.add_sub_cancel, List.getElem?_eq_getElem inside]
    rw [Nat.succ_eq_add_one, first, last]
    exact covers_take sorted members inside
  · rename_i fits
    have whole : found.take (n + 1 + 1) = found := by
      rw [List.length_take] at fits
      exact List.take_of_length_le (by omega)
    rw [Nat.succ_eq_add_one, whole]
    refine ⟨sorted, fun a => (members a).mp, by simp, fun a row after _ => ?_⟩
    exact (members a).mpr ⟨row, after⟩

/-! ## Walks -/

/-- A page is asked for: the rows at the time, and the size of the page. -/
structure Visit (α : Type*) where
  rows : List α
  limit : Nat

variable (key) in
/-- Pages one after the other, each after the last row of the one before, until there are no
more rows. -/
inductive Walk : κ → List (Visit α) → List α → Prop where
  | last {start : κ} {v : Visit α} (ends : (page key v.rows start v.limit).2 = none) :
      Walk start [v] (page key v.rows start v.limit).1
  | more {start : κ} {v : Visit α} {b : α} {visits : List (Visit α)} {listed : List α}
      (next : (page key v.rows start v.limit).2 = some b) (rest : Walk (key b) visits listed) :
      Walk start (v :: visits) ((page key v.rows start v.limit).1 ++ listed)

/-- The keys of a table are different, and a page holds at least one row. -/
def Visit.Sound (key : α → κ) (v : Visit α) : Prop := (v.rows.map key).Nodup ∧ 0 < v.limit

variable {start : κ} {visits : List (Visit α)} {listed : List α}

/-- Every row listed comes after the start, and was in the table at one of the times. -/
theorem Walk.later (walk : Walk key start visits listed) (sound : ∀ v ∈ visits, v.Sound key) :
    ∀ a ∈ listed, start < key a ∧ ∃ v ∈ visits, a ∈ v.rows := by
  induction walk with
  | @last start v ends =>
      intro a member
      obtain ⟨distinct, positive⟩ := sound v List.mem_cons_self
      obtain ⟨row, after⟩ := (covers_page distinct start positive).after a member
      exact ⟨after, v, List.mem_cons_self, row⟩
  | @more start v b visits listed next rest ih =>
      intro a member
      obtain ⟨distinct, positive⟩ := sound v List.mem_cons_self
      have covers := covers_page distinct start positive
      rcases List.mem_append.mp member with here | later
      · obtain ⟨row, after⟩ := covers.after a here
        exact ⟨after, v, List.mem_cons_self, row⟩
      · obtain ⟨after, w, inside, row⟩ :=
          ih (fun w inside => sound w (List.mem_cons_of_mem _ inside)) a later
        have first := (covers.after b (covers.greatest b next).1).2
        exact ⟨lt_trans first after, w, List.mem_cons_of_mem _ inside, row⟩

/-- **A walk lists keys in increasing order**, so none twice. -/
theorem Walk.increasing (walk : Walk key start visits listed) (sound : ∀ v ∈ visits, v.Sound key) :
    listed.Pairwise fun a b => key a < key b := by
  induction walk with
  | @last start v ends =>
      obtain ⟨distinct, positive⟩ := sound v List.mem_cons_self
      exact (covers_page distinct start positive).increasing
  | @more start v b visits listed next rest ih =>
      obtain ⟨distinct, positive⟩ := sound v List.mem_cons_self
      have covers := covers_page distinct start positive
      have others : ∀ w ∈ visits, w.Sound key := fun w inside =>
        sound w (List.mem_cons_of_mem _ inside)
      refine List.pairwise_append.mpr ⟨covers.increasing, ih others, fun a here c later => ?_⟩
      exact lt_of_le_of_lt ((covers.greatest b next).2 a here) (rest.later others c later).1

/-- **A walk lists every key that is in the table at all its times.** -/
theorem Walk.complete (walk : Walk key start visits listed) (sound : ∀ v ∈ visits, v.Sound key)
    {k : κ} (after : start < k) (present : ∀ v ∈ visits, ∃ a ∈ v.rows, key a = k) :
    ∃ a ∈ listed, key a = k := by
  induction walk with
  | @last start v ends =>
      obtain ⟨distinct, positive⟩ := sound v List.mem_cons_self
      obtain ⟨a, row, rfl⟩ := present v List.mem_cons_self
      refine ⟨a, (covers_page distinct start positive).complete a row after ?_, rfl⟩
      simp [ends]
  | @more start v b visits listed next rest ih =>
      obtain ⟨distinct, positive⟩ := sound v List.mem_cons_self
      have covers := covers_page distinct start positive
      by_cases upTo : k ≤ key b
      · obtain ⟨a, row, rfl⟩ := present v List.mem_cons_self
        refine ⟨a, List.mem_append_left _ (covers.complete a row after ?_), rfl⟩
        intro b' same
        rw [next] at same
        cases same
        exact upTo
      · obtain ⟨a, inside, same⟩ := ih (fun w inside => sound w (List.mem_cons_of_mem _ inside))
          (lt_of_not_ge upTo) fun w inside => present w (List.mem_cons_of_mem _ inside)
        exact ⟨a, List.mem_append_right _ inside, same⟩

/-- **A walk ends where the table does**: at its last time no row comes after all it has
listed. -/
theorem Walk.ended (walk : Walk key start visits listed) (sound : ∀ v ∈ visits, v.Sound key)
    {v : Visit α} (final : visits.getLast? = some v) {a : α} (row : a ∈ v.rows)
    (after : start < key a) :
    ∃ b ∈ listed, key a ≤ key b := by
  induction walk with
  | @last start w ends =>
      cases final
      obtain ⟨distinct, positive⟩ := sound w List.mem_cons_self
      refine ⟨a, (covers_page distinct start positive).complete a row after ?_, le_refl _⟩
      simp [ends]
  | @more start w b visits listed next rest ih =>
      obtain ⟨distinct, positive⟩ := sound w List.mem_cons_self
      have covers := covers_page distinct start positive
      by_cases upTo : key a ≤ key b
      · exact ⟨b, List.mem_append_left _ (covers.greatest b next).1, upTo⟩
      · have later : visits.getLast? = some v := by
          cases visits with
          | nil => cases rest
          | cons w' visits => rwa [List.getLast?_cons_cons] at final
        obtain ⟨c, inside, reaches⟩ :=
          ih (fun w inside => sound w (List.mem_cons_of_mem _ inside)) later
          (lt_of_not_ge upTo)
        exact ⟨c, List.mem_append_right _ inside, reaches⟩

/-- **A walk comes to an end** if only finitely many keys are ever in the table. -/
theorem exists_walk {visit : ℕ → Visit α} (sound : ∀ n, (visit n).Sound key) {keys : Finset κ}
    (among : ∀ n, ∀ a ∈ (visit n).rows, key a ∈ keys) (start : κ) :
    ∃ n listed, Walk key start ((List.range n).map visit) listed := by
  -- each page leaves fewer keys ahead
  induction ahead : (keys.filter (start < ·)).card using Nat.strong_induction_on
    generalizing visit start with
  | _ bound ih =>
      obtain ⟨distinct, positive⟩ := sound 0
      have covers := covers_page distinct start positive
      cases next : (page key (visit 0).rows start (visit 0).limit).2 with
      | none => exact ⟨1, _, .last next⟩
      | some b =>
          obtain ⟨row, after⟩ := covers.after b (covers.greatest b next).1
          have fewer : (keys.filter (key b < ·)).card < bound := by
            rw [← ahead]
            refine Finset.card_lt_card (Finset.ssubset_iff_of_subset ?_ |>.mpr ⟨key b, ?_, ?_⟩)
            · intro k later
              rw [Finset.mem_filter] at later ⊢
              exact ⟨later.1, lt_trans after later.2⟩
            · exact Finset.mem_filter.mpr ⟨among 0 b row, after⟩
            · simp
          obtain ⟨n, listed, rest⟩ :=
            ih _ fewer (fun n => sound (n + 1)) (fun n => among (n + 1)) (key b) rfl
          refine ⟨n + 1, (page key (visit 0).rows start (visit 0).limit).1 ++ listed, ?_⟩
          rw [List.range_succ_eq_map, List.map_cons, List.map_map]
          exact .more next rest

end Keyset

import Mathlib.Data.List.Nodup

/-!
# Go maps

A finite map with the operations of Go's built-in maps: reading, assigning,
`delete`, and deleting what a predicate selects while ranging over the map. The
order of the items stands for one order the runtime may range over them in.
-/

set_option autoImplicit false

namespace Go

/-- A map, as the list of its items with distinct keys. -/
structure Map (K V : Type) where
  items : List (K × V)
  distinct : (items.map Prod.fst).Nodup

namespace Map

variable {K V : Type} [DecidableEq K]

def empty : Map K V := ⟨[], List.nodup_nil⟩

/-- `v, ok := m[k]`. -/
def get (m : Map K V) (k : K) : Option V := (m.items.find? fun item => item.1 = k).map Prod.snd

/-- `len(m)`. -/
def len (m : Map K V) : Nat := m.items.length

/-- The keys, in the order of the items. -/
def keys (m : Map K V) : List K := m.items.map Prod.fst

/-- Keeps the items a predicate selects. -/
def filter (m : Map K V) (keep : K → V → Bool) : Map K V :=
  ⟨m.items.filter fun item => keep item.1 item.2, m.distinct.sublist (List.filter_sublist.map _)⟩

/-- `delete(m, k)`. -/
def delete (m : Map K V) (k : K) : Map K V := m.filter fun k' _ => k' ≠ k

/-- `m[k] = v`. -/
def set (m : Map K V) (k : K) (v : V) : Map K V :=
  ⟨(k, v) :: (m.delete k).items, by
    rw [List.map_cons, List.nodup_cons]
    refine ⟨fun member => ?_, (m.delete k).distinct⟩
    obtain ⟨item, kept, same⟩ := List.mem_map.mp member
    have other := (List.mem_filter.mp kept).2
    simp [same] at other⟩

theorem get_eq_some_iff {m : Map K V} {k : K} {v : V} : m.get k = some v ↔ (k, v) ∈ m.items := by
  rw [get, Option.map_eq_some_iff]
  constructor
  · rintro ⟨item, found, rfl⟩
    have same : item.1 = k := by simpa using List.find?_some found
    rw [← same]
    exact List.mem_of_find?_eq_some found
  · intro member
    cases found : m.items.find? fun item => item.1 = k with
    | none => exact absurd (List.find?_eq_none.mp found _ member) (by simp)
    | some item =>
        have same : item.1 = k := by simpa using List.find?_some found
        have one : item = (k, v) :=
          List.inj_on_of_nodup_map m.distinct (List.mem_of_find?_eq_some found) member same
        exact ⟨item, rfl, by rw [one]⟩

@[simp] theorem get_empty (k : K) : (empty : Map K V).get k = none := rfl

/-- What is left after filtering was there and is selected. -/
theorem get_filter_eq_some_iff {m : Map K V} {keep : K → V → Bool} {k : K} {v : V} :
    (m.filter keep).get k = some v ↔ m.get k = some v ∧ keep k v = true := by
  rw [get_eq_some_iff, get_eq_some_iff, filter, List.mem_filter]

theorem get_delete_eq_some_iff {m : Map K V} {k k' : K} {v : V} :
    (m.delete k).get k' = some v ↔ m.get k' = some v ∧ k' ≠ k := by
  rw [delete, get_filter_eq_some_iff, decide_eq_true_eq]

theorem get_set_eq_some_iff {m : Map K V} {k k' : K} {v v' : V} :
    (m.set k v).get k' = some v' ↔ (k' = k ∧ v' = v) ∨ (k' ≠ k ∧ m.get k' = some v') := by
  rw [get_eq_some_iff, set, List.mem_cons, ← get_eq_some_iff, get_delete_eq_some_iff,
    Prod.mk.injEq, and_comm (a := m.get k' = some v')]

/-! ## Keys and sizes -/

omit [DecidableEq K] in
theorem length_keys (m : Map K V) : m.keys.length = m.len := by
  rw [keys, len, List.length_map]

theorem mem_keys_iff {m : Map K V} {k : K} : k ∈ m.keys ↔ m.get k ≠ none := by
  rw [Option.ne_none_iff_exists', keys, List.mem_map]
  simp only [get_eq_some_iff]
  constructor
  · rintro ⟨⟨k, v⟩, member, rfl⟩
    exact ⟨v, member⟩
  · rintro ⟨v, member⟩
    exact ⟨(k, v), member, rfl⟩

omit [DecidableEq K] in
theorem len_filter_le (m : Map K V) (keep : K → V → Bool) : (m.filter keep).len ≤ m.len :=
  List.length_filter_le _ _

theorem keys_delete (m : Map K V) (k : K) : (m.delete k).keys = m.keys.filter (· ≠ k) := by
  rw [keys, keys, delete, filter, List.filter_map]
  rfl

/-- A key that is there is one item. -/
theorem len_delete_of_get {m : Map K V} {k : K} (there : m.get k ≠ none) :
    (m.delete k).len + 1 = m.len := by
  have member := mem_keys_iff.mpr there
  have positive := List.length_pos_of_mem member
  have erased : m.keys.filter (· ≠ k) = m.keys.erase k := by
    rw [keys, m.distinct.erase_eq_filter]
    refine List.filter_congr fun k' _ => ?_
    rw [Bool.eq_iff_iff, decide_eq_true_eq, bne_iff_ne]
  rw [← length_keys, ← length_keys, keys_delete, erased, List.length_erase_of_mem member]
  exact Nat.sub_add_cancel positive

theorem len_delete_of_get_none {m : Map K V} {k : K} (absent : m.get k = none) :
    (m.delete k).len = m.len := by
  have missing : k ∉ m.keys := fun member => mem_keys_iff.mp member absent
  have whole : m.keys.filter (· ≠ k) = m.keys := by
    refine List.filter_eq_self.mpr fun k' member => ?_
    rw [decide_eq_true_eq]
    rintro rfl
    exact missing member
  rw [← length_keys, ← length_keys, keys_delete, whole]

theorem len_set (m : Map K V) (k : K) (v : V) : (m.set k v).len = (m.delete k).len + 1 := rfl

end Map

end Go

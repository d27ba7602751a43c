import Mathlib.Data.List.Basic

/-!
# Slices of arrays

A slice is a window on an array: where it starts, how long it is, and how far it may grow. What
is appended to it goes into the array behind the window if there is room, over whatever stands
there, and otherwise into a new array with a copy of the window.

So a slice that is appended to reads as it did, followed by what was appended, wherever that
went (`appended_append`). Of the memory there was before, only the rest of its array behind the
window may have changed. Both hold of appending many times (`Appended.trans`), and of starting
again at the window after some appending was given up (`Appended.restart`). A writer that may
fail is compared with a function that may (`Writes`).
-/

set_option autoImplicit false

universe u

namespace Slices

variable {α : Type u}

/-- Arrays, each known by its place. -/
abbrev Heap (α : Type u) := List (List α)

/-- A window on an array. -/
structure Slice where
  array : Nat
  start : Nat
  length : Nat
  capacity : Nat
  deriving DecidableEq, Repr

namespace Slice

/-- The window of no elements at the same start. -/
def empty (s : Slice) : Slice := { s with length := 0 }

/-- The window from some element on, of no elements. -/
def emptyFrom (s : Slice) (n : Nat) : Slice :=
  { s with start := s.start + n, length := 0, capacity := s.capacity - n }

/-- The window of the first elements. -/
def first (s : Slice) (n : Nat) : Slice := { s with length := n }

end Slice

namespace Heap

/-- The elements of an array from some place on, replaced. -/
def overwrite (xs : List α) (i : Nat) (ys : List α) :
    List α := xs.take i ++ ys ++ xs.drop (i + ys.length)

def array (heap : Heap α) (b : Nat) : List α := (heap[b]?).getD []

def read (heap : Heap α) (s : Slice) : List α := ((heap.array s.array).drop s.start).take s.length

/-- Writes into an array. -/
def write (heap : Heap α) (b i : Nat) (ys : List α) : Heap α :=
  heap.modify b fun xs => overwrite xs i ys

/-- A new array with some elements and room for more. -/
def alloc [Inhabited α] (heap : Heap α) (xs : List α) (room : Nat) : Heap α × Slice :=
  (heap ++ [xs ++ List.replicate room default],
    { array := heap.length, start := 0, length := xs.length, capacity := xs.length + room })

/-- `append`, with the room that a new array gets. -/
def append [Inhabited α] (room : Nat → Nat) (heap : Heap α) (s : Slice) (ys : List α) :
    Heap α × Slice :=
  if s.length + ys.length ≤ s.capacity then
    (heap.write s.array (s.start + s.length) ys, s.first (s.length + ys.length))
  else heap.alloc (heap.read s ++ ys) (room (s.length + ys.length))

/-- The slice lies in its array. -/
structure Fits (heap : Heap α) (s : Slice) : Prop where
  known : s.array < heap.length
  filled : s.length ≤ s.capacity
  inside : s.start + s.capacity ≤ (heap.array s.array).length

variable {heap heap₁ heap₂ : Heap α} {s s₁ : Slice} {b i : Nat} {ys : List α}

theorem Fits.empty (fits : heap.Fits s) : heap.Fits s.empty :=
  ⟨fits.known, Nat.zero_le _, fits.inside⟩

/-! ## Arrays -/

theorem length_overwrite {xs : List α} (inside : i + ys.length ≤ xs.length) :
    (overwrite xs i ys).length = xs.length := by
  simp only [overwrite, List.length_append, List.length_take, List.length_drop]
  omega

theorem take_overwrite {xs : List α} {j : Nat} (before : j ≤ i) (inside : i ≤ xs.length) :
    (overwrite xs i ys).take j = xs.take j := by
  rw [overwrite, List.append_assoc, List.take_append_of_le_length (by simp; omega), List.take_take,
    Nat.min_eq_left before]

theorem drop_take_overwrite {xs ys : List α} {i : Nat} (inside : i ≤ xs.length) :
    ((overwrite xs i ys).drop i).take ys.length = ys := by
  have front : (xs.take i).length = i := by simp [inside]
  rw [overwrite, List.append_assoc, List.drop_append_of_le_length (by omega),
    List.drop_of_length_le (by omega), List.nil_append, List.take_left]

theorem drop_overwrite {xs : List α} {j : Nat} (behind : i + ys.length ≤ j)
    (inside : i + ys.length ≤ xs.length) : (overwrite xs i ys).drop j = xs.drop j := by
  have front : (xs.take i ++ ys).length = i + ys.length := by
    rw [List.length_append, List.length_take]
    omega
  rw [overwrite, List.drop_append, List.drop_of_length_le (by omega), List.nil_append, front,
    List.drop_drop]
  congr 1
  omega

@[simp] theorem length_write (heap : Heap α) (b i : Nat) (ys : List α) :
    (heap.write b i ys).length = heap.length := by
  simp [write]

theorem array_write_self (known : b < heap.length) (i : Nat) (ys : List α) :
    (heap.write b i ys).array b = overwrite (heap.array b) i ys := by
  simp [array, write, known]

theorem array_write_of_ne {c : Nat} (other : c ≠ b) (i : Nat) (ys : List α) :
    (heap.write b i ys).array c = heap.array c := by
  simp [array, write, other.symm]

theorem array_append_of_lt {more : Heap α} (known : b < heap.length) :
    Heap.array (heap ++ more) b = heap.array b := by
  simp [array, List.getElem?_append_left known]

@[simp] theorem array_append_length (heap : Heap α) (xs : List α) :
    Heap.array (heap ++ [xs]) heap.length = xs := by
  simp [array]

/-! ## What stays -/

/-- Of the arrays there were, at most one has changed, from some place on, and none its length. -/
structure Keeps (b i : Nat) (heap heap' : Heap α) : Prop where
  grows : heap.length ≤ heap'.length
  others : ∀ c < heap.length, c ≠ b → heap'.array c = heap.array c
  length : (heap'.array b).length = (heap.array b).length
  front : (heap'.array b).take i = (heap.array b).take i

theorem Keeps.refl (b i : Nat) (heap : Heap α) : Keeps b i heap heap :=
  ⟨Nat.le_refl _, fun _ _ _ => rfl, rfl, rfl⟩

theorem Keeps.mono {j : Nat} {heap' : Heap α} (keeps : Keeps b i heap heap') (before : j ≤ i) :
    Keeps b j heap heap' := by
  refine ⟨keeps.grows, keeps.others, keeps.length, ?_⟩
  have cut := congrArg (List.take j) keeps.front
  rwa [List.take_take, List.take_take, Nat.min_eq_left before] at cut

theorem Keeps.trans (first : Keeps b i heap heap₁) (second : Keeps b i heap₁ heap₂) :
    Keeps b i heap heap₂ where
  grows := Nat.le_trans first.grows second.grows
  others c known other :=
    (second.others c (Nat.lt_of_lt_of_le known first.grows) other).trans
      (first.others c known other)
  length := second.length.trans first.length
  front := second.front.trans first.front

/-- Changes of an array that is new keep all that there was. -/
theorem Keeps.of_new {c j : Nat} (first : Keeps b i heap heap₁) (known : b < heap.length)
    (new : heap.length ≤ c) (second : Keeps c j heap₁ heap₂) : Keeps b i heap heap₂ := by
  have same : ∀ d < heap.length, heap₂.array d = heap₁.array d := fun d old =>
    second.others d (Nat.lt_of_lt_of_le old first.grows) (by omega)
  refine ⟨Nat.le_trans first.grows second.grows, fun d old other => ?_, ?_, ?_⟩
  · rw [same d old]
    exact first.others d old other
  · rw [same b known]
    exact first.length
  · rw [same b known]
    exact first.front

/-- A window before the changes reads the same. -/
theorem Keeps.read {b i : Nat} {heap heap' : Heap α} (keeps : Keeps b i heap heap') {s : Slice}
    (known : s.array < heap.length) (before : s.array = b → s.start + s.length ≤ i) :
    heap'.read s = heap.read s := by
  by_cases here : s.array = b
  · have front : (heap'.array s.array).take i = (heap.array s.array).take i := by
      rw [here]
      exact keeps.front
    have cut : ∀ xs : List α, (xs.drop s.start).take s.length =
        ((xs.take i).drop s.start).take s.length := by
      intro xs
      rw [List.drop_take, List.take_take, Nat.min_eq_left]
      have := before here
      omega
    rw [Heap.read, Heap.read, cut, front, ← cut]
  · rw [Heap.read, Heap.read, keeps.others s.array known here]

theorem Keeps.fits {b i : Nat} {heap heap' : Heap α} (keeps : Keeps b i heap heap') {s : Slice}
    (fits : heap.Fits s) : heap'.Fits s := by
  refine ⟨Nat.lt_of_lt_of_le fits.known keeps.grows, fits.filled, ?_⟩
  have inside := fits.inside
  by_cases here : s.array = b
  · rw [here, keeps.length, ← here]
    exact inside
  · rw [keeps.others s.array fits.known here]
    exact inside

theorem keeps_write (known : b < heap.length) (inside : i + ys.length ≤ (heap.array b).length) :
    Keeps b i heap (heap.write b i ys) := by
  have changed := array_write_self known i ys
  refine ⟨Nat.le_of_eq (length_write ..).symm, fun c _ other => array_write_of_ne other _ _, ?_, ?_⟩
  · rw [changed, length_overwrite inside]
  · rw [changed, take_overwrite (Nat.le_refl _) (by omega)]

/-- A window behind what is written reads the same. -/
theorem read_write_of_behind (inside : i + ys.length ≤ (heap.array b).length)
    (known : b < heap.length) (behind : s.array = b → i + ys.length ≤ s.start) :
    (heap.write b i ys).read s = heap.read s := by
  by_cases here : s.array = b
  · rw [read, read, here, array_write_self known, drop_overwrite (behind here) inside]
  · rw [read, read, array_write_of_ne here]

/-- The first elements of a window, replaced. -/
theorem read_write_start (fits : heap.Fits s) (short : ys.length ≤ s.length) :
    (heap.write s.array s.start ys).read s = ys ++ (heap.read s).drop ys.length := by
  have filled := fits.filled
  have inside := fits.inside
  have room : s.start + ys.length ≤ (heap.array s.array).length := by omega
  have split : ∀ xs : List α, (xs.drop s.start).take s.length =
      (xs.drop s.start).take ys.length ++
        (xs.drop (s.start + ys.length)).take (s.length - ys.length) := by
    intro xs
    rw [← List.drop_drop, ← List.take_add, Nat.add_sub_cancel' short]
  rw [read, array_write_self fits.known, split, drop_take_overwrite (by omega),
    drop_overwrite (Nat.le_refl _) room, read, List.drop_take, List.drop_drop]

/-! ## Appending -/

/-- Something was appended to a slice. -/
structure Appended (heap : Heap α) (s : Slice) (ys : List α) (heap' : Heap α) (s' : Slice) :
    Prop where
  reads : heap'.read s' = heap.read s ++ ys
  length : s'.length = s.length + ys.length
  fits : heap'.Fits s'
  place : (s'.array = s.array ∧ s'.start = s.start ∧ s'.capacity = s.capacity) ∨
    heap.length ≤ s'.array
  keeps : Keeps s.array (s.start + s.length) heap heap'

theorem length_read (fits : heap.Fits s) : (heap.read s).length = s.length := by
  have := fits.filled
  have := fits.inside
  simp only [read, List.length_take, List.length_drop]
  omega

theorem appended_nil (fits : heap.Fits s) : Appended heap s [] heap s :=
  ⟨(List.append_nil _).symm, rfl, fits, .inl ⟨rfl, rfl, rfl⟩, .refl _ _ _⟩

theorem Appended.trans {s₂ : Slice} {zs : List α} (fits : heap.Fits s)
    (first : Appended heap s ys heap₁ s₁) (second : Appended heap₁ s₁ zs heap₂ s₂) :
    Appended heap s (ys ++ zs) heap₂ s₂ := by
  have longer := first.length
  refine ⟨?_, ?_, second.fits, ?_, ?_⟩
  · rw [second.reads, first.reads, List.append_assoc]
  · rw [second.length, longer, List.length_append, Nat.add_assoc]
  · rcases second.place with ⟨array, start, capacity⟩ | new
    · rw [array, start, capacity]
      exact first.place
    · exact .inr (Nat.le_trans first.keeps.grows new)
  · rcases first.place with ⟨array, start, -⟩ | new
    · have behind := second.keeps
      rw [array, start] at behind
      exact first.keeps.trans (behind.mono (by omega))
    · exact first.keeps.of_new fits.known new second.keeps

/-- What was appended is given up, and something else appended to the slice as it was. -/
theorem Appended.restart {s₂ : Slice} {zs : List α} (fits : heap.Fits s)
    (first : Appended heap s ys heap₁ s₁) (second : Appended heap₁ s zs heap₂ s₂) :
    Appended heap s zs heap₂ s₂ := by
  refine ⟨?_, second.length, second.fits, ?_, first.keeps.trans second.keeps⟩
  · rw [second.reads, first.keeps.read fits.known fun _ => Nat.le_refl _]
  · exact second.place.imp_right (Nat.le_trans first.keeps.grows)

section Append

variable [Inhabited α] {heap : Heap α} {s : Slice}

theorem keeps_alloc (b i : Nat) (known : b < heap.length) (xs : List α) (room : Nat) :
    Keeps b i heap (heap.alloc xs room).1 := by
  have same : ∀ c < heap.length, (heap.alloc xs room).1.array c = heap.array c :=
    fun c old => array_append_of_lt old
  refine ⟨by simp [alloc], fun c old _ => same c old, ?_, ?_⟩
  · rw [same b known]
  · rw [same b known]

theorem read_alloc (xs : List α) (room : Nat) :
    (heap.alloc xs room).1.read (heap.alloc xs room).2 = xs := by
  simp [alloc, read]

theorem fits_alloc (xs : List α) (room : Nat) :
    (heap.alloc xs room).1.Fits (heap.alloc xs room).2 :=
  ⟨by simp [alloc], by simp [alloc], by simp [alloc]⟩

/-- A new array in place of a slice of no elements. -/
theorem appended_alloc (known : s.array < heap.length) (room : Nat) :
    Appended heap s.empty [] (heap.alloc [] room).1 (heap.alloc [] room).2 := by
  refine ⟨?_, rfl, fits_alloc _ _, .inr (Nat.le_refl _), keeps_alloc _ _ known _ _⟩
  rw [read_alloc]
  simp [Heap.read, Slice.empty]

/-- **What is appended to a slice is read behind what it held.** -/
theorem appended_append (room : Nat → Nat) (fits : heap.Fits s) (ys : List α) :
    Appended heap s ys (heap.append room s ys).1 (heap.append room s ys).2 := by
  have filled := fits.filled
  have inside := fits.inside
  unfold append
  split
  · rename_i fitting
    have spot : s.start + s.length + ys.length ≤ (heap.array s.array).length := by omega
    have changed := array_write_self fits.known (s.start + s.length) ys
    have keeps := keeps_write fits.known spot
    refine ⟨?_, rfl, ⟨?_, fitting, ?_⟩, .inl ⟨rfl, rfl, rfl⟩, keeps⟩
    · -- the window as it was, and the elements written behind it
      have old := keeps.read fits.known fun _ => Nat.le_refl _
      have whole : ∀ xs : List α, (xs.drop s.start).take (s.length + ys.length) =
          (xs.drop s.start).take s.length ++ (xs.drop (s.start + s.length)).take ys.length := by
        intro xs
        rw [List.take_add, List.drop_drop]
      have new := @drop_take_overwrite _ (heap.array s.array) ys (s.start + s.length) (by omega)
      rw [← old]
      simp only [read, Slice.first, whole, changed, new]
    · exact Nat.lt_of_lt_of_eq fits.known (length_write ..).symm
    · exact Nat.le_trans inside (Nat.le_of_eq keeps.length.symm)
  · refine ⟨read_alloc _ _, ?_, fits_alloc _ _, .inr (Nat.le_refl _),
      keeps_alloc _ _ fits.known _ _⟩
    simp [alloc, length_read fits]

/-- A window behind what is appended reads the same. -/
theorem read_append_of_behind (room : Nat → Nat) (fits : heap.Fits s) (ys : List α) {other : Slice}
    (known : other.array < heap.length)
    (behind : other.array = s.array → s.start + s.length + ys.length ≤ other.start) :
    (heap.append room s ys).1.read other = heap.read other := by
  have inside := fits.inside
  unfold append
  split
  · exact read_write_of_behind (by omega) fits.known behind
  · exact (keeps_alloc other.array (other.start + other.length) known _ _).read known fun _ =>
      Nat.le_refl _

end Append

/-! ## Writers that may fail -/

variable {ε : Type*}

/-- A writer appends what a function gives, or fails as it does, whatever it appended till
then. -/
inductive Writes (heap : Heap α) (s : Slice) :
    Except ε (List α) → Heap α × Except ε Slice → Prop where
  | ok {ys : List α} {heap' : Heap α} {s' : Slice} (appended : Appended heap s ys heap' s') :
      Writes heap s (.ok ys) (heap', .ok s')
  | error {e : ε} {ys : List α} {heap' : Heap α} {s' : Slice}
      (appended : Appended heap s ys heap' s') :
      Writes heap s (.error e) (heap', .error e)

/-- A writer behind what was appended. -/
theorem Writes.after {result : Except ε (List α)} {written : Heap α × Except ε Slice}
    (fits : heap.Fits s) (first : Appended heap s ys heap₁ s₁)
    (second : Writes heap₁ s₁ result written) : Writes heap s (result.map (ys ++ ·)) written := by
  cases second with
  | ok appended => exact .ok (first.trans fits appended)
  | error appended => exact .error (first.trans fits appended)

/-- A writer that starts again, after what was appended is given up. -/
theorem Writes.restart {result : Except ε (List α)} {written : Heap α × Except ε Slice}
    (fits : heap.Fits s) (first : Appended heap s ys heap₁ s₁)
    (second : Writes heap₁ s result written) : Writes heap s result written := by
  cases second with
  | ok appended => exact .ok (first.restart fits appended)
  | error appended => exact .error (first.restart fits appended)

end Heap

end Slices

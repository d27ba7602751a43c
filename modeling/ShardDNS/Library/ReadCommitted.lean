import Mathlib.Logic.Function.Basic

/-!
# Transactions under read committed isolation

A table has at most one row for each key. A transaction in progress keeps what it has
written to itself: for each key it has written, the row it leaves there, if any. It
sees its own writes, and everywhere else what is committed by now (`Writes.view`); what
it sees last is what it commits. It holds the locks of the keys it has written to its
end, so the transactions in progress have written no key in common (`Exclusive`).

An operation on tables is local to a set of keys if it reads and writes nothing else.
What a transaction has written stays the result of a local operation for as long as the
rows under those keys stay the same (`Local.eq_of_agree`), as they do while nobody else
who commits holds a lock there (`agreeOn_view`).
-/

set_option autoImplicit false

namespace ReadCommitted

variable {Key : Type} {Row : Key → Type}

/-- The row of each key. -/
abbrev Table (Row : Key → Type) := ∀ k, Option (Row k)

/-- The keys a transaction has written, each with the row it leaves there, if any. -/
abbrev Writes (Row : Key → Type) := ∀ k, Option (Option (Row k))

/-! ## What a transaction sees -/

namespace Writes

/-- Nothing is written yet. -/
def empty : Writes Row := fun _ => none

/-- What the transaction sees of the committed table. -/
def view (w : Writes Row) (t : Table Row) : Table Row := fun k => (w k).getD (t k)

@[simp] theorem view_empty (t : Table Row) : (empty : Writes Row).view t = t := rfl

theorem view_of_free {w : Writes Row} {k : Key} (free : w k = none) (t : Table Row) :
    w.view t k = t k := by
  rw [view, free]
  rfl

/-- Writing one more key changes what is seen there. -/
theorem view_set [DecidableEq Key] (w : Writes Row) (k : Key) (row : Option (Row k))
    (t : Table Row) :
    view (Function.update w k (some row)) t = Function.update (w.view t) k row := by
  funext k'
  by_cases same : k' = k
  · subst same
    simp [view]
  · simp [view, same]

end Writes

/-! ## Locks -/

/-- Two transactions hold no lock in common. -/
def Apart (w v : Writes Row) : Prop := ∀ k, w k = none ∨ v k = none

theorem Apart.symm {w v : Writes Row} (apart : Apart w v) : Apart v w := fun k => (apart k).symm

theorem Apart.free {w v : Writes Row} (apart : Apart w v) {k : Key} (locked : v k ≠ none) :
    w k = none := (apart k).resolve_right locked

theorem apart_empty (v : Writes Row) : Apart Writes.empty v := fun _ => .inl rfl

section Exclusive

variable {T : Type} {writes : T → Writes Row} {before after : List T} {t t' : T}

/-- No two of the transactions hold a lock in common. -/
def Exclusive (writes : T → Writes Row) (ts : List T) : Prop :=
  ts.Pairwise fun t t' => Apart (writes t) (writes t')

theorem exclusive_middle : Exclusive writes (before ++ t :: after) ↔
    (∀ other ∈ before ++ after, Apart (writes t) (writes other)) ∧
      Exclusive writes (before ++ after) := by
  unfold Exclusive
  rw [List.pairwise_middle fun {_ _} apart => apart.symm, List.pairwise_cons]

theorem Exclusive.replace (exclusive : Exclusive writes (before ++ t :: after))
    (apart : ∀ other ∈ before ++ after, Apart (writes t') (writes other)) :
    Exclusive writes (before ++ t' :: after) :=
  exclusive_middle.mpr ⟨apart, (exclusive_middle.mp exclusive).2⟩

end Exclusive

/-! ## Local operations -/

/-- The tables agree on some keys. -/
def AgreeOn (part : Key → Prop) (t t' : Table Row) : Prop := ∀ k, part k → t k = t' k

/-- A commit leaves the keys alone that the transaction has not written. -/
theorem agreeOn_view {part : Key → Prop} {w : Writes Row} (free : ∀ k, part k → w k = none)
    (t : Table Row) : AgreeOn part t (w.view t) := fun k inside =>
  (Writes.view_of_free (free k inside) t).symm

/-- An operation that reads and writes only some keys. -/
structure Local (part : Key → Prop) (f : Table Row → Table Row) : Prop where
  inside : ∀ {t t' : Table Row}, AgreeOn part t t' → AgreeOn part (f t) (f t')
  outside : ∀ (t : Table Row) (k : Key), ¬ part k → f t k = t k

section Local

variable {part : Key → Prop} {f g : Table Row → Table Row}

theorem Local.comp (outer : Local part g) (inner : Local part f) :
    Local part fun t => g (f t) where
  inside agree := outer.inside (inner.inside agree)
  outside t k apart := (outer.outside (f t) k apart).trans (inner.outside t k apart)

/-- What a transaction sees is local to the keys it has written. -/
theorem local_view {w : Writes Row} (within : ∀ k, ¬ part k → w k = none) :
    Local part w.view where
  inside agree k inside := by rw [Writes.view, Writes.view, agree k inside]
  outside t k apart := Writes.view_of_free (within k apart) t

/-- **Local operations with the same result have the same result as long as the keys they
read stay the same.** -/
theorem Local.eq_of_agree (left : Local part f) (right : Local part g) {t t' : Table Row}
    (same : f t = g t) (agree : AgreeOn part t t') : f t' = g t' := by
  funext k
  by_cases inside : part k
  · rw [← left.inside agree k inside, same, right.inside agree k inside]
  · rw [left.outside t' k inside, right.outside t' k inside]

end Local

end ReadCommitted

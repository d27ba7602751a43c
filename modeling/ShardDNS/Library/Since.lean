import Mathlib.Data.List.Induction

/-!
# What has happened since

A fact that some events make true and others make false holds if one of the first kind has
happened and none of the second kind since. `Since` says so of the events until now, the
latest last, and `since_concat` how it changes with one more of them.
-/

set_option autoImplicit false

namespace History

variable {α : Type} {puts drops : α → Prop} {events : List α} {e : α}

/-- An event that makes it true has happened, and none since that makes it false. -/
def Since (puts drops : α → Prop) (events : List α) : Prop :=
  ∃ early e late, events = early ++ e :: late ∧ puts e ∧ ∀ e' ∈ late, ¬ drops e'

theorem not_since_nil : ¬ Since puts drops [] := by
  rintro ⟨early, e, late, split, -⟩
  exact List.append_ne_nil_of_right_ne_nil early (List.cons_ne_nil e late) split.symm

theorem since_last (put : puts e) : Since puts drops (events ++ [e]) :=
  ⟨events, e, [], rfl, put, List.forall_mem_nil _⟩

theorem Since.concat (since : Since puts drops events) (kept : ¬ drops e) :
    Since puts drops (events ++ [e]) := by
  obtain ⟨early, first, late, rfl, put, quiet⟩ := since
  refine ⟨early, first, late ++ [e], List.append_assoc .., put, ?_⟩
  rw [List.forall_mem_append]
  exact ⟨quiet, List.forall_mem_singleton.mpr kept⟩

/-- **One more event makes it true, or leaves it so.** -/
theorem since_concat : Since puts drops (events ++ [e]) ↔ puts e ∨
    (Since puts drops events ∧ ¬ drops e) := by
  constructor
  · rintro ⟨early, first, late, split, put, quiet⟩
    rcases List.eq_nil_or_concat late with rfl | ⟨late, last, rfl⟩
    · obtain ⟨-, same⟩ := List.append_inj' split rfl
      cases same
      exact .inl put
    · rw [List.concat_eq_append] at split quiet
      rw [← List.cons_append, ← List.append_assoc] at split
      obtain ⟨before, same⟩ := List.append_inj' split rfl
      cases same
      rw [List.forall_mem_append, List.forall_mem_singleton] at quiet
      exact .inr ⟨⟨early, first, late, before, put, quiet.1⟩, quiet.2⟩
  · rintro (put | ⟨since, kept⟩)
    · exact since_last put
    · exact since.concat kept

/-- The last event of a kind is one. -/
theorem Since.unique {a b : α} (first : Since (· = a) drops events)
    (second : Since (· = b) drops events) (drop : drops a) (drop' : drops b) : a = b := by
  induction events using List.reverseRecOn with
  | nil => exact absurd first not_since_nil
  | append_singleton events e ih =>
      rcases since_concat.mp first with rfl | ⟨first, kept⟩
      · rcases since_concat.mp second with same | ⟨-, kept⟩
        · exact same
        · exact absurd drop kept
      · rcases since_concat.mp second with rfl | ⟨second, -⟩
        · exact absurd drop' kept
        · exact ih first second

theorem Since.mono {puts' : α → Prop} (since : Since puts drops events)
    (wider : ∀ e, puts e → puts' e) :
    Since puts' drops events := by
  obtain ⟨early, e, late, rfl, put, quiet⟩ := since
  exact ⟨early, e, late, rfl, wider e put, quiet⟩

theorem Since.mem (since : Since puts drops events) : ∃ e ∈ events, puts e := by
  obtain ⟨early, e, late, rfl, put, -⟩ := since
  exact ⟨e, List.mem_append_right _ List.mem_cons_self, put⟩

end History

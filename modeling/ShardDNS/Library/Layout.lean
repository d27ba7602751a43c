import Mathlib.Data.List.Basic

/-!
# Layouts of fields

A layout is a list of kinds of fields, to be read one after the other with nothing left
over. How a field of a kind is read is a parameter. `Reads` says that octets are read as a
value whatever follows them, so that fields compose; only the last field of a layout may
depend on being last (`Row`).
-/

set_option autoImplicit false

namespace Layout

variable {K V B : Type} (read : K → List B → Option (V × List B))

/-- The values of the fields, if they are all there and nothing follows them. -/
def decode : List K → List B → Option (List V)
  | [], [] => some []
  | [], _ :: _ => none
  | k :: kinds, buf => do
      let (v, rest) ← read k buf
      let values ← decode kinds rest
      return v :: values

/-- The octets are read as the value, whatever follows. -/
def Reads (k : K) (octets : List B) (v : V) : Prop :=
  ∀ rest, read k (octets ++ rest) = some (v, rest)

/-- The octets are those of the fields of a layout, which has at least one. -/
inductive Row : List K → List B → List V → Prop where
  | last {k : K} {octets : List B} {v : V} (here : read k octets = some (v, [])) :
      Row [k] octets [v]
  | cons {k : K} {octets more : List B} {v : V} {kinds : List K} {values : List V}
      (here : Reads read k octets v) (row : Row kinds more values) :
      Row (k :: kinds) (octets ++ more) (v :: values)

variable {read}

theorem Reads.last {k : K} {octets : List B} {v : V} (reads : Reads read k octets v) :
    Row read [k] octets [v] := by
  refine .last ?_
  have alone := reads []
  rwa [List.append_nil] at alone

/-- **The fields of a row are decoded.** -/
theorem Row.decode {kinds : List K} {octets : List B} {values : List V}
    (row : Row read kinds octets values) : decode read kinds octets = some values := by
  induction row with
  | last here => simp [Layout.decode, here]
  | cons here _ ih => simp [Layout.decode, here _, ih]

/-- What holds of every value that is read holds of all that are decoded. -/
theorem forall_of_decode {P : V → Prop}
    (each : ∀ k buf v rest, read k buf = some (v, rest) → P v) {kinds : List K} {buf : List B}
    {values : List V} (decoded : Layout.decode read kinds buf = some values) :
    ∀ v ∈ values, P v := by
  induction kinds generalizing buf values with
  | nil =>
      cases buf with
      | nil =>
          cases decoded
          intro v member
          cases member
      | cons b buf => cases decoded
  | cons k kinds ih =>
      simp only [Layout.decode, Option.bind_eq_bind, Option.bind_eq_some_iff] at decoded
      obtain ⟨⟨v, rest⟩, here, more, later, same⟩ := decoded
      cases same
      intro w member
      rcases List.mem_cons.mp member with rfl | member
      · exact each k buf w rest here
      · exact ih later w member

end Layout

import ShardDNS.Library.Slices
import Mathlib.Data.List.Nodup
import Mathlib.Data.List.Perm.Subperm

/-!
# Buffers that change hands

Arrays are handed from one holder to another and back to a pool. A step of some holders gives
up the arrays they had for others: their own, pooled ones, or new ones. It writes to their own
arrays only (`Transfer`).

If no array is in two hands before such a step, none is after it, and the arrays of all others
are as they were (`Exclusive.transfer`). So what a holder knows of its own arrays cannot be
spoilt by a step that it takes no part in. `Held.step` is the rule that follows: the holders of
a system account for a list of entries, each holder for some of them, and a step has to be
looked at with the holders it changes alone.
-/

set_option autoImplicit false

universe u v w

namespace Slices

open List

variable {α : Type u}

/-- Arrays, and those of them that nobody uses. -/
structure Memory (α : Type u) where
  heap : Heap α
  pool : List Nat

/-- No array is in two hands, or in a hand and in the pool; those in the pool have one size. -/
structure Exclusive (size : Nat) (mem : Memory α) (held : List Nat) : Prop where
  nodup : (held ++ mem.pool).Nodup
  known : ∀ b ∈ held ++ mem.pool, b < mem.heap.length
  sized : ∀ b ∈ mem.pool, (mem.heap.array b).length = size

/-- A step that turns the arrays `own` into the arrays `own'`. -/
structure Transfer (size : Nat) (mem mem' : Memory α) (own own' : List Nat) : Prop where
  grows : mem.heap.length ≤ mem'.heap.length
  others : ∀ b < mem.heap.length, b ∉ own → mem'.heap.array b = mem.heap.array b
  hands : ∃ new : List Nat, new.Nodup ∧ (∀ b ∈ new, mem.heap.length ≤ b ∧ b < mem'.heap.length) ∧
    (own' ++ mem'.pool) <+~ (own ++ mem.pool ++ new)
  sized : ∀ b ∈ mem'.pool, b ∈ mem.pool ∨ (mem'.heap.array b).length = size

theorem nodup_of_subperm {β : Type u} {xs ys : List β} (part : xs <+~ ys) (distinct : ys.Nodup) :
    xs.Nodup := by
  obtain ⟨zs, perm, sub⟩ := part
  exact perm.nodup_iff.mp (distinct.sublist sub)

section Transfer

variable {size : Nat} {mem mem' : Memory α} {held held' own own' rest : List Nat}

/-- **No array gets into two hands, and nobody else's array changes.** -/
theorem Exclusive.transfer (exclusive : Exclusive size mem held) (before : held ~ own ++ rest)
    (after : held' ~ own' ++ rest) (step : Transfer size mem mem' own own') :
    Exclusive size mem' held' ∧ ∀ b ∈ rest, mem'.heap.array b = mem.heap.array b := by
  obtain ⟨new, distinct, fresh, hands⟩ := step.hands
  have old : ∀ b ∈ own ++ rest ++ mem.pool, b < mem.heap.length := fun b member =>
    exclusive.known b ((before.append_right mem.pool).mem_iff.mpr member)
  have all : (own ++ mem.pool ++ new ++ rest).Nodup := by
    have apart : (own ++ rest ++ mem.pool ++ new).Nodup := by
      refine Nodup.append ((before.append_right mem.pool).nodup exclusive.nodup) distinct ?_
      intro b here there
      exact absurd (old b here) (Nat.not_lt.mpr (fresh b there).1)
    refine Perm.nodup ?_ apart
    rw [List.append_assoc, List.append_assoc, List.append_assoc, List.append_assoc]
    exact Perm.append_left own perm_append_comm |>.trans (by rw [List.append_assoc])
  have part : (held' ++ mem'.pool) <+~ (own ++ mem.pool ++ new ++ rest) := by
    have shuffled : held' ++ mem'.pool ~ own' ++ mem'.pool ++ rest := by
      refine (after.append_right mem'.pool).trans ?_
      rw [List.append_assoc, List.append_assoc]
      exact perm_append_comm.append_left own'
    exact shuffled.subperm.trans ((subperm_append_right rest).mpr hands)
  have here : ∀ b ∈ own ++ mem.pool ++ new ++ rest, b < mem'.heap.length := by
    intro b member
    simp only [List.mem_append] at member old
    rcases member with ((member | member) | member) | member
    · exact Nat.lt_of_lt_of_le (old b (.inl (.inl member))) step.grows
    · exact Nat.lt_of_lt_of_le (old b (.inr member)) step.grows
    · exact (fresh b member).2
    · exact Nat.lt_of_lt_of_le (old b (.inl (.inr member))) step.grows
  have unowned : ∀ b ∈ mem.pool ++ rest, b ∉ own := by
    intro b member owned
    have twice : (own ++ (mem.pool ++ rest)).Nodup := by
      refine Nodup.sublist ?_ all
      rw [List.append_assoc, List.append_assoc]
      exact (Sublist.refl _).append ((Sublist.refl _).append (sublist_append_right _ _))
    exact List.disjoint_of_nodup_append twice owned member
  have kept : ∀ b ∈ mem.pool ++ rest, mem'.heap.array b = mem.heap.array b := by
    intro b member
    refine step.others b (old b ?_) (unowned b member)
    simp only [List.mem_append] at member ⊢
    tauto
  refine ⟨⟨nodup_of_subperm part all, fun b member => here b (part.subset member), ?_⟩,
    fun b member => kept b (List.mem_append_right _ member)⟩
  intro b pooled
  rcases step.sized b pooled with member | done
  · rw [kept b (List.mem_append_left _ member)]
    exact exclusive.sized b member
  · exact done

end Transfer

/-! ## Taking, returning and writing -/

namespace Memory

/-- `Get`: an array of the pool, or a new one. -/
inductive Get [Inhabited α] (size : Nat) (mem : Memory α) : Nat → Memory α → Prop where
  | pooled {b : Nat} {pool : List Nat} (taken : mem.pool ~ b :: pool) :
      Get size mem b { mem with pool := pool }
  | fresh : Get size mem mem.heap.length { mem with heap := (mem.heap.alloc [] size).1 }

/-- `Put`. -/
def put (mem : Memory α) (b : Nat) : Memory α := { mem with pool := b :: mem.pool }

end Memory

/-- The arrays of a holder of an array and a slice. -/
def both (b c : Nat) : List Nat := if c = b then [b] else [b, c]

theorem mem_both (b c : Nat) : b ∈ both b c := by
  unfold both
  split <;> simp

theorem mem_both_right (b c : Nat) : c ∈ both b c := by
  unfold both
  split <;> simp [*]

section Moves

variable {size : Nat} {mem mem' : Memory α} {own own' : List Nat} {b c : Nat}

/-- Arrays are given up. -/
theorem transfer_of_subperm (part : own' <+~ own) : Transfer size mem mem own own' where
  grows := Nat.le_refl _
  others _ _ _ := rfl
  hands := ⟨[], nodup_nil, nofun, by simpa using (subperm_append_right mem.pool).mpr part⟩
  sized _ member := .inl member

theorem transfer_put (sized : (mem.heap.array b).length = size) :
    Transfer size mem (mem.put b) [b] [] where
  grows := Nat.le_refl _
  others _ _ _ := rfl
  hands := ⟨[], nodup_nil, nofun, by simpa [Memory.put] using Subperm.refl _⟩
  sized c member := by
    rcases mem_cons.mp member with rfl | pooled
    · exact .inr sized
    · exact .inl pooled

/-- The pool forgets arrays. -/
theorem transfer_forget {pool : List Nat} (part : pool <+ mem.pool) :
    Transfer size mem { mem with pool := pool } [] [] where
  grows := Nat.le_refl _
  others _ _ _ := rfl
  hands := ⟨[], nodup_nil, nofun, by simpa using part.subperm⟩
  sized _ member := .inl (part.subset member)

theorem transfer_get [Inhabited α] (got : mem.Get size b mem') : Transfer size mem mem' [] [b] := by
  cases got with
  | pooled taken =>
      refine ⟨Nat.le_refl _, fun _ _ _ => rfl, ⟨[], nodup_nil, nofun, ?_⟩, fun c member => .inl ?_⟩
      · simpa using taken.symm.subperm
      · exact taken.mem_iff.mpr (mem_cons_of_mem _ member)
  | fresh =>
      refine ⟨by simp [Heap.alloc], fun c old _ => Heap.array_append_of_lt old,
        ⟨[mem.heap.length], nodup_singleton _, ?_, ?_⟩, fun c member => .inl member⟩
      · intro c member
        rw [mem_singleton.mp member]
        simp [Heap.alloc]
      · exact (@perm_append_comm _ [mem.heap.length] _).subperm

theorem length_get [Inhabited α] {held : List Nat} (got : mem.Get size b mem')
    (exclusive : Exclusive size mem held) :
    (mem'.heap.array b).length = size := by
  cases got with
  | pooled taken => exact exclusive.sized b (taken.mem_iff.mpr mem_cons_self)
  | fresh => simp [Heap.alloc]

theorem known_get [Inhabited α] {held : List Nat} (got : mem.Get size b mem')
    (exclusive : Exclusive size mem held) :
    b < mem'.heap.length := by
  cases got with
  | pooled taken => exact exclusive.known b (mem_append_right _ (taken.mem_iff.mpr mem_cons_self))
  | fresh => simp [Heap.alloc]

/-- A holder of an array writes to it, or goes on in a new one. -/
theorem transfer_write {i : Nat} {heap : Heap α} (owned : b ∈ own)
    (keeps : Heap.Keeps b i mem.heap heap) (place : c = b ∨ mem.heap.length ≤ c ∧ c < heap.length) :
    Transfer size mem { mem with heap := heap } own (both b c) where
  grows := keeps.grows
  others d old other := keeps.others d old fun here => other (here ▸ owned)
  sized _ member := .inl member
  hands := by
    have one : [b] <+~ own := singleton_subperm_iff.mpr owned
    unfold both
    split
    · refine ⟨[], nodup_nil, nofun, ?_⟩
      rw [append_nil]
      exact (subperm_append_right _).mpr one
    · rename_i other
      refine ⟨[c], nodup_singleton c, fun d member => ?_, ?_⟩
      · rw [mem_singleton.mp member]
        exact place.resolve_left other
      · have turned : [b, c] ++ mem.pool ~ [b] ++ mem.pool ++ [c] := by
          rw [append_assoc]
          exact (@perm_append_comm _ [c] _).append_left [b]
        exact turned.subperm.trans ((subperm_append_right _).mpr ((subperm_append_right _).mpr one))

end Moves

/-! ## Holders and what they account for -/

variable {σ : Type v} {ε : Type w}

/-- Holders of arrays, with the entries that each accounts for as its arrays are. -/
structure Holder (α : Type u) (σ : Type v) (ε : Type w) where
  owned : σ → List Nat
  holds : Heap α → σ → List ε → Prop
  stable : ∀ {heap heap' : Heap α} {s : σ} {entries : List ε}, heap.length ≤ heap'.length →
    (∀ b ∈ owned s, heap'.array b = heap.array b) → holds heap s entries → holds heap' s entries

variable {H : Holder α σ ε}

/-- The holders account for the entries, in their order. -/
inductive Holding (H : Holder α σ ε) (heap : Heap α) : List σ → List ε → Prop where
  | nil : Holding H heap [] []
  | cons {s : σ} {ss : List σ} {es rest : List ε} (first : H.holds heap s es)
      (others : Holding H heap ss rest) :
      Holding H heap (s :: ss) (es ++ rest)

section Holding

variable {heap heap' : Heap α} {s t : σ} {ss ts : List σ} {es : List ε}

theorem holding_nil_iff : Holding H heap [] es ↔ es = [] := by
  constructor
  · rintro ⟨⟩
    rfl
  · rintro rfl
    exact .nil

theorem holding_cons_iff : Holding H heap (s :: ss) es ↔
    ∃ first rest, es = first ++ rest ∧ H.holds heap s first ∧ Holding H heap ss rest := by
  constructor
  · rintro (_ | ⟨first, others⟩)
    exact ⟨_, _, rfl, first, others⟩
  · rintro ⟨first, rest, rfl, holds, others⟩
    exact .cons holds others

theorem holding_singleton_iff : Holding H heap [s] es ↔ H.holds heap s es := by
  rw [holding_cons_iff]
  constructor
  · rintro ⟨first, rest, rfl, holds, others⟩
    rw [holding_nil_iff.mp others, append_nil]
    exact holds
  · exact fun holds => ⟨es, [], (append_nil es).symm, holds, .nil⟩

theorem holding_append_iff : Holding H heap (ss ++ ts) es ↔
    ∃ first second, es = first ++ second ∧ Holding H heap ss first ∧ Holding H heap ts second := by
  induction ss generalizing es with
  | nil =>
      simp only [nil_append, holding_nil_iff]
      exact ⟨fun held => ⟨[], es, rfl, rfl, held⟩, by rintro ⟨_, _, rfl, rfl, held⟩; exact held⟩
  | cons s ss ih =>
      rw [cons_append, holding_cons_iff]
      constructor
      · rintro ⟨first, rest, rfl, holds, others⟩
        obtain ⟨second, third, rfl, left, right⟩ := ih.mp others
        exact ⟨first ++ second, third, (append_assoc ..).symm, .cons holds left, right⟩
      · rintro ⟨_, third, rfl, left, right⟩
        obtain ⟨first, second, rfl, holds, others⟩ := holding_cons_iff.mp left
        exact ⟨first, second ++ third, append_assoc .., holds,
          ih.mpr ⟨second, third, rfl, others, right⟩⟩

/-- The order of the holders is the order of the entries, no more. -/
theorem Holding.perm (held : Holding H heap ss es) (perm : ss ~ ts) :
    ∃ es', es ~ es' ∧ Holding H heap ts es' := by
  induction perm generalizing es with
  | nil => exact ⟨es, .rfl, held⟩
  | cons s _ ih =>
      obtain ⟨first, rest, rfl, holds, others⟩ := holding_cons_iff.mp held
      obtain ⟨rest', shuffled, others⟩ := ih others
      exact ⟨first ++ rest', shuffled.append_left first, .cons holds others⟩
  | swap s t ss =>
      obtain ⟨first, _, rfl, holds, others⟩ := holding_cons_iff.mp held
      obtain ⟨second, rest, rfl, holds', others⟩ := holding_cons_iff.mp others
      refine ⟨second ++ (first ++ rest), ?_, .cons holds' (.cons holds others)⟩
      rw [← append_assoc, ← append_assoc]
      exact perm_append_comm.append_right rest
  | trans _ _ ih₁ ih₂ =>
      obtain ⟨es₁, shuffled₁, held₁⟩ := ih₁ held
      obtain ⟨es₂, shuffled₂, held₂⟩ := ih₂ held₁
      exact ⟨es₂, shuffled₁.trans shuffled₂, held₂⟩

theorem Holding.stable (held : Holding H heap ss es) (grows : heap.length ≤ heap'.length)
    (same : ∀ b ∈ ss.flatMap H.owned, heap'.array b = heap.array b) : Holding H heap' ss es := by
  induction held with
  | nil => exact .nil
  | cons first _ ih =>
      rw [flatMap_cons] at same
      exact .cons (H.stable grows (fun b member => same b (mem_append_left _ member)) first)
        (ih fun b member => same b (mem_append_right _ member))

end Holding

/-- The holders share no array, and account for the entries. -/
structure Held (H : Holder α σ ε) (size : Nat) (mem : Memory α) (ss : List σ) (es : List ε) :
    Prop where
  exclusive : Exclusive size mem (ss.flatMap H.owned)
  holding : ∃ es', es ~ es' ∧ Holding H mem.heap ss es'

/-- **A step is looked at with the holders it changes.** They take in some entries and give out
others; all other holders account for what they did. -/
theorem Held.step {size : Nat} {mem mem' : Memory α} {ss ss' rest : List σ} {es ins : List ε}
    {P : List ε → Prop} (held : Held H size mem ss es) (old new : List σ)
    (before : ss ~ old ++ rest)
    (after : ss' ~ new ++ rest)
    (change : ∀ es, Holding H mem.heap old es →
      Transfer size mem mem' (old.flatMap H.owned) (new.flatMap H.owned) ∧
        ∃ es' outs, Holding H mem'.heap new es' ∧ es ++ ins ~ es' ++ outs ∧ P outs) :
    ∃ es' outs, Held H size mem' ss' es' ∧ es ++ ins ~ es' ++ outs ∧ P outs := by
  obtain ⟨entries, shuffled, holding⟩ := held.holding
  obtain ⟨entries', shuffled', holding⟩ := holding.perm before
  obtain ⟨mine, others, rfl, holds, remaining⟩ := holding_append_iff.mp holding
  obtain ⟨transfer, mine', outs, holds', exchanged, given⟩ := change mine holds
  have arrays : ∀ {xs ys : List σ}, xs ~ ys ++ rest →
      xs.flatMap H.owned ~ ys.flatMap H.owned ++ rest.flatMap H.owned := by
    intro xs ys perm
    rw [← flatMap_append]
    exact perm.flatMap_right _
  obtain ⟨exclusive, kept⟩ := held.exclusive.transfer (arrays before) (arrays after) transfer
  obtain ⟨final, reordered, holding'⟩ :=
    (holding_append_iff.mpr ⟨mine', others, rfl, holds', remaining.stable transfer.grows kept⟩).perm
      after.symm
  refine ⟨mine' ++ others, outs, ⟨exclusive, final, reordered, holding'⟩, ?_, given⟩
  calc es ++ ins
    _ ~ mine ++ others ++ ins := (shuffled.trans shuffled').append_right ins
    _ ~ mine ++ ins ++ others := by
      rw [append_assoc, append_assoc]
      exact perm_append_comm.append_left mine
    _ ~ mine' ++ outs ++ others := exchanged.append_right others
    _ ~ mine' ++ others ++ outs := by
      rw [append_assoc, append_assoc]
      exact perm_append_comm.append_left mine'

end Slices

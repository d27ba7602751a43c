import Mathlib.Logic.Relation
import Mathlib.Logic.Function.Basic

/-!
# Epoch-guarded caches

A cache in front of a source that changes. A load reads the epoch of its key's class,
reads the source, possibly more than once, and may store what it read only while the
epoch is still the one it began with. Whoever changes the source leaves a script of
instructions to be run on the cache: advance the epoch of a class, and after that
purge keys. Scripts run in any order, interleaved with loads and with each other.
Checking the epoch and storing are two steps; while a load is between them, it
excludes purges of its key.

What a load or an entry holds is judged by `good`, against the source as it is. A
change of the source may spoil only what its script guards (`Guards`): what it
advances the epoch for and purges afterwards. Then in every reachable state an entry
is good or about to be purged (`Coherent`), and once no script is outstanding every
entry is good (`good_of_quiet`).

The states of the cache are those of one replica. Epochs may also be advanced and
entries removed for reasons that no script tells.
-/

set_option autoImplicit false

namespace EpochCache

/-! ## Scripts -/

/-- An instruction to a cache with keys `K` in classes `C`. -/
inductive Instr (K C : Type) where
  | bump (c : C)
  | purge (covers : K → Prop)

section Scripts

variable {K C : Type}

/-- The script purges the key. -/
def Purges (k : K) : List (Instr K C) → Prop
  | [] => False
  | .bump _ :: rest => Purges k rest
  | .purge covers :: rest => covers k ∨ Purges k rest

/-- The script advances the epoch of the key's class and purges the key afterwards. -/
def Guards (cls : K → C) (k : K) : List (Instr K C) → Prop
  | [] => False
  | .bump c :: rest => (c = cls k ∧ Purges k rest) ∨ Guards cls k rest
  | .purge _ :: rest => Guards cls k rest

variable {cls : K → C} {k : K}

theorem Guards.purges {script : List (Instr K C)} (guards : Guards cls k script) :
    Purges k script := by
  induction script with
  | nil => exact guards
  | cons instr rest ih =>
      cases instr with
      | bump c => exact guards.elim (fun here => here.2) ih
      | purge covers => exact .inr (ih guards)

theorem Purges.append_left {first : List (Instr K C)} (second : List (Instr K C))
    (purges : Purges k first) : Purges k (first ++ second) := by
  induction first with
  | nil => exact purges.elim
  | cons instr rest ih =>
      cases instr with
      | bump c => exact ih purges
      | purge covers => exact purges.imp_right ih

theorem Guards.append_left {first : List (Instr K C)} (second : List (Instr K C))
    (guards : Guards cls k first) : Guards cls k (first ++ second) := by
  induction first with
  | nil => exact guards.elim
  | cons instr rest ih =>
      cases instr with
      | bump c => exact guards.imp (fun here => ⟨here.1, here.2.append_left second⟩) ih
      | purge covers => exact ih guards

theorem Guards.append_right (first : List (Instr K C)) {second : List (Instr K C)}
    (guards : Guards cls k second) : Guards cls k (first ++ second) := by
  induction first with
  | nil => exact guards
  | cons instr rest ih =>
      cases instr with
      | bump c => exact .inr ih
      | purge covers => exact ih

/-- A script of one bump and purges guards what one of them covers. -/
theorem guards_bump_purges {covers : List (K → Prop)} {cover : K → Prop} (member : cover ∈ covers)
    (covered : cover k) : Guards cls k (.bump (cls k) :: covers.map .purge) := by
  refine .inl ⟨rfl, ?_⟩
  induction covers with
  | nil => cases member
  | cons first rest ih =>
      rcases List.mem_cons.mp member with rfl | later
      · exact .inl covered
      · exact .inr (ih later)

end Scripts

/-- Putting one element in the place of another leaves the others where they are. -/
theorem mem_replace {α : Type} {before after : List α} (x : α) {y other : α}
    (member : other ∈ before ++ y :: after) : other = y ∨ other ∈ before ++ x :: after := by
  rcases List.mem_append.mp member with early | late
  · exact .inr (List.mem_append_left _ early)
  · rcases List.mem_cons.mp late with same | late
    · exact .inl same
    · exact .inr (List.mem_append_right _ (List.mem_cons_of_mem _ late))

/-! ## States and steps -/

/-- A load: its key, the epoch it began in, what it has read, and whether it is about
to store it. -/
structure Load (K P : Type) where
  key : K
  epoch : Nat
  held : Option P
  storing : Bool

structure State (S K C P : Type) where
  source : S
  entries : K → Option P
  epoch : C → Nat
  loads : List (Load K P)
  scripts : List (List (Instr K C))

section Steps

variable {S K C P : Type}

/-- A step of the cache or its source. -/
inductive Step (cls : K → C) (good : S → K → P → Prop) : State S K C P → State S K C P → Prop where
  /-- The source changes, and a script for what the change may spoil is outstanding. -/
  | change {s : State S K C P} {source : S} {script : List (Instr K C)}
      (frame : ∀ k p, ¬ Guards cls k script → good s.source k p → good source k p) :
      Step cls good s { s with source := source, scripts := script :: s.scripts }
  /-- A load begins. -/
  | start {s : State S K C P} {before after : List (Load K P)} (k : K)
      (place : s.loads = before ++ after) :
      Step cls good s { s with loads := before ++ ⟨k, s.epoch (cls k), none, false⟩ :: after }
  /-- A load reads the source, and what it reads is good if what it held was. -/
  | read {s : State S K C P} {before after : List (Load K P)} {l : Load K P} {p : P}
      (place : s.loads = before ++ l :: after)
      (fresh : (∀ old, l.held = some old → good s.source l.key old) → good s.source l.key p) :
      Step cls good s { s with loads := before ++ { l with held := some p } :: after }
  /-- A load finds the epoch unchanged. -/
  | accept {s : State S K C P} {before after : List (Load K P)} {l : Load K P}
      (place : s.loads = before ++ l :: after) (current : l.epoch = s.epoch (cls l.key)) :
      Step cls good s { s with loads := before ++ { l with storing := true } :: after }
  /-- A load stores what it holds. -/
  | store {s : State S K C P} {before after : List (Load K P)} {l : Load K P} {p : P}
      {entries : K → Option P} (place : s.loads = before ++ l :: after) (held : l.held = some p)
      (storing : l.storing = true)
      (stored : ∀ k q, entries k = some q → (k = l.key ∧ q = p) ∨ s.entries k = some q) :
      Step cls good s
        { s with entries := entries, loads := before ++ { l with storing := false } :: after }
  /-- A load ends. -/
  | leave {s : State S K C P} {before after : List (Load K P)} {l : Load K P}
      (place : s.loads = before ++ l :: after) :
      Step cls good s { s with loads := before ++ after }
  /-- Entries are removed. -/
  | evict {s : State S K C P} {entries : K → Option P}
      (kept : ∀ k p, entries k = some p → s.entries k = some p) :
      Step cls good s { s with entries := entries }
  /-- An epoch is advanced. -/
  | tick {s : State S K C P} {epoch : C → Nat} (advanced : ∀ c, s.epoch c ≤ epoch c) :
      Step cls good s { s with epoch := epoch }
  /-- A script advances an epoch. -/
  | bump {s : State S K C P} {before after : List (List (Instr K C))} {c : C}
      {rest : List (Instr K C)} {epoch : C → Nat}
      (place : s.scripts = before ++ (.bump c :: rest) :: after)
      (advanced : ∀ d, s.epoch d ≤ epoch d) (next : s.epoch c < epoch c) :
      Step cls good s { s with epoch := epoch, scripts := before ++ rest :: after }
  /-- A script purges keys; no load is about to store one of them. -/
  | purge {s : State S K C P} {before after : List (List (Instr K C))} {covers : K → Prop}
      {rest : List (Instr K C)} {entries : K → Option P}
      (place : s.scripts = before ++ (.purge covers :: rest) :: after)
      (unlocked : ∀ l ∈ s.loads, l.storing = true → ¬ covers l.key)
      (kept : ∀ k p, entries k = some p → s.entries k = some p ∧ ¬ covers k) :
      Step cls good s { s with entries := entries, scripts := before ++ rest :: after }
  /-- Outstanding scripts are reordered, finished ones dropped, others added. One may make way
  for another that does at least as much. -/
  | shuffle {s : State S K C P} {scripts : List (List (Instr K C))}
      (kept : ∀ script ∈ s.scripts, script = [] ∨ ∃ other ∈ scripts, ∀ k,
        (Purges k script → Purges k other) ∧ (Guards cls k script → Guards cls k other)) :
      Step cls good s { s with scripts := scripts }

/-! ## The invariant -/

/-- A purge of the key is outstanding. -/
def Doomed (s : State S K C P) (k : K) : Prop := ∃ script ∈ s.scripts, Purges k script

/-- An advance of the epoch and then a purge of the key are outstanding. -/
def Guarded (cls : K → C) (s : State S K C P) (k : K) : Prop :=
  ∃ script ∈ s.scripts, Guards cls k script

/-- What a load holds is good, or it will not be stored, or what it stores will be
purged. -/
def LoadOk (cls : K → C) (good : S → K → P → Prop) (s : State S K C P) (l : Load K P) : Prop :=
  l.epoch ≤ s.epoch (cls l.key) ∧
    ∀ p, l.held = some p →
      good s.source l.key p ∨ Guarded cls s l.key ∨
        (l.epoch ≠ s.epoch (cls l.key) ∧ (l.storing = true → Doomed s l.key))

/-- Every entry is good or about to be purged, and so is what every load may store. -/
structure Coherent (cls : K → C) (good : S → K → P → Prop) (s : State S K C P) : Prop where
  entries : ∀ k p, s.entries k = some p → good s.source k p ∨ Doomed s k
  loads : ∀ l ∈ s.loads, LoadOk cls good s l

variable {cls : K → C} {good : S → K → P → Prop} {s s' : State S K C P}

theorem Guarded.doomed {k : K} (guarded : Guarded cls s k) : Doomed s k :=
  guarded.imp fun _ found => ⟨found.1, found.2.purges⟩

/-- A load stays in order while its source, its guards and its epoch do. -/
theorem LoadOk.mono {l : Load K P} (ok : LoadOk cls good s l)
    (same : ∀ p, good s.source l.key p → good s'.source l.key p ∨ Guarded cls s' l.key)
    (guards : Guarded cls s l.key → Guarded cls s' l.key)
    (dooms : Doomed s l.key → Doomed s' l.key)
    (epoch : s.epoch (cls l.key) ≤ s'.epoch (cls l.key)) : LoadOk cls good s' l := by
  refine ⟨Nat.le_trans ok.1 epoch, fun p held => ?_⟩
  rcases ok.2 p held with fine | guarded | ⟨stale, doomed⟩
  · rcases same p fine with fine | guarded
    · exact .inl fine
    · exact .inr (.inl guarded)
  · exact .inr (.inl (guards guarded))
  · have behind : l.epoch < s.epoch (cls l.key) := Nat.lt_of_le_of_ne ok.1 stale
    exact .inr (.inr ⟨Nat.ne_of_lt (Nat.lt_of_lt_of_le behind epoch),
      fun storing => dooms (doomed storing)⟩)

/-- Replacing one load keeps the others in order. -/
theorem Coherent.replace {before after : List (Load K P)} {l l' : Load K P}
    (coherent : Coherent cls good s) (place : s.loads = before ++ l :: after)
    (ok : LoadOk cls good s l') :
    Coherent cls good { s with loads := before ++ l' :: after } := by
  refine ⟨coherent.entries, fun other member => ?_⟩
  rcases mem_replace l member with rfl | old
  · exact ok
  · rw [← place] at old
    exact coherent.loads other old

theorem mem_of_place {before after : List (Load K P)} {l : Load K P}
    (place : s.loads = before ++ l :: after) : l ∈ s.loads := by
  rw [place]
  exact List.mem_append_cons_self

/-- When the first instruction of a script has run, the other scripts are still
outstanding, and so is its rest. -/
theorem mem_of_executed {scripts before after : List (List (Instr K C))} {instr : Instr K C}
    {rest script : List (Instr K C)} (place : scripts = before ++ (instr :: rest) :: after)
    (member : script ∈ scripts) : script = instr :: rest ∨ script ∈ before ++ rest :: after := by
  rw [place] at member
  exact mem_replace rest member

theorem Doomed.bump {before after : List (List (Instr K C))} {c : C} {rest : List (Instr K C)}
    {epoch : C → Nat} {k : K} (doomed : Doomed s k)
    (place : s.scripts = before ++ (.bump c :: rest) :: after) :
    Doomed { s with epoch := epoch, scripts := before ++ rest :: after } k := by
  obtain ⟨script, member, purges⟩ := doomed
  rcases mem_of_executed place member with rfl | member
  · exact ⟨rest, List.mem_append_cons_self, purges⟩
  · exact ⟨script, member, purges⟩

/-- After a bump, what it guarded is stale, and still about to be purged. -/
theorem LoadOk.bump {before after : List (List (Instr K C))} {c : C} {rest : List (Instr K C)}
    {epoch : C → Nat} {l : Load K P} (ok : LoadOk cls good s l)
    (place : s.scripts = before ++ (.bump c :: rest) :: after)
    (advanced : ∀ d, s.epoch d ≤ epoch d) (next : s.epoch c < epoch c) :
    LoadOk cls good { s with epoch := epoch, scripts := before ++ rest :: after } l := by
  refine ⟨Nat.le_trans ok.1 (advanced _), fun p held => ?_⟩
  rcases ok.2 p held with fine | ⟨script, member, guards⟩ | ⟨stale, doomed⟩
  · exact .inl fine
  · rcases mem_of_executed place member with rfl | member
    · rcases guards with ⟨same, purges⟩ | guards
      · refine .inr (.inr ⟨?_, fun _ => ⟨rest, List.mem_append_cons_self, purges⟩⟩)
        have old := ok.1
        rw [← same] at old ⊢
        exact Nat.ne_of_lt (Nat.lt_of_le_of_lt old next)
      · exact .inr (.inl ⟨rest, List.mem_append_cons_self, guards⟩)
    · exact .inr (.inl ⟨script, member, guards⟩)
  · have behind : l.epoch < s.epoch (cls l.key) := Nat.lt_of_le_of_ne ok.1 stale
    exact .inr (.inr ⟨Nat.ne_of_lt (Nat.lt_of_lt_of_le behind (advanced _)),
      fun storing => (doomed storing).bump place⟩)

/-- A purge that does not cover a key leaves the others outstanding. -/
theorem Doomed.purge {before after : List (List (Instr K C))} {covers : K → Prop}
    {rest : List (Instr K C)} {entries : K → Option P} {k : K} (doomed : Doomed s k)
    (place : s.scripts = before ++ (.purge covers :: rest) :: after) (other : ¬ covers k) :
    Doomed { s with entries := entries, scripts := before ++ rest :: after } k := by
  obtain ⟨script, member, purges⟩ := doomed
  rcases mem_of_executed place member with rfl | member
  · exact ⟨rest, List.mem_append_cons_self, purges.resolve_left other⟩
  · exact ⟨script, member, purges⟩

theorem Guarded.purge {before after : List (List (Instr K C))} {covers : K → Prop}
    {rest : List (Instr K C)} {entries : K → Option P} {k : K} (guarded : Guarded cls s k)
    (place : s.scripts = before ++ (.purge covers :: rest) :: after) :
    Guarded cls { s with entries := entries, scripts := before ++ rest :: after } k := by
  obtain ⟨script, member, guards⟩ := guarded
  rcases mem_of_executed place member with rfl | member
  · exact ⟨rest, List.mem_append_cons_self, guards⟩
  · exact ⟨script, member, guards⟩

/-- **Every step keeps the cache coherent.** -/
theorem Coherent.step (coherent : Coherent cls good s) (step : Step cls good s s') :
    Coherent cls good s' := by
  cases step with
  | @change source script frame =>
      have spoiled : ∀ k p, good s.source k p →
          good source k p ∨
            Guarded cls { s with source := source, scripts := script :: s.scripts } k := by
        intro k p fine
        by_cases guards : Guards cls k script
        · exact .inr ⟨script, List.mem_cons_self, guards⟩
        · exact .inl (frame k p guards fine)
      refine ⟨fun k p found => ?_, fun l member => ?_⟩
      · rcases coherent.entries k p found with fine | ⟨other, member, purges⟩
        · exact (spoiled k p fine).imp_right Guarded.doomed
        · exact .inr ⟨other, List.mem_cons_of_mem _ member, purges⟩
      · refine (coherent.loads l member).mono (spoiled l.key) ?_ ?_ (Nat.le_refl _)
        · exact fun ⟨other, listed, guards⟩ => ⟨other, List.mem_cons_of_mem _ listed, guards⟩
        · exact fun ⟨other, listed, purges⟩ => ⟨other, List.mem_cons_of_mem _ listed, purges⟩
  | @start before after k place =>
      refine ⟨coherent.entries, fun l member => ?_⟩
      have cases_of : l = ⟨k, s.epoch (cls k), none, false⟩ ∨ l ∈ s.loads := by
        rw [place]
        rcases List.mem_append.mp member with early | late
        · exact .inr (List.mem_append_left _ early)
        · exact (List.mem_cons.mp late).imp_right (List.mem_append_right _)
      rcases cases_of with rfl | old
      · exact ⟨Nat.le_refl _, fun p held => by cases held⟩
      · exact coherent.loads l old
  | @read before after l p place fresh =>
      have ok := coherent.loads l (mem_of_place place)
      refine coherent.replace place ⟨ok.1, fun q held => ?_⟩
      cases held
      by_cases fine : ∀ old, l.held = some old → good s.source l.key old
      · exact .inl (fresh fine)
      · rw [not_forall] at fine
        obtain ⟨old, spoiled⟩ := fine
        rw [Classical.not_imp] at spoiled
        exact .inr ((ok.2 old spoiled.1).resolve_left spoiled.2)
  | @accept before after l place current =>
      have ok := coherent.loads l (mem_of_place place)
      refine coherent.replace place ⟨ok.1, fun p held => ?_⟩
      rcases ok.2 p held with fine | guarded | ⟨stale, -⟩
      · exact .inl fine
      · exact .inr (.inl guarded)
      · exact absurd current stale
  | @store before after l p entries place held storing stored =>
      have ok := coherent.loads l (mem_of_place place)
      have released : LoadOk cls good s { l with storing := false } :=
        ⟨ok.1, fun q same => (ok.2 q same).imp_right fun rest =>
          rest.imp_right fun stale => ⟨stale.1, fun never => by cases never⟩⟩
      refine ⟨fun k q found => ?_, (coherent.replace place released).loads⟩
      rcases stored k q found with ⟨rfl, rfl⟩ | old
      · rcases ok.2 q held with fine | guarded | ⟨-, doomed⟩
        · exact .inl fine
        · exact .inr guarded.doomed
        · exact .inr (doomed storing)
      · exact coherent.entries k q old
  | @leave before after l place =>
      refine ⟨coherent.entries, fun other member => coherent.loads other ?_⟩
      rw [place]
      rcases List.mem_append.mp member with early | late
      · exact List.mem_append_left _ early
      · exact List.mem_append_right _ (List.mem_cons_of_mem _ late)
  | evict kept => exact ⟨fun k p found => coherent.entries k p (kept k p found), coherent.loads⟩
  | tick advanced =>
      exact ⟨coherent.entries, fun l member =>
        (coherent.loads l member).mono (fun _ fine => .inl fine) id id (advanced _)⟩
  | @bump before after c rest epoch place advanced next =>
      exact ⟨fun k p found =>
          (coherent.entries k p found).imp_right fun doomed => doomed.bump place,
        fun l member => (coherent.loads l member).bump place advanced next⟩
  | @purge before after covers rest entries place unlocked kept =>
      refine ⟨fun k p found => ?_, fun l member => ?_⟩
      · obtain ⟨old, other⟩ := kept k p found
        exact (coherent.entries k p old).imp_right fun doomed => doomed.purge place other
      · obtain ⟨past, ok⟩ := coherent.loads l member
        refine ⟨past, fun p held => ?_⟩
        rcases ok p held with fine | guarded | ⟨stale, doomed⟩
        · exact .inl fine
        · exact .inr (.inl (guarded.purge place))
        · exact .inr (.inr ⟨stale, fun storing =>
            (doomed storing).purge place (unlocked l member storing)⟩)
  | @shuffle scripts kept =>
      have dooms : ∀ k, Doomed s k → Doomed { s with scripts := scripts } k := by
        rintro k ⟨script, member, purges⟩
        rcases kept script member with rfl | ⟨other, still, more⟩
        · exact purges.elim
        · exact ⟨other, still, (more k).1 purges⟩
      refine ⟨fun k p found => (coherent.entries k p found).imp_right (dooms k), fun l member =>
        (coherent.loads l member).mono (fun _ fine => .inl fine) ?_ (dooms l.key) (Nat.le_refl _)⟩
      rintro ⟨script, listed, guards⟩
      rcases kept script listed with rfl | ⟨other, still, more⟩
      · exact guards.elim
      · exact ⟨other, still, (more l.key).2 guards⟩

theorem Coherent.steps (coherent : Coherent cls good s)
    (steps : Relation.ReflTransGen (Step cls good) s s') : Coherent cls good s' := by
  induction steps with
  | refl => exact coherent
  | tail _ step ih => exact ih.step step

/-- An empty cache is coherent. -/
theorem coherent_of_empty (entries : ∀ k, s.entries k = none) (loads : s.loads = []) :
    Coherent cls good s :=
  ⟨fun k p found => by simp [entries k] at found, fun l member => by simp [loads] at member⟩

/-- **With no script outstanding, every entry is good.** -/
theorem Coherent.good_of_quiet (coherent : Coherent cls good s)
    (quiet : ∀ script ∈ s.scripts, script = []) {k : K} {p : P} (found : s.entries k = some p) :
    good s.source k p := by
  rcases coherent.entries k p found with fine | ⟨script, member, purges⟩
  · exact fine
  · rw [quiet script member] at purges
    exact purges.elim

/-- With no script outstanding, what a load of the current epoch holds is good. -/
theorem Coherent.held_of_quiet (coherent : Coherent cls good s)
    (quiet : ∀ script ∈ s.scripts, script = []) {l : Load K P} (member : l ∈ s.loads)
    (current : l.epoch = s.epoch (cls l.key)) {p : P} (held : l.held = some p) :
    good s.source l.key p := by
  rcases (coherent.loads l member).2 p held with fine | ⟨script, listed, guards⟩ | ⟨stale, -⟩
  · exact fine
  · rw [quiet script listed] at guards
    exact guards.elim
  · exact absurd current stale

end Steps

end EpochCache

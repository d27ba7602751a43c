import ShardDNS.Store.Cache
import ShardDNS.Library.EpochCache

/-!
# The epoch guard of the cache

Any number of loaders and invalidators at work on one cache. A loader reads the epoch,
obtains a value, and calls `Set`, which checks the epoch, takes the lock of the key's
shard, checks the epoch once more and stores. An invalidator (`Delete`, `DeleteGroup`
or `Clear`) advances the epoch and then visits the shards one by one, each under its
lock. The steps are the atomic operations on the epoch and the critical sections; they
interleave in any order. The epoch does not wrap: there are fewer than 2^64 invalidations.

Every stored value is stamped with the times at which its loader read the epoch and
obtained the value. Once an invalidator has returned, every entry under a key it covers
was stored with an epoch that was read after this invalidator had advanced it
(`entry_after_invalidation`). Each invalidator is followed on its own: for one of them
the cache is an epoch-guarded cache whose source changes when the epoch is advanced, and
the others only advance epochs and remove entries (`simulates`).
-/

set_option autoImplicit false

namespace ShardDNS.Cache

open Go

/-! ## Invalidators -/

/-- A call that invalidates. -/
inductive Invalidator where
  | delete (key : Bytes)
  | deleteGroup (group : Bytes)
  | clear

/-- A critical section of an invalidator. -/
inductive Section where
  | deleteKey (key : Bytes)
  | deleteGroupIn (i : ShardIndex) (group : Bytes)
  | clearIn (i : ShardIndex)

namespace Section

def run {V : Type} (cfg : Config) (c : Cache V) : Section → Cache V
  | .deleteKey key => c.deleteKey cfg key
  | .deleteGroupIn i group => c.deleteGroupIn i group
  | .clearIn i => c.clearIn i

/-- The shard whose lock the section takes. -/
def shard (cfg : Config) : Section → ShardIndex
  | .deleteKey key => cfg.shardOf key
  | .deleteGroupIn i _ => i
  | .clearIn i => i

/-- The section removes the entry of a key, for keys that are used with one group. -/
def Removes (cfg : Config) (groupOf : Bytes → Bytes) : Section → Bytes → Prop
  | .deleteKey key, k => k = key
  | .deleteGroupIn i group, k => cfg.shardOf k = i ∧ groupOf k = group
  | .clearIn i, k => cfg.shardOf k = i

end Section

variable {key : Bytes}

namespace Invalidator

/-- The critical sections, in their order; `c.epoch.Add(1)` comes before them. -/
def sections : Invalidator → List Section
  | .delete key => [.deleteKey key]
  | .deleteGroup group => allShards.map (.deleteGroupIn · group)
  | .clear => allShards.map .clearIn

/-- The keys the call is meant for. -/
def Covers (groupOf : Bytes → Bytes) : Invalidator → Bytes → Prop
  | .delete key, k => k = key
  | .deleteGroup group, k => groupOf k = group
  | .clear, _ => True

/-- A key that is covered is removed by one of the sections. -/
theorem exists_section_of_covers (cfg : Config) {groupOf : Bytes → Bytes} {call : Invalidator}
    (covers : call.Covers groupOf key) : ∃ sec ∈ call.sections, sec.Removes cfg groupOf key := by
  cases call with
  | delete key' => exact ⟨.deleteKey key', List.mem_singleton.mpr rfl, covers⟩
  | deleteGroup group =>
      exact ⟨.deleteGroupIn (cfg.shardOf key) group, List.mem_map_of_mem (List.mem_finRange _),
        rfl, covers⟩
  | clear => exact ⟨.clearIn (cfg.shardOf key), List.mem_map_of_mem (List.mem_finRange _), rfl⟩

end Invalidator

/-! ## Loaders -/

/-- A value with the times at which the epoch was read for it and it was obtained. -/
structure Stamped (V : Type) where
  value : V
  readAt : Nat
  loadedAt : Nat

/-- Where a loader stands once it has read the epoch: before it has its value, and in `Set`
before the first check, after it, with the lock taken, and after the second check. -/
inductive LoaderStage (V : Type) where
  | loading
  | called (v : V) (loadedAt : Nat)
  | checked (v : V) (loadedAt : Nat)
  | locked (v : V) (loadedAt : Nat)
  | admitted (v : V) (loadedAt : Nat)

/-- A loader, with the epoch it read and when. -/
structure Loader (V : Type) where
  key : Bytes
  epoch : Nat
  readAt : Nat
  stage : LoaderStage V

/-- The shard whose lock the loader has. -/
def Loader.holds {V : Type} (cfg : Config) (l : Loader V) : Option ShardIndex :=
  match l.stage with
  | .locked _ _ => some (cfg.shardOf l.key)
  | .admitted _ _ => some (cfg.shardOf l.key)
  | _ => none

/-- The time the loader's value was obtained. -/
def Loader.loadedAt {V : Type} (l : Loader V) : Option Nat :=
  match l.stage with
  | .loading => none
  | .called _ loadedAt => some loadedAt
  | .checked _ loadedAt => some loadedAt
  | .locked _ loadedAt => some loadedAt
  | .admitted _ loadedAt => some loadedAt

/-! ## The steps -/

/-- The cache with the calls on it. An invalidator that has advanced the epoch is known
with the time it did and the sections that are left. -/
structure Calls (V I : Type) where
  cache : Cache (Stamped V)
  clock : Nat
  loaders : List (Loader V)
  invalidators : I → Option (Nat × List Section)

namespace Calls

variable {V I : Type}

/-- A new cache, and no call made yet. -/
def start : Calls V I :=
  { cache := .empty, clock := 0, loaders := [], invalidators := fun _ => none }

/-- No loader has the lock of the shard. -/
def Free (s : Calls V I) (cfg : Config) (shard : ShardIndex) : Prop :=
  ∀ l ∈ s.loaders, l.holds cfg ≠ some shard

/-- A step of a call. Every key is used with one group, and `call` tells what each
invalidator is called for. -/
inductive Step [DecidableEq I] (cfg : Config) (groupOf : Bytes → Bytes)
    (call : I → Invalidator) :
    Calls V I → Calls V I → Prop where
  | begin {s : Calls V I} (key : Bytes) :
      Step cfg groupOf call s
        { s with
          clock := s.clock + 1
          loaders := ⟨key, s.cache.epoch, s.clock, .loading⟩ :: s.loaders }
  | load {s : Calls V I} {before after : List (Loader V)} {key : Bytes} {epoch readAt : Nat}
      (place : s.loaders = before ++ ⟨key, epoch, readAt, .loading⟩ :: after) (v : V) :
      Step cfg groupOf call s
        { s with
          clock := s.clock + 1
          loaders := before ++ ⟨key, epoch, readAt, .called v s.clock⟩ :: after }
  | check {s : Calls V I} {before after : List (Loader V)} {key : Bytes} {epoch readAt : Nat}
      {v : V} {loadedAt : Nat}
      (place : s.loaders = before ++ ⟨key, epoch, readAt, .called v loadedAt⟩ :: after)
      (current : s.cache.epoch = epoch) :
      Step cfg groupOf call s
        { s with loaders := before ++ ⟨key, epoch, readAt, .checked v loadedAt⟩ :: after }
  | lock {s : Calls V I} {before after : List (Loader V)} {key : Bytes} {epoch readAt : Nat}
      {v : V} {loadedAt : Nat}
      (place : s.loaders = before ++ ⟨key, epoch, readAt, .checked v loadedAt⟩ :: after)
      (free : s.Free cfg (cfg.shardOf key)) :
      Step cfg groupOf call s
        { s with loaders := before ++ ⟨key, epoch, readAt, .locked v loadedAt⟩ :: after }
  | accept {s : Calls V I} {before after : List (Loader V)} {key : Bytes} {epoch readAt : Nat}
      {v : V} {loadedAt : Nat}
      (place : s.loaders = before ++ ⟨key, epoch, readAt, .locked v loadedAt⟩ :: after)
      (current : s.cache.epoch = epoch) :
      Step cfg groupOf call s
        { s with loaders := before ++ ⟨key, epoch, readAt, .admitted v loadedAt⟩ :: after }
  | store {s : Calls V I} {before after : List (Loader V)} {key : Bytes} {epoch readAt : Nat}
      {v : V} {loadedAt : Nat}
      (place : s.loaders = before ++ ⟨key, epoch, readAt, .admitted v loadedAt⟩ :: after)
      (now : Int) (order : List Bytes) :
      Step cfg groupOf call s
        { s with
          cache := s.cache.put cfg now order key (groupOf key) ⟨v, readAt, loadedAt⟩
          loaders := before ++ after }
  /-- A load fails, or a check does and `Set` returns. -/
  | leave {s : Calls V I} {before after : List (Loader V)} {l : Loader V}
      (place : s.loaders = before ++ l :: after) :
      Step cfg groupOf call s { s with loaders := before ++ after }
  | advance {s : Calls V I} {i : I} (new : s.invalidators i = none) :
      Step cfg groupOf call s
        { s with
          cache := s.cache.bump
          clock := s.clock + 1
          invalidators := Function.update s.invalidators i (some (s.clock, (call i).sections)) }
  | visit {s : Calls V I} {i : I} {bumpedAt : Nat} {sec : Section} {rest : List Section}
      (left : s.invalidators i = some (bumpedAt, sec :: rest)) (free : s.Free cfg (sec.shard cfg)) :
      Step cfg groupOf call s
        { s with
          cache := sec.run cfg s.cache
          invalidators := Function.update s.invalidators i (some (bumpedAt, rest)) }

variable {cfg : Config} {groupOf : Bytes → Bytes} {call : I → Invalidator} {s s' : Calls V I}

/-! ## Stamps and groups -/

/-- Keys have their group, times lie in the past, and values are obtained after the epoch
was read for them. -/
structure Stamps (cfg : Config) (groupOf : Bytes → Bytes) (s : Calls V I) : Prop where
  groups : ∀ key e, s.cache.lookup cfg key = some e → e.group = groupOf key
  entries : ∀ key e, s.cache.lookup cfg key = some e → e.value.readAt < e.value.loadedAt
  started : ∀ l ∈ s.loaders, l.readAt < s.clock
  loaded : ∀ l ∈ s.loaders, ∀ t, l.loadedAt = some t → l.readAt < t
  bumped : ∀ i t left, s.invalidators i = some (t, left) → t < s.clock

theorem stamps_start : (start : Calls V I).Stamps cfg groupOf := by
  refine ⟨?_, ?_, ?_, ?_, ?_⟩
  · intro key e found
    simp [start, Cache.empty, Cache.lookup] at found
  · intro key e found
    simp [start, Cache.empty, Cache.lookup] at found
  · intro l member
    cases member
  · intro l member
    cases member
  · intro i t left found
    cases found

variable {sec : Section} {before after : List (Loader V)}

/-- A section leaves an entry that was there and that it does not remove. -/
theorem lookup_run {c : Cache V} {e : Entry V}
    (groups : ∀ key e, c.lookup cfg key = some e → e.group = groupOf key)
    (found : (sec.run cfg c).lookup cfg key = some e) :
    c.lookup cfg key = some e ∧ ¬ sec.Removes cfg groupOf key := by
  cases sec with
  | deleteKey key' => exact lookup_deleteKey found
  | deleteGroupIn i group =>
      obtain ⟨old, other⟩ := lookup_deleteGroupIn found
      refine ⟨old, fun removed => other ⟨removed.1, ?_⟩⟩
      rw [groups key e old]
      exact removed.2
  | clearIn i => exact lookup_clearIn found

theorem epoch_run (c : Cache V) (sec : Section) : (sec.run cfg c).epoch = c.epoch := by
  cases sec with
  | deleteKey key => rfl
  | deleteGroupIn i group => rfl
  | clearIn i => rfl

/-- A loader that has moved on keeps its stamps in order. -/
theorem Stamps.replace {l l' : Loader V} (stamps : s.Stamps cfg groupOf)
    (place : s.loaders = before ++ l :: after) (read : l'.readAt = l.readAt)
    (loaded : l'.loadedAt = l.loadedAt) :
    Stamps cfg groupOf { s with loaders := before ++ l' :: after } := by
  have here : l ∈ s.loaders := by
    rw [place]
    exact List.mem_append_cons_self
  refine ⟨stamps.groups, stamps.entries, fun other member => ?_, fun other member => ?_,
    stamps.bumped⟩
  · rcases EpochCache.mem_replace l member with rfl | old
    · rw [read]
      exact stamps.started l here
    · rw [← place] at old
      exact stamps.started other old
  · rcases EpochCache.mem_replace l member with rfl | old
    · rw [read, loaded]
      exact stamps.loaded l here
    · rw [← place] at old
      exact stamps.loaded other old

theorem mem_of_mem_rest {l other : Loader V} (place : s.loaders = before ++ l :: after)
    (member : other ∈ before ++ after) : other ∈ s.loaders := by
  rw [place]
  rcases List.mem_append.mp member with early | late
  · exact List.mem_append_left _ early
  · exact List.mem_append_right _ (List.mem_cons_of_mem _ late)

theorem Stamps.step [DecidableEq I] (stamps : s.Stamps cfg groupOf)
    (step : Step cfg groupOf call s s') :
    s'.Stamps cfg groupOf := by
  cases step with
  | begin key =>
      refine ⟨stamps.groups, stamps.entries, fun l member => ?_, fun l member => ?_,
        fun i t left found => Nat.lt_succ_of_lt (stamps.bumped i t left found)⟩
      · rcases List.mem_cons.mp member with rfl | old
        · exact Nat.lt_succ_self _
        · exact Nat.lt_succ_of_lt (stamps.started l old)
      · rcases List.mem_cons.mp member with rfl | old
        · intro t never
          cases never
        · exact stamps.loaded l old
  | @load before after key epoch readAt place v =>
      have here : readAt < s.clock := by
        refine stamps.started ⟨key, epoch, readAt, .loading⟩ ?_
        rw [place]
        exact List.mem_append_cons_self
      refine ⟨stamps.groups, stamps.entries, fun l member => ?_, fun l member => ?_,
        fun i t left found => Nat.lt_succ_of_lt (stamps.bumped i t left found)⟩
      · rcases EpochCache.mem_replace ⟨key, epoch, readAt, .loading⟩ member with rfl | old
        · exact Nat.lt_succ_of_lt here
        · rw [← place] at old
          exact Nat.lt_succ_of_lt (stamps.started l old)
      · rcases EpochCache.mem_replace ⟨key, epoch, readAt, .loading⟩ member with rfl | old
        · rintro t ⟨⟩
          exact here
        · rw [← place] at old
          exact stamps.loaded l old
  | check place current => exact stamps.replace place rfl rfl
  | lock place free => exact stamps.replace place rfl rfl
  | accept place current => exact stamps.replace place rfl rfl
  | @store before after key epoch readAt v loadedAt place now order =>
      have order' : readAt < loadedAt := by
        refine stamps.loaded ⟨key, epoch, readAt, .admitted v loadedAt⟩ ?_ loadedAt rfl
        rw [place]
        exact List.mem_append_cons_self
      refine ⟨fun key' e found => ?_, fun key' e found => ?_,
        fun l member => stamps.started l (mem_of_mem_rest place member),
        fun l member => stamps.loaded l (mem_of_mem_rest place member), stamps.bumped⟩
      · rcases lookup_put found with ⟨rfl, -, group⟩ | ⟨-, old⟩
        · exact group
        · exact stamps.groups key' e old
      · rcases lookup_put found with ⟨rfl, value, -⟩ | ⟨-, old⟩
        · rw [value]
          exact order'
        · exact stamps.entries key' e old
  | leave place =>
      exact ⟨stamps.groups, stamps.entries,
        fun l member => stamps.started l (mem_of_mem_rest place member),
        fun l member => stamps.loaded l (mem_of_mem_rest place member), stamps.bumped⟩
  | @advance i new =>
      refine ⟨stamps.groups, stamps.entries,
        fun l member => Nat.lt_succ_of_lt (stamps.started l member), stamps.loaded,
        fun j t left found => ?_⟩
      dsimp only at found
      by_cases same : j = i
      · subst same
        rw [Function.update_self] at found
        cases found
        exact Nat.lt_succ_self _
      · rw [Function.update_of_ne same] at found
        exact Nat.lt_succ_of_lt (stamps.bumped j t left found)
  | @visit i bumpedAt sec rest left free =>
      refine ⟨fun key e found => ?_, fun key e found => ?_, stamps.started, stamps.loaded,
        fun j t more found => ?_⟩
      · exact stamps.groups key e (lookup_run stamps.groups found).1
      · exact stamps.entries key e (lookup_run stamps.groups found).1
      · dsimp only at found
        by_cases same : j = i
        · subst same
          rw [Function.update_self] at found
          cases found
          exact stamps.bumped j _ _ left
        · rw [Function.update_of_ne same] at found
          exact stamps.bumped j t more found

/-! ## One invalidator among the others -/

/-- A loader as a load of an epoch-guarded cache: it holds the time its epoch was read. -/
def viewOf (l : Loader V) : EpochCache.Load Bytes Nat :=
  { key := l.key
    epoch := l.epoch
    held := some l.readAt
    storing := match l.stage with
      | .admitted _ _ => true
      | _ => false }

/-- The calls as one invalidator sees them, with loads in the place of the loaders: the source
is the time it advanced the epoch, and the sections it has left are the only script. -/
def showing (cfg : Config) (groupOf : Bytes → Bytes) (i : I) (s : Calls V I)
    (loads : List (EpochCache.Load Bytes Nat)) : EpochCache.State (Option Nat) Bytes Unit Nat :=
  { source := (s.invalidators i).map Prod.fst
    entries := fun key => (s.cache.lookup cfg key).map fun e => e.value.readAt
    epoch := fun _ => s.cache.epoch
    loads := loads
    scripts := match s.invalidators i with
      | none => []
      | some (_, left) => [left.map fun sec => .purge (sec.Removes cfg groupOf)] }

def view (cfg : Config) (groupOf : Bytes → Bytes) (i : I) (s : Calls V I) :
    EpochCache.State (Option Nat) Bytes Unit Nat :=
  showing cfg groupOf i s (s.loaders.map viewOf)

/-- The epoch was read after the invalidator advanced it, for a key that it covers. -/
def After (groupOf : Bytes → Bytes) (inv : Invalidator) (bumpedAt : Option Nat) (key : Bytes)
    (readAt : Nat) : Prop :=
  ∀ t, bumpedAt = some t → inv.Covers groupOf key → t < readAt

theorem view_at {l : Loader V} (i : I) (place : s.loaders = before ++ l :: after) :
    view cfg groupOf i s =
      showing cfg groupOf i s (before.map viewOf ++ viewOf l :: after.map viewOf) := by
  rw [view, place, List.map_append, List.map_cons]

/-- While a shard is free no loader is about to store one of its keys. -/
theorem Free.not_storing {shard : ShardIndex} {i : I} (free : s.Free cfg shard)
    {l : EpochCache.Load Bytes Nat} (member : l ∈ (view cfg groupOf i s).loads)
    (storing : l.storing = true) : cfg.shardOf l.key ≠ shard := by
  obtain ⟨⟨key, epoch, readAt, stage⟩, listed, rfl⟩ := List.mem_map.mp member
  intro same
  cases stage with
  | admitted v loadedAt => exact free _ listed (congrArg some same)
  | loading => cases storing
  | called v loadedAt => cases storing
  | checked v loadedAt => cases storing
  | locked v loadedAt => cases storing

/-- A section removes keys of the shard it locks. -/
theorem shardOf_of_removes (removes : sec.Removes cfg groupOf key) :
    cfg.shardOf key = sec.shard cfg := by
  cases sec with
  | deleteKey key' => exact congrArg cfg.shardOf removes
  | deleteGroupIn shard group => exact removes.1
  | clearIn shard => exact removes

/-- What is left after a section was there before, and is not what the section removes. -/
theorem entries_run {i : I} {readAt : Nat}
    (groups : ∀ key e, s.cache.lookup cfg key = some e → e.group = groupOf key)
    (left : ((sec.run cfg s.cache).lookup cfg key).map (fun e => e.value.readAt) = some readAt) :
    (view cfg groupOf i s).entries key = some readAt ∧ ¬ sec.Removes cfg groupOf key := by
  obtain ⟨e, found, rfl⟩ := Option.map_eq_some_iff.mp left
  obtain ⟨old, other⟩ := lookup_run groups found
  exact ⟨Option.map_eq_some_iff.mpr ⟨e, old, rfl⟩, other⟩

/-- The script of a call guards every key the call covers. -/
theorem guards_of_covers {inv : Invalidator} (covers : inv.Covers groupOf key) :
    EpochCache.Guards (fun _ => ()) key
      (.bump () :: inv.sections.map fun sec => .purge (sec.Removes cfg groupOf)) := by
  obtain ⟨sec, member, removes⟩ := Invalidator.exists_section_of_covers cfg covers
  have guards : EpochCache.Guards (fun _ => ()) key
      (.bump () :: (inv.sections.map fun sec => sec.Removes cfg groupOf).map .purge) :=
    EpochCache.guards_bump_purges (List.mem_map_of_mem member) removes
  rwa [List.map_map] at guards

variable [DecidableEq I]

/-- The invalidator's own advance changes the source and runs the bump of the script. -/
theorem simulates_own_advance {i : I} (new : s.invalidators i = none) :
    Relation.ReflTransGen (EpochCache.Step (fun _ => ()) (After groupOf (call i)))
      (view cfg groupOf i s)
      (view cfg groupOf i { s with
        cache := s.cache.bump
        clock := s.clock + 1
        invalidators :=
          Function.update s.invalidators i (some (s.clock, (call i).sections)) }) := by
  have quiet : (view cfg groupOf i s).scripts = [] := by
    simp only [view, showing, new]
  have frame : ∀ key readAt,
      ¬ EpochCache.Guards (fun _ => ()) key
        (.bump () :: (call i).sections.map fun sec => .purge (sec.Removes cfg groupOf)) →
      After groupOf (call i) (view cfg groupOf i s).source key readAt →
      After groupOf (call i) (some s.clock) key readAt :=
    fun key readAt unguarded _ t _ covers => absurd (guards_of_covers covers) unguarded
  have shown : view cfg groupOf i { s with
      cache := s.cache.bump
      clock := s.clock + 1
      invalidators := Function.update s.invalidators i (some (s.clock, (call i).sections)) } =
      { view cfg groupOf i s with
        source := some s.clock
        epoch := fun _ => s.cache.epoch + 1
        scripts := [] ++ ((call i).sections.map fun sec => .purge (sec.Removes cfg groupOf)) ::
          (view cfg groupOf i s).scripts } := by
    simp only [quiet]
    simp only [view, showing, Function.update_self]
    rfl
  rw [shown]
  exact .tail (.single (.change frame))
    (.bump rfl (fun _ => Nat.le_succ _) (Nat.lt_succ_self _))

/-- The invalidator's own section is the next purge of the script. -/
theorem simulates_own_visit {i : I} {bumpedAt : Nat} {rest : List Section}
    (stamps : s.Stamps cfg groupOf) (left : s.invalidators i = some (bumpedAt, sec :: rest))
    (free : s.Free cfg (sec.shard cfg)) :
    Relation.ReflTransGen (EpochCache.Step (fun _ => ()) (After groupOf (call i)))
      (view cfg groupOf i s)
      (view cfg groupOf i { s with
        cache := sec.run cfg s.cache
        invalidators := Function.update s.invalidators i (some (bumpedAt, rest)) }) := by
  have outstanding : (view cfg groupOf i s).scripts =
      [] ++ (.purge (sec.Removes cfg groupOf) ::
        rest.map fun sec => .purge (sec.Removes cfg groupOf)) :: [] := by
    simp only [view, showing, left, List.map_cons, List.nil_append]
  have shown : view cfg groupOf i { s with
      cache := sec.run cfg s.cache
      invalidators := Function.update s.invalidators i (some (bumpedAt, rest)) } =
      { view cfg groupOf i s with
        entries := fun key =>
          ((sec.run cfg s.cache).lookup cfg key).map fun e => e.value.readAt
        scripts := [] ++ (rest.map fun sec => .purge (sec.Removes cfg groupOf)) :: [] } := by
    simp only [view, showing, Function.update_self, left, epoch_run, List.nil_append]
    rfl
  rw [shown]
  refine .single (.purge outstanding ?_ fun key readAt found => entries_run stamps.groups found)
  intro l member storing removes
  exact free.not_storing member storing (shardOf_of_removes removes)

/-- **For one invalidator the calls are steps of an epoch-guarded cache.** -/
theorem simulates (i : I) (stamps : s.Stamps cfg groupOf) (step : Step cfg groupOf call s s') :
    Relation.ReflTransGen (EpochCache.Step (fun _ => ()) (After groupOf (call i)))
      (view cfg groupOf i s) (view cfg groupOf i s') := by
  cases step with
  | begin key =>
      have fresh : After groupOf (call i) ((s.invalidators i).map Prod.fst) key s.clock := by
        intro t advanced _
        obtain ⟨⟨t', left⟩, known, rfl⟩ := Option.map_eq_some_iff.mp advanced
        exact stamps.bumped i t' left known
      -- reading the epoch is the start of a load and its read of the source
      refine .tail (b := showing cfg groupOf i s (⟨key, s.cache.epoch, none, false⟩ ::
        s.loaders.map viewOf)) (.single ?_) ?_
      · exact @EpochCache.Step.start _ _ _ _ _ _ (view cfg groupOf i s) [] _ key rfl
      · exact @EpochCache.Step.read _ _ _ _ _ _ (showing cfg groupOf i s _) [] _
          ⟨key, s.cache.epoch, none, false⟩ s.clock rfl fun _ => fresh
  | load place v =>
      rw [view_at i place, view_at i rfl]
      exact .refl
  | check place current =>
      rw [view_at i place, view_at i rfl]
      exact .refl
  | lock place free =>
      rw [view_at i place, view_at i rfl]
      exact .refl
  | @accept before after key epoch readAt v loadedAt place current =>
      rw [view_at i place, view_at i rfl]
      exact .single (.accept (l := ⟨key, epoch, some readAt, false⟩) rfl current.symm)
  | @store before after key epoch readAt v loadedAt place now order =>
      have stored : ∀ k q,
          ((s.cache.put cfg now order key (groupOf key) ⟨v, readAt, loadedAt⟩).lookup cfg k).map
            (fun e => e.value.readAt) = some q →
          (k = key ∧ q = readAt) ∨ (view cfg groupOf i s).entries k = some q := by
        intro k q found
        obtain ⟨e, present, rfl⟩ := Option.map_eq_some_iff.mp found
        rcases lookup_put present with ⟨rfl, value, -⟩ | ⟨-, old⟩
        · exact .inl ⟨rfl, by rw [value]⟩
        · exact .inr (Option.map_eq_some_iff.mpr ⟨e, old, rfl⟩)
      rw [view_at i place, view, List.map_append]
      refine .tail (.single (.store (l := ⟨key, epoch, some readAt, true⟩) rfl rfl rfl stored)) ?_
      exact .leave rfl
  | leave place =>
      rw [view_at i place, view, List.map_append]
      exact .single (.leave rfl)
  | @advance j new =>
      by_cases own : i = j
      · subst own
        exact simulates_own_advance new
      · -- another invalidator advances the epoch
        have same : view cfg groupOf i { s with
            cache := s.cache.bump
            clock := s.clock + 1
            invalidators := Function.update s.invalidators j (some (s.clock, (call j).sections)) } =
            { view cfg groupOf i s with epoch := fun _ => s.cache.epoch + 1 } := by
          simp only [view, showing, Function.update_of_ne own]
          rfl
        rw [same]
        exact .single (.tick fun _ => Nat.le_succ _)
  | @visit j bumpedAt sec rest left free =>
      by_cases own : i = j
      · subst own
        exact simulates_own_visit stamps left free
      · -- another invalidator removes entries
        have same : view cfg groupOf i { s with
            cache := sec.run cfg s.cache
            invalidators := Function.update s.invalidators j (some (bumpedAt, rest)) } =
            { view cfg groupOf i s with
              entries := fun key =>
                ((sec.run cfg s.cache).lookup cfg key).map fun e => e.value.readAt } := by
          simp only [view, showing, Function.update_of_ne own, epoch_run]
        rw [same]
        exact .single (.evict fun key readAt found => (entries_run stamps.groups found).1)

/-! ## Runs -/

/-- What holds in every state a run reaches: the stamps, and that the cache is coherent as
each invalidator sees it. -/
theorem coherent_of_run (run : Relation.ReflTransGen (Step cfg groupOf call) start s) :
    s.Stamps cfg groupOf ∧
      ∀ i, EpochCache.Coherent (fun _ => ()) (After groupOf (call i)) (view cfg groupOf i s) := by
  induction run with
  | refl =>
      exact ⟨stamps_start, fun i => EpochCache.coherent_of_empty (fun key => rfl) rfl⟩
  | tail _ step ih =>
      exact ⟨ih.1.step step, fun i => (ih.2 i).steps (simulates i ih.1 step)⟩

/-- **Once an invalidator has returned, the entries under the keys it covers come from
loaders that read the epoch after it had advanced it**, and obtained their values later still.
A `Get` finds no other value. -/
theorem entry_after_invalidation
    (run : Relation.ReflTransGen (Step cfg groupOf call) start s) {i : I} {bumpedAt : Nat}
    (returned : s.invalidators i = some (bumpedAt, [])) {key : Bytes}
    (covers : (call i).Covers groupOf key) :
    (∀ e, s.cache.lookup cfg key = some e →
      bumpedAt < e.value.readAt ∧ e.value.readAt < e.value.loadedAt) ∧
    ∀ now v, s.cache.get cfg now key = some v →
      bumpedAt < v.readAt ∧ v.readAt < v.loadedAt := by
  obtain ⟨stamps, coherent⟩ := coherent_of_run run
  have quiet : ∀ script ∈ (view cfg groupOf i s).scripts, script = [] := by
    simp only [view, showing, returned]
    simp
  have entry : ∀ e, s.cache.lookup cfg key = some e →
      bumpedAt < e.value.readAt ∧ e.value.readAt < e.value.loadedAt := by
    intro e found
    have seen : (view cfg groupOf i s).entries key = some e.value.readAt :=
      Option.map_eq_some_iff.mpr ⟨e, found, rfl⟩
    have after := (coherent i).good_of_quiet quiet seen
    refine ⟨after bumpedAt ?_ covers, stamps.entries key e found⟩
    simp only [view, showing, returned, Option.map_some]
  refine ⟨entry, fun now v found => ?_⟩
  obtain ⟨e, stored, rfl⟩ := lookup_of_get found
  exact entry e stored

/-- A `Delete` has returned, a loader has read the epoch since, and its entry is there. -/
theorem entry_after_delete :
    let cfg : Config := .new 64 0 firstShard
    ∃ (s : Calls Unit Unit) (e : Entry (Stamped Unit)),
      Relation.ReflTransGen (Step cfg (fun _ => []) fun _ => .delete [107]) start s ∧
      s.invalidators () = some (0, []) ∧
      s.cache.lookup cfg [107] = some e ∧
      0 < e.value.readAt ∧ e.value.readAt < e.value.loadedAt := by
  intro cfg
  have front : ∀ loaders : List (Loader Unit), loaders = [] ++ loaders := fun _ => rfl
  have deleted : Relation.ReflTransGen (Step cfg (fun _ => []) fun _ => .delete [107])
      (start : Calls Unit Unit) _ :=
    (Relation.ReflTransGen.refl.tail (.advance (i := ()) rfl)).tail
      (@Step.visit _ _ _ _ _ _ _ () 0 (.deleteKey [107]) [] rfl fun l member => by cases member)
  have loaded := ((deleted.tail (.begin [107])).tail (.load (front _) ())).tail
    (.check (front _) rfl)
  have locked := loaded.tail (.lock (front _) fun l member => by
    cases List.mem_singleton.mp member
    simp [Loader.holds])
  have run := (locked.tail (.accept (front _) rfl)).tail (.store (front _) 0 [])
  refine ⟨_, ⟨⟨(), 1, 2⟩, [], 2 ^ 63 - 1⟩, run, rfl, rfl, ?_⟩
  exact (entry_after_invalidation run (i := ()) rfl rfl).1 _ rfl

end Calls

end ShardDNS.Cache

import ShardDNS.Go.Map
import ShardDNS.Go.Strings

/-!
# The sharded cache

Entries are spread over shards by a hash of their key. Every invalidation first
advances the cache's epoch and then removes entries shard by shard; `Set` stores a
value only if the epoch is still the one its caller read before it obtained the value.
The epoch is a natural number here and 64 bits wide in the source: it does not wrap as long as
there are fewer than 2^64 invalidations.

The functions here are the critical sections and the atomic epoch operations that
the methods of the cache are made of. What each leaves under a key is stated through
`lookup`, the entry a key has in its shard.
-/

set_option autoImplicit false

namespace ShardDNS

open Go

namespace Cache

def shardCount : Nat := 64

/-- An index of a shard. -/
abbrev ShardIndex := Fin shardCount

/-- The shards in the order the loops over them visit. -/
def allShards : List ShardIndex := List.finRange shardCount

/-- A hash that takes every key to the first shard. -/
def firstShard : Bytes → ShardIndex := fun _ => ⟨0, by decide⟩

structure Entry (V : Type) where
  value : V
  group : Bytes
  expires : Int

/-- What a cache is created with, and the hash its seed selects. -/
structure Config where
  perShard : Nat
  ttl : Int
  shardOf : Bytes → ShardIndex

/-- The configuration of `New(maxEntries, ttl)`. -/
def Config.new (maxEntries : Nat) (ttl : Int) (shardOf : Bytes → ShardIndex) : Config :=
  { perShard := max (maxEntries / shardCount) 1, ttl := ttl, shardOf := shardOf }

end Cache

open Cache in
/-- `Cache`, without its counters of hits and misses. -/
structure Cache (V : Type) where
  shards : ShardIndex → Map Bytes (Entry V)
  epoch : Nat

namespace Cache

variable {V : Type}

def empty : Cache V := { shards := fun _ => Map.empty, epoch := 0 }

/-- The entry of a key in its shard, expired or not. -/
def lookup (c : Cache V) (cfg : Config) (key : Bytes) : Option (Entry V) :=
  (c.shards (cfg.shardOf key)).get key

/-- `Get`, at a time. -/
def get (c : Cache V) (cfg : Config) (now : Int) (key : Bytes) : Option V :=
  match c.lookup cfg key with
  | some e => if now < e.expires then some e.value else none
  | none => none

/-- A critical section on one shard. -/
def onShard (c : Cache V) (i : ShardIndex) (f : Map Bytes (Entry V) → Map Bytes (Entry V)) :
    Cache V :=
  { c with shards := Function.update c.shards i (f (c.shards i)) }

/-- `c.epoch.Add(1)`. -/
def bump (c : Cache V) : Cache V := { c with epoch := c.epoch + 1 }

/-- `delete(s.m, key)`, on the shard of the key. -/
def deleteKey (c : Cache V) (cfg : Config) (key : Bytes) : Cache V :=
  c.onShard (cfg.shardOf key) fun m => m.delete key

/-- The deletions of `DeleteGroup` in one shard. -/
def deleteGroupIn (c : Cache V) (i : ShardIndex) (group : Bytes) : Cache V :=
  c.onShard i fun m => m.filter fun _ e => e.group ≠ group

/-- `clear(s.m)`, for one shard. -/
def clearIn (c : Cache V) (i : ShardIndex) : Cache V := c.onShard i fun _ => Map.empty

/-- The second loop of `evict`, over the keys in the order the runtime gives them. -/
def evictLoop (perShard : Nat) : List Bytes → Map Bytes (Entry V) → Map Bytes (Entry V)
  | [], m => m
  | k :: ks, m => if m.len < perShard then m else evictLoop perShard ks (m.delete k)

/-- `evict`. -/
def evict (perShard : Nat) (now : Int) (order : List Bytes) (m : Map Bytes (Entry V)) :
    Map Bytes (Entry V) :=
  evictLoop perShard order (m.filter fun _ e => now < e.expires)

/-- A sum of two `int64` wraps around. -/
def addInt64 (a b : Int) : Int := (a + b).bmod (2 ^ 64)

/-- What `Set` does under the lock, once both its checks of the epoch have passed. -/
def put (c : Cache V) (cfg : Config) (now : Int) (order : List Bytes) (key group : Bytes)
    (value : V) : Cache V :=
  c.onShard (cfg.shardOf key) fun m =>
    let m := if m.get key = none ∧ cfg.perShard ≤ m.len then evict cfg.perShard now order m else m
    let expires := if 0 < cfg.ttl then addInt64 now cfg.ttl else 2 ^ 63 - 1
    m.set key { value := value, group := group, expires := expires }

/-! ## What is left under a key -/

variable {c : Cache V} {cfg : Config} {key key' group : Bytes} {e : Entry V}

/-- A value that `Get` returns is that of an entry. -/
theorem lookup_of_get {now : Int} {v : V} (hit : c.get cfg now key = some v) :
    ∃ e, c.lookup cfg key = some e ∧ e.value = v := by
  unfold get at hit
  cases found : c.lookup cfg key with
  | none => simp [found] at hit
  | some e =>
      simp only [found, Option.ite_none_right_eq_some, Option.some.injEq] at hit
      exact ⟨e, rfl, hit.2⟩

theorem lookup_onShard_of_ne {i : ShardIndex} {f : Map Bytes (Entry V) → Map Bytes (Entry V)}
    (other : cfg.shardOf key ≠ i) : (c.onShard i f).lookup cfg key = c.lookup cfg key := by
  simp [lookup, onShard, Function.update_of_ne other]

theorem lookup_onShard_self {f : Map Bytes (Entry V) → Map Bytes (Entry V)} :
    (c.onShard (cfg.shardOf key) f).lookup cfg key =
      (f (c.shards (cfg.shardOf key))).get key := by
  simp [lookup, onShard]

theorem lookup_deleteKey (left : (c.deleteKey cfg key').lookup cfg key = some e) :
    c.lookup cfg key = some e ∧ key ≠ key' := by
  unfold deleteKey at left
  by_cases same : cfg.shardOf key = cfg.shardOf key'
  · rw [← same, lookup_onShard_self, Map.get_delete_eq_some_iff] at left
    exact left
  · rw [lookup_onShard_of_ne same] at left
    refine ⟨left, ?_⟩
    rintro rfl
    exact same rfl

theorem lookup_deleteGroupIn {i : ShardIndex}
    (left : (c.deleteGroupIn i group).lookup cfg key = some e) :
    c.lookup cfg key = some e ∧ ¬ (cfg.shardOf key = i ∧ e.group = group) := by
  unfold deleteGroupIn at left
  by_cases same : cfg.shardOf key = i
  · subst same
    rw [lookup_onShard_self, Map.get_filter_eq_some_iff, decide_eq_true_eq] at left
    exact ⟨left.1, fun hit => left.2 hit.2⟩
  · rw [lookup_onShard_of_ne same] at left
    exact ⟨left, fun hit => same hit.1⟩

theorem lookup_clearIn {i : ShardIndex} (left : (c.clearIn i).lookup cfg key = some e) :
    c.lookup cfg key = some e ∧ cfg.shardOf key ≠ i := by
  unfold clearIn at left
  by_cases same : cfg.shardOf key = i
  · subst same
    rw [lookup_onShard_self, Map.get_empty] at left
    cases left
  · rw [lookup_onShard_of_ne same] at left
    exact ⟨left, same⟩

/-- Eviction only removes. -/
theorem get_evictLoop {perShard : Nat} {order : List Bytes} {m : Map Bytes (Entry V)}
    (left : (evictLoop perShard order m).get key = some e) : m.get key = some e := by
  induction order generalizing m with
  | nil => exact left
  | cons k ks ih =>
      unfold evictLoop at left
      split at left
      · exact left
      · exact (Map.get_delete_eq_some_iff.mp (ih left)).1

theorem get_evict {perShard : Nat} {now : Int} {order : List Bytes} {m : Map Bytes (Entry V)}
    (left : (evict perShard now order m).get key = some e) : m.get key = some e :=
  (Map.get_filter_eq_some_iff.mp (get_evictLoop left)).1

/-- After `Set` a key has the value stored, or what it had before. -/
theorem lookup_put {now : Int} {order : List Bytes} {value : V}
    (left : (c.put cfg now order key' group value).lookup cfg key = some e) :
    (key = key' ∧ e.value = value ∧ e.group = group) ∨
      (key ≠ key' ∧ c.lookup cfg key = some e) := by
  unfold put at left
  by_cases same : cfg.shardOf key = cfg.shardOf key'
  · rw [← same, lookup_onShard_self] at left
    dsimp only at left
    rw [Map.get_set_eq_some_iff] at left
    rcases left with ⟨rfl, rfl⟩ | ⟨other, kept⟩
    · exact .inl ⟨rfl, rfl, rfl⟩
    · refine .inr ⟨other, ?_⟩
      split at kept
      · exact get_evict kept
      · exact kept
  · rw [lookup_onShard_of_ne same] at left
    refine .inr ⟨?_, left⟩
    rintro rfl
    exact same rfl

end Cache

end ShardDNS

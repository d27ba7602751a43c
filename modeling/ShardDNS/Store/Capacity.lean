import ShardDNS.Store.EpochGuard
import Mathlib.Algebra.Order.BigOperators.Group.List
import Mathlib.Data.Nat.Cast.Basic

/-!
# The size of the cache

The calls on the cache are made of atomic operations on the epoch and of critical sections,
each on one shard (`Access`). The accesses of any number of calls follow one another in any
order, so every list of them is a run. The second loop of `evict` ranges over the entries
that its first loop has left, in whatever order the runtime gives them (`Ranges`). The
second check of the epoch in `Set` is taken together with the storing: an epoch advanced
between the two is one advanced right after them, as both work under the lock of the shard.

No shard ever holds more than its share of entries (`len_le_of_reachable`), and `Len`, which
reads one shard after the other while others write, never counts more than all shards may hold
(`count_le`). `Set` stores its value, and removes others only to make room for it
(`stores_put`).
-/

set_option autoImplicit false

namespace ShardDNS.Cache

open Go

variable {V : Type}

/-! ## Eviction -/

/-- The entries of a shard that have not expired. -/
def live (m : Map Bytes (Entry V)) (now : Int) : Map Bytes (Entry V) :=
  m.filter fun _ e => now < e.expires

/-- An order the second loop of `evict` may range in: over what the first has left. -/
def Ranges (order : List Bytes) (m : Map Bytes (Entry V)) (now : Int) : Prop :=
  order.Perm (live m now).keys

variable {m : Map Bytes (Entry V)} {order : List Bytes}

/-- A key that is deleted is not ranged over again. -/
theorem perm_keys_delete {k : Bytes} {ks : List Bytes} (order : (k :: ks).Perm m.keys) :
    ks.Perm (m.delete k).keys := by
  have distinct : (k :: ks).Nodup := order.nodup_iff.mpr m.distinct
  have rest : (k :: ks).filter (· ≠ k) = ks := by
    rw [List.filter_cons_of_neg (by simp), List.filter_eq_self]
    intro k' member
    rw [decide_eq_true_eq]
    rintro rfl
    exact (List.nodup_cons.mp distinct).1 member
  rw [Map.keys_delete, ← rest]
  exact order.filter _

/-- **The loop stops as soon as there is room for one.** -/
theorem len_evictLoop {perShard : Nat} (positive : 0 < perShard) (ranges : order.Perm m.keys) :
    (evictLoop perShard order m).len = min m.len (perShard - 1) := by
  induction order generalizing m with
  | nil =>
      have empty : m.len = 0 := by
        rw [← Map.length_keys, ← ranges.length_eq, List.length_nil]
      rw [evictLoop, empty, Nat.zero_min]
  | cons k ks ih =>
      unfold evictLoop
      split
      · omega
      · have there : m.get k ≠ none :=
          Map.mem_keys_iff.mp (ranges.subset List.mem_cons_self)
        have size := Map.len_delete_of_get there
        rw [ih (perm_keys_delete ranges)]
        omega

theorem len_evict {perShard : Nat} (positive : 0 < perShard) {now : Int}
    (ranges : Ranges order m now) :
    (evict perShard now order m).len = min (live m now).len (perShard - 1) :=
  len_evictLoop positive ranges

/-- What is left has not expired. -/
theorem get_live_of_evict {perShard : Nat} {now : Int} {key : Bytes} {e : Entry V}
    (left : (evict perShard now order m).get key = some e) :
    m.get key = some e ∧ now < e.expires := by
  have kept := Map.get_filter_eq_some_iff.mp (get_evictLoop left)
  exact ⟨kept.1, by simpa using kept.2⟩

/-! ## Storing -/

variable {cfg : Config} {c : Cache V} {now : Int} {order : List Bytes} {key group : Bytes}
  {value : V}

/-- What `Set` may do to the cache, once its checks of the epoch have passed. -/
structure Stores (cfg : Config) (now : Int) (key group : Bytes) (value : V) (c c' : Cache V) :
    Prop where
  /-- The key has the value. -/
  present : ∃ e, c'.lookup cfg key = some e ∧ e.value = value ∧ e.group = group
  /-- The other shards are left alone. -/
  elsewhere : ∀ i, i ≠ cfg.shardOf key → c'.shards i = c.shards i
  /-- Overwriting removes nothing, and neither does inserting into a shard with room. -/
  unevicted : (c.lookup cfg key ≠ none ∨ (c.shards (cfg.shardOf key)).len < cfg.perShard) →
    ∀ k, k ≠ key → (c'.shards (cfg.shardOf key)).get k = (c.shards (cfg.shardOf key)).get k
  /-- Inserting into a full shard changes no entry that it leaves, and leaves none that has
  expired. -/
  unexpired : c.lookup cfg key = none → cfg.perShard ≤ (c.shards (cfg.shardOf key)).len →
    ∀ k e, k ≠ key → (c'.shards (cfg.shardOf key)).get k = some e →
      (c.shards (cfg.shardOf key)).get k = some e ∧ now < e.expires
  /-- Of the others it removes what it takes to have room for one. -/
  room : c.lookup cfg key = none → cfg.perShard ≤ (c.shards (cfg.shardOf key)).len →
    (c'.shards (cfg.shardOf key)).len =
      min (live (c.shards (cfg.shardOf key)) now).len (cfg.perShard - 1) + 1

variable (cfg c now order key group value) in
/-- The shard of the key after `Set`, from the shard without what was evicted. -/
theorem shard_put :
    ∃ e : Entry V, e.value = value ∧ e.group = group ∧
      (c.put cfg now order key group value).shards (cfg.shardOf key) =
        (if c.lookup cfg key = none ∧ cfg.perShard ≤ (c.shards (cfg.shardOf key)).len then
          evict cfg.perShard now order (c.shards (cfg.shardOf key))
        else c.shards (cfg.shardOf key)).set key e :=
  ⟨_, rfl, rfl, Function.update_self ..⟩

theorem get_set_of_ne {k : Bytes} {e : Entry V} (other : k ≠ key) :
    (m.set key e).get k = m.get k := by
  refine Option.ext fun e' => ?_
  rw [Map.get_set_eq_some_iff]
  simp [other]

variable (group value) in
/-- **`Set` stores its value, and evicts only to make room for it.** -/
theorem stores_put (positive : 0 < cfg.perShard)
    (ranges : Ranges order (c.shards (cfg.shardOf key)) now) :
    Stores cfg now key group value c (c.put cfg now order key group value) := by
  obtain ⟨e, sameValue, sameGroup, shard⟩ :=
    shard_put cfg c now order key group value
  refine ⟨⟨e, ?_, sameValue, sameGroup⟩, fun i other => ?_, fun kept k other => ?_,
    fun absent full k e' other left => ?_, fun absent full => ?_⟩
  · rw [lookup, shard]
    exact Map.get_set_eq_some_iff.mpr (.inl ⟨rfl, rfl⟩)
  · exact Function.update_of_ne other _ _
  · have stays : ¬ (c.lookup cfg key = none ∧ cfg.perShard ≤ (c.shards (cfg.shardOf key)).len) := by
      rintro ⟨absent, full⟩
      exact kept.elim (fun there => there absent) fun room => Nat.not_lt.mpr full room
    rw [shard, if_neg stays, get_set_of_ne other]
  · rw [shard, if_pos ⟨absent, full⟩, get_set_of_ne other] at left
    exact get_live_of_evict left
  · rw [shard, if_pos ⟨absent, full⟩, Map.len_set, Map.len_delete_of_get_none,
      len_evict positive ranges]
    rw [Option.eq_none_iff_forall_ne_some]
    intro e' left
    have old := (get_live_of_evict left).1
    rw [lookup] at absent
    rw [absent] at old
    cases old

/-- After `Set` the shard is within its share, if it was. -/
theorem len_put (positive : 0 < cfg.perShard)
    (ranges : Ranges order (c.shards (cfg.shardOf key)) now) (i : ShardIndex)
    (within : (c.shards i).len ≤ cfg.perShard) :
    ((c.put cfg now order key group value).shards i).len ≤ cfg.perShard := by
  have stores := stores_put group value positive ranges
  by_cases here : i = cfg.shardOf key
  · subst here
    obtain ⟨e, -, -, shard⟩ :=
      shard_put cfg c now order key group value
    by_cases absent : c.lookup cfg key = none
    · by_cases full : cfg.perShard ≤ (c.shards (cfg.shardOf key)).len
      · rw [stores.room absent full]
        omega
      · rw [shard, if_neg fun both => full both.2, Map.len_set, Map.len_delete_of_get_none absent]
        omega
    · rw [shard, if_neg fun both => absent both.1, Map.len_set, Map.len_delete_of_get absent]
      exact within
  · rw [stores.elsewhere i here]
    exact within

/-! ## Runs -/

/-- An atomic operation on the epoch, or a critical section of a call. `Get` and `Len` only
read; `Set` goes on to its critical section with the time it has read before. -/
inductive Access (V : Type) where
  | read
  | set (epoch : Nat) (now : Int) (order : List Bytes) (key group : Bytes) (value : V)
  | advance
  | remove (sec : Section)

namespace Access

def run (cfg : Config) (c : Cache V) : Access V → Cache V
  | .read => c
  | .set epoch now order key group value =>
      if c.epoch = epoch then c.put cfg now order key group value else c
  | .advance => c.bump
  | .remove sec => sec.run cfg c

/-- An eviction ranges over the shard as it is. -/
def Allowed (cfg : Config) (c : Cache V) : Access V → Prop
  | .set _ now order key _ _ => Ranges order (c.shards (cfg.shardOf key)) now
  | _ => True

end Access

/-- The caches that accesses lead to, from an empty one. -/
inductive Reachable (cfg : Config) : Cache V → Prop where
  | new : Reachable cfg .empty
  | step {c : Cache V} (before : Reachable cfg c) (access : Access V)
      (allowed : access.Allowed cfg c) :
      Reachable cfg (access.run cfg c)

/-- A critical section of an invalidator adds nothing to a shard. -/
theorem len_section_le (sec : Section) (i : ShardIndex) :
    ((sec.run cfg c).shards i).len ≤ (c.shards i).len := by
  have smaller : ∀ (j : ShardIndex) (f : Map Bytes (Entry V) → Map Bytes (Entry V)),
      (∀ m, (f m).len ≤ m.len) → ((c.onShard j f).shards i).len ≤ (c.shards i).len := by
    intro j f fewer
    by_cases here : i = j
    · subst here
      simp only [onShard, Function.update_self]
      exact fewer _
    · simp only [onShard, Function.update_of_ne here, le_refl]
  cases sec with
  | deleteKey key => exact smaller _ _ fun m => Map.len_filter_le m _
  | deleteGroupIn j group => exact smaller _ _ fun m => Map.len_filter_le m _
  | clearIn j => exact smaller j (fun _ => Map.empty) fun m => Nat.zero_le _

/-- An access leaves every shard within its share. -/
theorem len_access_le (positive : 0 < cfg.perShard) {access : Access V}
    (allowed : access.Allowed cfg c) (within : ∀ i, (c.shards i).len ≤ cfg.perShard)
    (i : ShardIndex) : ((access.run cfg c).shards i).len ≤ cfg.perShard := by
  cases access with
  | read => exact within i
  | set epoch now order key group value =>
      rw [Access.run]
      split
      · exact len_put positive allowed i (within i)
      · exact within i
  | advance => exact within i
  | remove sec => exact (len_section_le sec i).trans (within i)

/-- **No shard ever holds more than its share.** -/
theorem len_le_of_reachable (positive : 0 < cfg.perShard) (reached : Reachable cfg c)
    (i : ShardIndex) : (c.shards i).len ≤ cfg.perShard := by
  induction reached generalizing i with
  | new => exact Nat.zero_le _
  | step before access allowed ih => exact len_access_le positive allowed ih i

/-- `Len`: every shard is counted in the cache as it is when its lock is taken. -/
def count (seen : ShardIndex → Cache V) : Nat :=
  (allShards.map fun i => ((seen i).shards i).len).sum

theorem count_le (positive : 0 < cfg.perShard) {seen : ShardIndex → Cache V}
    (reached : ∀ i, Reachable cfg (seen i)) : count seen ≤ shardCount * cfg.perShard := by
  have each : ∀ n ∈ allShards.map fun i => ((seen i).shards i).len, n ≤ cfg.perShard := by
    intro n member
    obtain ⟨i, -, rfl⟩ := List.mem_map.mp member
    exact len_le_of_reachable positive (reached i) i
  have total := List.sum_le_card_nsmul _ _ each
  rwa [List.length_map, allShards, List.length_finRange, nsmul_eq_mul, Nat.cast_id] at total

theorem perShard_new_pos (maxEntries : Nat) (ttl : Int) (shardOf : Bytes → ShardIndex) :
    0 < (Config.new maxEntries ttl shardOf).perShard :=
  Nat.lt_of_lt_of_le Nat.zero_lt_one (Nat.le_max_right _ _)

/-- **The cache is bounded, and never at the price of the entry just stored.** Along all runs
a shard holds at most its share of the entries, `Len` counts at most as many as the cache was
made for, or one a shard; and `Set` with the current epoch does what `Stores` says. -/
theorem bounded_keeping_new (maxEntries : Nat) (ttl : Int) (shardOf : Bytes → ShardIndex) :
    (∀ c : Cache V, Reachable (.new maxEntries ttl shardOf) c →
      ∀ i, (c.shards i).len ≤ max 1 (maxEntries / 64)) ∧
    (∀ seen : ShardIndex → Cache V, (∀ i, Reachable (.new maxEntries ttl shardOf) (seen i)) →
      count seen ≤ max 64 maxEntries) ∧
    ∀ c : Cache V, Reachable (.new maxEntries ttl shardOf) c →
      ∀ (now : Int) (order : List Bytes) (key group : Bytes) (value : V),
        Ranges order (c.shards (shardOf key)) now →
        Stores (.new maxEntries ttl shardOf) now key group value c
          ((Access.set c.epoch now order key group value).run (.new maxEntries ttl shardOf) c) := by
  have positive := perShard_new_pos maxEntries ttl shardOf
  have share : (Config.new maxEntries ttl shardOf).perShard = max 1 (maxEntries / 64) :=
    Nat.max_comm _ _
  refine ⟨fun c reached i => ?_, fun seen reached => ?_,
    fun c reached now order key group value ranges => ?_⟩
  · rw [← share]
    exact len_le_of_reachable positive reached i
  · have total := count_le positive reached
    have whole : maxEntries / 64 * 64 ≤ maxEntries := Nat.div_mul_le_self _ _
    rw [share, shardCount] at total
    omega
  · rw [Access.run, if_pos rfl]
    exact stores_put group value positive ranges

end ShardDNS.Cache

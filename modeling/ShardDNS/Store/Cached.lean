import ShardDNS.Library.EpochCache
import ShardDNS.Store.Cache
import ShardDNS.Store.Database

/-!
# The cached resolver

Two caches stand in front of the database: one for the zones of question names, one
for the names of zones. What is asked of them is a `Key`. `invalidate` is the list of
operations that `Invalidate` makes on the caches, each of them atomic; between them
anything may happen.

What is cached carries the number of commits the database had seen when it was asked
(`readAt`), which no function looks at.

Every key that `Invalidate` is meant for is guarded by its operations: an epoch is
advanced before the key is removed (`guards_invalidate`).
-/

set_option autoImplicit false

namespace ShardDNS.Store

open Go LabelTree Cache

/-! ## Keys -/

/-- A name of a zone that is asked about. The database takes no zero byte in a text, so a
query for a zone with one fails and nothing is cached for it. -/
structure NameKey where
  zone : Bytes
  name : Bytes
  clean : (0 : UInt8) ∉ zone
  inside : inZone name zone = true
  deriving DecidableEq

/-- What is asked of the resolver: the zone of a question name, or a name of a zone. -/
inductive Key where
  | zone (qname : Bytes)
  | name (k : NameKey)
  deriving DecidableEq

/-- The two caches. -/
inductive Which where
  | zones
  | names
  deriving DecidableEq

/-- `zone + "\\x00" + name`. -/
def nameKey (zone name : Bytes) : Bytes := zone ++ 0 :: name

variable {name : Bytes} {k : Key}

theorem nameKey_inj {zone zone' name' : Bytes} (clean : (0 : UInt8) ∉ zone)
    (clean' : (0 : UInt8) ∉ zone') (same : nameKey zone name = nameKey zone' name') :
    zone = zone' ∧ name = name' := by
  rcases List.append_eq_append_iff.mp same with ⟨rest, rfl, split⟩ | ⟨rest, rfl, split⟩
  · cases rest with
    | nil => simpa using split
    | cons b rest =>
        rw [List.cons_append, List.cons.injEq] at split
        exact absurd (by simp [← split.1]) clean'
  · cases rest with
    | nil => simpa [eq_comm] using split
    | cons b rest =>
        rw [List.cons_append, List.cons.injEq] at split
        exact absurd (by simp [← split.1]) clean

namespace Key

def which : Key → Which
  | .zone _ => .zones
  | .name _ => .names

/-- The key's text in its cache. -/
def text : Key → Bytes
  | .zone qname => qname
  | .name k => nameKey k.zone k.name

/-- The group its entry is stored with. -/
def group : Key → Bytes
  | .zone _ => []
  | .name k => k.zone

/-- In one cache a text belongs to one key. -/
theorem eq_of_text {k' : Key} (same : k.which = k'.which) (text : k.text = k'.text) : k = k' := by
  cases k with
  | zone qname =>
      cases k' with
      | zone qname' => exact congrArg _ text
      | name k' => cases same
  | name k =>
      cases k' with
      | zone qname' => cases same
      | name k' =>
          obtain ⟨zone, name⟩ := nameKey_inj k.clean k'.clean text
          cases k
          cases k'
          cases zone
          cases name
          rfl

end Key

/-! ## The caches -/

/-- A value and the number of commits at the time of its first query. -/
structure Reading (V : Type) where
  value : V
  readAt : Nat

/-- What the resolver answers. A zone that was not found is answered by none. -/
inductive Answer where
  | zone (found : Option Zone)
  | name (set : NameSet)
  deriving DecidableEq

/-- The configurations of the two caches. -/
structure Configs where
  zones : Config
  names : Config

/-- The configurations of `NewCachedResolver(next, maxEntries, ttl)`. -/
def Configs.new (maxEntries : Nat) (ttl : Int) (zoneShard nameShard : Bytes → ShardIndex) :
    Configs :=
  { zones := Config.new (maxEntries / 8 + 64) ttl zoneShard
    names := Config.new maxEntries ttl nameShard }

def Configs.of (cfg : Configs) : Which → Config
  | .zones => cfg.zones
  | .names => cfg.names

structure CachedResolver where
  zones : Cache (Reading (Option Zone))
  names : Cache (Reading NameSet)

namespace CachedResolver

def empty : CachedResolver := { zones := Cache.empty, names := Cache.empty }

def epoch (c : CachedResolver) : Which → Nat
  | .zones => c.zones.epoch
  | .names => c.names.epoch

/-- The answer cached for a key, expired or not, and when it was read. -/
def entry (c : CachedResolver) (cfg : Configs) : Key → Option (Answer × Nat)
  | .zone qname => (c.zones.lookup cfg.zones qname).map fun e =>
    (.zone e.value.value, e.value.readAt)
  | .name k =>
      (c.names.lookup cfg.names (nameKey k.zone k.name)).map fun e =>
        (.name e.value.value, e.value.readAt)

/-- `Get`, for a key and at a time. -/
def get (c : CachedResolver) (cfg : Configs) (now : Int) : Key → Option (Answer × Nat)
  | .zone qname => (c.zones.get cfg.zones now qname).map fun r => (.zone r.value, r.readAt)
  | .name k =>
      (c.names.get cfg.names now (nameKey k.zone k.name)).map fun r => (.name r.value, r.readAt)

/-- What `Set` does for a key once its checks have passed. The answer to a key is of its
kind; the other cases do not arise. -/
def put (c : CachedResolver) (cfg : Configs) (now : Int) (order : List Bytes) (readAt : Nat) :
    Key → Answer → CachedResolver
  | .zone qname, .zone found =>
      { c with zones := c.zones.put cfg.zones now order qname [] ⟨found, readAt⟩ }
  | .name k, .name set =>
      { c with
        names := c.names.put cfg.names now order (nameKey k.zone k.name) k.zone ⟨set, readAt⟩ }
  | _, _ => c

end CachedResolver

/-! ## Invalidation -/

/-- An atomic operation on the caches: an epoch advanced, or deletions in one shard. -/
inductive CacheOp where
  | bump (which : Which)
  | clear (which : Which) (i : ShardIndex)
  | deleteGroup (i : ShardIndex) (group : Bytes)
  | deleteName (key : Bytes)

namespace CacheOp

def run (cfg : Configs) (c : CachedResolver) : CacheOp → CachedResolver
  | .bump .zones => { c with zones := c.zones.bump }
  | .bump .names => { c with names := c.names.bump }
  | .clear .zones i => { c with zones := c.zones.clearIn i }
  | .clear .names i => { c with names := c.names.clearIn i }
  | .deleteGroup i group => { c with names := c.names.deleteGroupIn i group }
  | .deleteName key => { c with names := c.names.deleteKey cfg.names key }

/-- The operation removes the entry of a key. -/
def Removes (cfg : Configs) : CacheOp → Key → Prop
  | .bump _, _ => False
  | .clear which i, k => k.which = which ∧ (cfg.of which).shardOf k.text = i
  | .deleteGroup i group, k =>
      k.which = .names ∧ cfg.names.shardOf k.text = i ∧ k.group = group
  | .deleteName key, k => k.which = .names ∧ k.text = key

/-- The shard whose lock the operation takes. -/
def shard (cfg : Configs) : CacheOp → Option (Which × ShardIndex)
  | .bump _ => none
  | .clear which i => some (which, i)
  | .deleteGroup i _ => some (.names, i)
  | .deleteName key => some (.names, cfg.names.shardOf key)

/-- The shard of a key, in its cache. -/
def shardOfKey (cfg : Configs) (k : Key) : Which × ShardIndex :=
  (k.which, (cfg.of k.which).shardOf k.text)

theorem shard_of_removes {cfg : Configs} {op : CacheOp} (removes : op.Removes cfg k) :
    op.shard cfg = some (shardOfKey cfg k) := by
  cases op with
  | bump which => exact removes.elim
  | clear which i =>
      obtain ⟨rfl, rfl⟩ := removes
      rfl
  | deleteGroup i group =>
      obtain ⟨names, rfl, -⟩ := removes
      rw [shard, shardOfKey, names, Configs.of]
  | deleteName key =>
      obtain ⟨names, rfl⟩ := removes
      rw [shard, shardOfKey, names, Configs.of]

end CacheOp

/-- `Clear`, on one of the caches. -/
def clearOps (which : Which) : List CacheOp := .bump which :: allShards.map (.clear which)

/-- `DeleteGroup`, on the names. -/
def deleteGroupOps (group : Bytes) : List CacheOp :=
  .bump .names :: allShards.map (.deleteGroup · group)

/-- `Delete`, on the names. -/
def deleteOps (key : Bytes) : List CacheOp := [.bump .names, .deleteName key]

/-- The loop of `Invalidate` over a name and its ancestors up to the zone. -/
def deleteLoop (zone : Bytes) : Nat → Bytes → List CacheOp
  | 0, _ => []
  | fuel + 1, name =>
      deleteOps (nameKey zone name) ++
        if name = zone then []
        else
          match indexByte name dot with
          | none => []
          | some i => deleteLoop zone fuel (name.drop (i + 1))

/-- `Invalidate`. -/
def invalidate (zone name : Bytes) : List CacheOp :=
  clearOps .zones ++
    if name = [] then deleteGroupOps zone else deleteLoop zone (name.length + 1) name

/-- `InvalidateAll`. -/
def invalidateAll : List CacheOp := clearOps .zones ++ clearOps .names

/-! ## What the operations leave -/

namespace CachedResolver

variable {c : CachedResolver} {cfg : Configs}

/-- The entries of the names are stored with the zone of their key as group. -/
def Grouped (c : CachedResolver) (cfg : Configs) : Prop :=
  ∀ (k : NameKey) (e : Entry (Reading NameSet)),
    c.names.lookup cfg.names (nameKey k.zone k.name) = some e → e.group = k.zone

theorem grouped_empty : empty.Grouped cfg := fun k e found => by
  simp [empty, Cache.empty, Cache.lookup] at found

theorem Grouped.of_names {c' : CachedResolver} (grouped : c.Grouped cfg)
    (kept : ∀ key e, c'.names.lookup cfg.names key = some e →
      c.names.lookup cfg.names key = some e) :
    c'.Grouped cfg := fun k e found => grouped k e (kept _ e found)

theorem Grouped.run (grouped : c.Grouped cfg) (op : CacheOp) : (op.run cfg c).Grouped cfg := by
  refine grouped.of_names fun key e found => ?_
  cases op with
  | bump which => cases which <;> exact found
  | clear which i =>
      cases which with
      | zones => exact found
      | names => exact (Cache.lookup_clearIn found).1
  | deleteGroup i group => exact (Cache.lookup_deleteGroupIn found).1
  | deleteName key' => exact (Cache.lookup_deleteKey found).1

variable {now : Int} {order : List Bytes}

theorem Grouped.put {readAt : Nat} (grouped : c.Grouped cfg) (k : Key) (a : Answer) :
    (c.put cfg now order readAt k a).Grouped cfg := by
  cases k with
  | zone qname => cases a <;> exact grouped
  | name k =>
      cases a with
      | zone found => exact grouped
      | name set =>
          intro k' e found
          rcases Cache.lookup_put found with ⟨same, -, group⟩ | ⟨-, old⟩
          · rw [group]
            exact (nameKey_inj k'.clean k.clean same).1.symm
          · exact grouped k' e old

/-- An operation leaves an entry that was there and that it does not remove. -/
theorem entry_run {op : CacheOp} {a : Answer × Nat} (grouped : c.Grouped cfg)
    (left : (op.run cfg c).entry cfg k = some a) : c.entry cfg k = some a ∧ ¬ op.Removes cfg k := by
  cases k with
  | zone qname =>
      simp only [entry, Option.map_eq_some_iff] at left ⊢
      obtain ⟨e, found, rfl⟩ := left
      cases op with
      | bump which => cases which <;> exact ⟨⟨e, found, rfl⟩, fun never => never⟩
      | clear which i =>
          cases which with
          | zones =>
              obtain ⟨old, other⟩ := Cache.lookup_clearIn found
              exact ⟨⟨e, old, rfl⟩, fun hit => other hit.2⟩
          | names => exact ⟨⟨e, found, rfl⟩, fun hit => by cases hit.1⟩
      | deleteGroup i group => exact ⟨⟨e, found, rfl⟩, fun hit => by cases hit.1⟩
      | deleteName key => exact ⟨⟨e, found, rfl⟩, fun hit => by cases hit.1⟩
  | name k =>
      simp only [entry, Option.map_eq_some_iff] at left ⊢
      obtain ⟨e, found, rfl⟩ := left
      cases op with
      | bump which => cases which <;> exact ⟨⟨e, found, rfl⟩, fun never => never⟩
      | clear which i =>
          cases which with
          | zones => exact ⟨⟨e, found, rfl⟩, fun hit => by cases hit.1⟩
          | names =>
              obtain ⟨old, other⟩ := Cache.lookup_clearIn found
              exact ⟨⟨e, old, rfl⟩, fun hit => other hit.2⟩
      | deleteGroup i group =>
          obtain ⟨old, other⟩ := Cache.lookup_deleteGroupIn found
          exact ⟨⟨e, old, rfl⟩, fun hit => other ⟨hit.2.1, (grouped k e old).trans hit.2.2⟩⟩
      | deleteName key =>
          obtain ⟨old, other⟩ := Cache.lookup_deleteKey found
          exact ⟨⟨e, old, rfl⟩, fun hit => other hit.2⟩

/-- After `Set` a key has the answer stored, or what it had before. -/
theorem entry_put {readAt : Nat} {k' : Key} {a : Answer} {b : Answer × Nat}
    (left : (c.put cfg now order readAt k a).entry cfg k' = some b) :
    (k' = k ∧ b = (a, readAt)) ∨ c.entry cfg k' = some b := by
  cases k with
  | zone qname =>
      cases a with
      | name set => exact .inr left
      | zone found =>
          cases k' with
          | name k' => exact .inr left
          | zone qname' =>
              simp only [entry, Option.map_eq_some_iff] at left ⊢
              obtain ⟨e, found, rfl⟩ := left
              rcases Cache.lookup_put found with ⟨rfl, value, -⟩ | ⟨-, old⟩
              · exact .inl ⟨rfl, by rw [value]⟩
              · exact .inr ⟨e, old, rfl⟩
  | name k =>
      cases a with
      | zone found => exact .inr left
      | name set =>
          cases k' with
          | zone qname' => exact .inr left
          | name k' =>
              simp only [entry, Option.map_eq_some_iff] at left ⊢
              obtain ⟨e, found, rfl⟩ := left
              rcases Cache.lookup_put found with ⟨same, value, -⟩ | ⟨-, old⟩
              · exact .inl ⟨Key.eq_of_text rfl same, by rw [value]⟩
              · exact .inr ⟨e, old, rfl⟩

/-- `Get` answers with an entry. -/
theorem entry_of_get {a : Answer × Nat} (hit : c.get cfg now k = some a) :
    c.entry cfg k = some a := by
  cases k with
  | zone qname =>
      obtain ⟨r, found, rfl⟩ := Option.map_eq_some_iff.mp hit
      obtain ⟨e, present, rfl⟩ := Cache.lookup_of_get found
      simp [entry, present]
  | name k =>
      obtain ⟨r, found, rfl⟩ := Option.map_eq_some_iff.mp hit
      obtain ⟨e, present, rfl⟩ := Cache.lookup_of_get found
      simp [entry, present]

/-- An operation advances an epoch, or changes none. -/
theorem epoch_run (op : CacheOp) (which : Which) :
    (op.run cfg c).epoch which =
      match op with
      | .bump which' => if which' = which then c.epoch which + 1 else c.epoch which
      | _ => c.epoch which := by
  cases op with
  | bump which' => cases which' <;> cases which <;> rfl
  | clear which' i => cases which' <;> cases which <;> rfl
  | deleteGroup i group => cases which <;> rfl
  | deleteName key => cases which <;> rfl

theorem epoch_put {readAt : Nat} (k : Key) (a : Answer) :
    (c.put cfg now order readAt k a).epoch = c.epoch := by
  funext which
  cases k <;> cases a <;> cases which <;> rfl

end CachedResolver

/-! ## What `Invalidate` guards -/

open EpochCache

/-- An operation as an instruction to an epoch-guarded cache. -/
def CacheOp.instr (cfg : Configs) : CacheOp → Instr Key Which
  | .bump which => .bump which
  | op => .purge (op.Removes cfg)

/-- A list of operations as a script. -/
def script (cfg : Configs) (ops : List CacheOp) : List (Instr Key Which) :=
  ops.map (CacheOp.instr cfg)

variable {cfg : Configs}

/-- A script purges the keys that one of its operations removes. -/
theorem purges_script_iff {ops : List CacheOp} :
    Purges k (script cfg ops) ↔ ∃ op ∈ ops, op.Removes cfg k := by
  induction ops with
  | nil => exact iff_of_false id (by simp)
  | cons op ops ih =>
      rw [List.exists_mem_cons_iff, ← ih]
      cases op with
      | bump which => exact ⟨.inr, fun here => here.resolve_left id⟩
      | clear which i => exact Iff.rfl
      | deleteGroup i group => exact Iff.rfl
      | deleteName key => exact Iff.rfl

theorem guards_clearOps : Guards Key.which k (script cfg (clearOps k.which)) := by
  have member : (CacheOp.clear k.which ((cfg.of k.which).shardOf k.text)).Removes cfg ∈
      allShards.map fun i => (CacheOp.clear k.which i).Removes cfg :=
    List.mem_map_of_mem (List.mem_finRange _)
  have guards : Guards Key.which k _ := guards_bump_purges member ⟨rfl, rfl⟩
  rw [List.map_map] at guards
  rw [script, clearOps, List.map_cons, List.map_map]
  exact guards

/-- `InvalidateAll` guards every key. -/
theorem guards_invalidateAll (k : Key) : Guards Key.which k (script cfg invalidateAll) := by
  rw [script, invalidateAll, List.map_append]
  have guards : Guards Key.which k (script cfg (clearOps k.which)) := guards_clearOps
  cases which : k.which with
  | zones =>
      rw [which] at guards
      exact guards.append_left _
  | names =>
      rw [which] at guards
      exact guards.append_right _

/-- Every zone key is guarded. -/
theorem guards_zone (zone name qname : Bytes) :
    Guards Key.which (.zone qname) (script cfg (invalidate zone name)) := by
  rw [script, invalidate, List.map_append]
  exact guards_clearOps.append_left _

/-- The group form guards every name of the zone. -/
theorem guards_group (k : NameKey) :
    Guards Key.which (.name k) (script cfg (invalidate k.zone [])) := by
  rw [script, invalidate, List.map_append, if_pos rfl]
  refine Guards.append_right _ ?_
  have member : (CacheOp.deleteGroup (cfg.names.shardOf (Key.name k).text) k.zone).Removes cfg ∈
      allShards.map fun i => (CacheOp.deleteGroup i k.zone).Removes cfg :=
    List.mem_map_of_mem (List.mem_finRange _)
  have guards : Guards Key.which (.name k) _ := guards_bump_purges member ⟨rfl, rfl, rfl⟩
  rw [List.map_map] at guards
  rw [deleteGroupOps, List.map_cons, List.map_map]
  exact guards

/-- The loop guards a name and its ancestors in the zone. -/
theorem guards_deleteLoop {fuel : Nat} (k : NameKey) (enough : name.length < fuel)
    (above : k.name = name ∨ k.name ∈ ancestors dot name) :
    Guards Key.which (.name k) (script cfg (deleteLoop k.zone fuel name)) := by
  induction fuel generalizing name with
  | zero => omega
  | succ fuel ih =>
      rw [deleteLoop, script, List.map_append]
      rcases above with rfl | above
      · refine Guards.append_left _ ?_
        exact .inl ⟨rfl, .inl ⟨rfl, rfl⟩⟩
      · refine Guards.append_right _ ?_
        -- the loop does not stop here: the key is above the name and inside the zone
        have below : name ≠ k.zone := by
          rintro rfl
          rcases inZone_iff.mp k.inside with same | inside
          · rw [same] at above
            exact not_mem_ancestors_self _ above
          · exact ancestors_asymm above inside
        rw [if_neg below]
        cases cut : indexByte name dot with
        | none =>
            rw [ancestors_of_indexByte_none cut] at above
            cases above
        | some i =>
            rw [ancestors_of_indexByte_some cut] at above
            have shorter := length_lt_of_ancestors_eq (ancestors_of_indexByte_some cut)
            exact ih (by omega) (List.mem_cons.mp above)

/-- The single form guards a name and its ancestors in the zone. -/
theorem guards_chain (k : NameKey) (named : name ≠ [])
    (above : k.name = name ∨ k.name ∈ ancestors dot name) :
    Guards Key.which (.name k) (script cfg (invalidate k.zone name)) := by
  rw [script, invalidate, List.map_append, if_neg named]
  exact Guards.append_right _ (guards_deleteLoop k (Nat.lt_succ_self _) above)

/-- The keys `Invalidate(zone, name)` is meant for: every question name, and of the names
of the zone all, or the name given and its ancestors. -/
def Covers (zone name : Bytes) : Key → Prop
  | .zone _ => True
  | .name k => k.zone = zone ∧ (name = [] ∨ k.name = name ∨ k.name ∈ ancestors dot name)

/-- **`Invalidate` guards what it is meant for.** -/
theorem guards_invalidate {zone : Bytes} (covers : Covers zone name k) :
    Guards Key.which k (script cfg (invalidate zone name)) := by
  cases k with
  | zone qname => exact guards_zone zone name qname
  | name k =>
      obtain ⟨rfl, here⟩ := covers
      by_cases whole : name = []
      · rw [whole]
        exact guards_group k
      · exact guards_chain k whole (here.resolve_left whole)

end ShardDNS.Store

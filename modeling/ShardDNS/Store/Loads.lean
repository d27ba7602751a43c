import ShardDNS.Store.Cached

/-!
# Loads

A load of a missing key goes through the stages of the function that `FindZone` and
`LookupName` hand to the request group: it reads the epoch, then the database, in two
queries for a name without records, and then calls `Set`, which checks the epoch,
takes the lock of the key's shard, checks again and stores. An `Instance` is a pair of
caches with the loads that are under way.

An instance is an epoch-guarded cache (`Instance.view`). What is proved of those is used
here for any judgement that a query just made passes (`Judge`): the judgement of what is
cached and held, relative to the invalidations outstanding (`Instance.Ok`), survives
the steps of the loads (`Ok.step`), the operations of an invalidation (`Ok.run`), and a
change of the database whose invalidation is outstanding from then on (`Ok.change`).
-/

set_option autoImplicit false

namespace ShardDNS.Store

open Go Cache EpochCache

/-! ## Queries -/

/-- What a load has read: that a name has no records, or the whole answer. -/
inductive Held where
  | bare
  | whole (a : Answer)

/-- What `FindZone` and `LookupName` of the store return. -/
def Key.answer (encode : Option Encoder) (db : Database) : Key → Answer
  | .zone qname => .zone (db.findZone qname).toOption
  | .name k => .name (db.lookupName encode k.zone k.name)

/-- The first query for a key, which is the only one unless a name has no records. -/
def firstQuery (encode : Option Encoder) (db : Database) : Key → Held
  | .zone qname => .whole (.zone (db.findZone qname).toOption)
  | .name k =>
      let records := db.recordsAt encode k.zone k.name
      if 0 < records.length then .whole (.name { records := records }) else .bare

/-- The second query for a name. -/
def secondQuery (db : Database) (k : NameKey) : Answer :=
  .name { records := [], hasChildren := db.existsBelow k.zone k.name }

variable {db : Database}

theorem answer_of_firstQuery {encode : Option Encoder} {k : Key} {a : Answer}
    (read : firstQuery encode db k = .whole a) : a = k.answer encode db := by
  cases k with
  | zone qname =>
      cases read
      rfl
  | name k =>
      simp only [firstQuery] at read
      split at read
      · rename_i positive
        cases read
        rw [Key.answer, Database.lookupName, ← Database.recordsAt, if_pos positive]
      · cases read

theorem answer_of_secondQuery {encode : Option Encoder} {k : NameKey}
    (read : firstQuery encode db (.name k) = .bare) :
    secondQuery db k = Key.answer encode db (.name k) := by
  simp only [firstQuery] at read
  split at read
  · cases read
  · rename_i unpositive
    have empty : db.recordsAt encode k.zone k.name = [] :=
      List.eq_nil_of_length_eq_zero (Nat.eq_zero_of_not_pos unpositive)
    rw [Key.answer, Database.lookupName, ← Database.recordsAt, if_neg unpositive, empty,
      secondQuery]

/-! ## Stages -/

/-- Where a load is in `Set`: before the first check, after it, with the lock taken,
after the second check, and out of it. -/
inductive SetPoint where
  | called
  | checked
  | locked
  | admitted
  | returned
  deriving DecidableEq

/-- Where a load stands, with the epoch it read, what it has read from the database and
when it first asked. -/
inductive Stage where
  | entered
  | started (epoch : Nat)
  | partway (epoch readAt : Nat)
  | setting (point : SetPoint) (epoch : Nat) (a : Answer) (readAt : Nat)

structure Load where
  key : Key
  stage : Stage

namespace Load

/-- The stage after the first query. -/
def queried (epoch readAt : Nat) : Held → Stage
  | .bare => .partway epoch readAt
  | .whole a => .setting .called epoch a readAt

/-- The shard whose lock the load has. -/
def holds (cfg : Configs) (l : Load) : Option (Which × ShardIndex) :=
  match l.stage with
  | .setting .locked _ _ _ => some (CacheOp.shardOfKey cfg l.key)
  | .setting .admitted _ _ _ => some (CacheOp.shardOfKey cfg l.key)
  | _ => none

/-- A step of a load that concerns no other load and leaves the caches as they are. -/
inductive Step (encode : Option Encoder) (db : Database) (clock : Nat) (c : CachedResolver) :
    Load → Load → Prop where
  | begin (k : Key) : Step encode db clock c ⟨k, .entered⟩ ⟨k, .started (c.epoch k.which)⟩
  | first (k : Key) (epoch : Nat) :
      Step encode db clock c ⟨k, .started epoch⟩ ⟨k, queried epoch clock (firstQuery encode db k)⟩
  | second (k : NameKey) (epoch readAt : Nat) :
      Step encode db clock c ⟨.name k, .partway epoch readAt⟩
        ⟨.name k, .setting .called epoch (secondQuery db k) readAt⟩
  | check {k : Key} {epoch : Nat} (a : Answer) (readAt : Nat) (current : c.epoch k.which = epoch) :
      Step encode db clock c ⟨k, .setting .called epoch a readAt⟩
        ⟨k, .setting .checked epoch a readAt⟩
  | refuse {k : Key} {epoch : Nat} (a : Answer) (readAt : Nat) (stale : c.epoch k.which ≠ epoch) :
      Step encode db clock c ⟨k, .setting .called epoch a readAt⟩
        ⟨k, .setting .returned epoch a readAt⟩
  | accept {k : Key} {epoch : Nat} (a : Answer) (readAt : Nat) (current : c.epoch k.which = epoch) :
      Step encode db clock c ⟨k, .setting .locked epoch a readAt⟩
        ⟨k, .setting .admitted epoch a readAt⟩
  | reject {k : Key} {epoch : Nat} (a : Answer) (readAt : Nat) (stale : c.epoch k.which ≠ epoch) :
      Step encode db clock c ⟨k, .setting .locked epoch a readAt⟩
        ⟨k, .setting .returned epoch a readAt⟩

/-- The load as a load of an epoch-guarded cache, once it has read the epoch. -/
def view : Load → Option (EpochCache.Load Key (Held × Nat))
  | ⟨_, .entered⟩ => none
  | ⟨k, .started epoch⟩ => some ⟨k, epoch, none, false⟩
  | ⟨k, .partway epoch readAt⟩ => some ⟨k, epoch, some (.bare, readAt), false⟩
  | ⟨k, .setting point epoch a readAt⟩ =>
      some ⟨k, epoch, some (.whole a, readAt), decide (point = .admitted)⟩

/-- A query of the load is under way, and may fail. -/
def Asking (l : Load) : Prop :=
  match l.stage with
  | .started _ => True
  | .partway _ _ => True
  | _ => False

end Load

/-! ## Instances -/

structure Instance where
  cache : CachedResolver
  loads : List Load

variable {before after : List Load} {l : Load} {seen : EpochCache.Load Key (Held × Nat)}

namespace Instance

def empty : Instance := { cache := .empty, loads := [] }

/-- No load has the lock of the shard. -/
def Free (i : Instance) (cfg : Configs) (shard : Which × ShardIndex) : Prop :=
  ∀ l ∈ i.loads, l.holds cfg ≠ some shard

/-- The operation need not wait for a lock. -/
def Ready (i : Instance) (cfg : Configs) (op : CacheOp) : Prop :=
  ∀ shard, op.shard cfg = some shard → i.Free cfg shard

/-- A step of a load between its beginning and its end. -/
inductive Progress (cfg : Configs) (encode : Option Encoder) (db : Database) (clock : Nat) :
    Instance → Instance → Prop where
  | advance {i : Instance} {before after : List Load} {l l' : Load}
      (place : i.loads = before ++ l :: after) (next : Load.Step encode db clock i.cache l l') :
      Progress cfg encode db clock i { i with loads := before ++ l' :: after }
  | lock {i : Instance} {before after : List Load} {k : Key} {epoch : Nat} {a : Answer}
      {readAt : Nat}
      (place : i.loads = before ++ ⟨k, .setting .checked epoch a readAt⟩ :: after)
      (free : i.Free cfg (CacheOp.shardOfKey cfg k)) :
      Progress cfg encode db clock i
        { i with loads := before ++ ⟨k, .setting .locked epoch a readAt⟩ :: after }
  | store {i : Instance} {before after : List Load} {k : Key} {epoch : Nat} {a : Answer}
      {readAt : Nat} (now : Int) (order : List Bytes)
      (place : i.loads = before ++ ⟨k, .setting .admitted epoch a readAt⟩ :: after) :
      Progress cfg encode db clock i
        { cache := i.cache.put cfg now order readAt k a
          loads := before ++ ⟨k, .setting .returned epoch a readAt⟩ :: after }

/-- A step of the loads. A load ends after `Set`, or when a query fails. -/
inductive Step (cfg : Configs) (encode : Option Encoder) (db : Database) (clock : Nat) :
    Instance → Instance → Prop where
  | enter {i : Instance} (k : Key) :
      Step cfg encode db clock i { i with loads := ⟨k, .entered⟩ :: i.loads }
  | progress {i i' : Instance} (next : Progress cfg encode db clock i i') :
      Step cfg encode db clock i i'
  | leave {i : Instance} {before after : List Load} {k : Key} {epoch : Nat} {a : Answer}
      {readAt : Nat}
      (place : i.loads = before ++ ⟨k, .setting .returned epoch a readAt⟩ :: after) :
      Step cfg encode db clock i { i with loads := before ++ after }
  | fail {i : Instance} {before after : List Load} {l : Load}
      (place : i.loads = before ++ l :: after) (asking : l.Asking) :
      Step cfg encode db clock i { i with loads := before ++ after }

/-- An operation of an invalidation. -/
def run (i : Instance) (cfg : Configs) (op : CacheOp) : Instance :=
  { i with cache := op.run cfg i.cache }

/-- The operations of an invalidation, one after the other. -/
def runs (i : Instance) (cfg : Configs) (ops : List CacheOp) : Instance :=
  { i with cache := ops.foldl (fun c op => op.run cfg c) i.cache }

/-- No load has a lock. -/
def Unlocked (i : Instance) (cfg : Configs) : Prop := ∀ l ∈ i.loads, l.holds cfg = none

variable {cfg : Configs} {i : Instance}

/-- An invalidation that no lock holds up runs to its end, in any system that its instance is part
of. -/
theorem runs_in {S : Type} {R : S → S → Prop} (state : Instance → List CacheOp → S)
    (step : ∀ {i op ops}, Ready i cfg op → R (state i (op :: ops)) (state (i.run cfg op) ops))
    (unlocked : i.Unlocked cfg) (ops : List CacheOp) :
    Relation.ReflTransGen R (state i ops) (state (i.runs cfg ops) []) := by
  induction ops generalizing i with
  | nil => exact .refl
  | cons op ops ih =>
      have ready : i.Ready cfg op := fun shard _ l member holds => by
        rw [unlocked l member] at holds
        cases holds
      exact .head (step ready) (ih unlocked)

section Alone

variable {cfg : Configs} {encode : Option Encoder} {db : Database} {clock : Nat}
  {c : CachedResolver}

/-- The place of the only load. -/
theorem place_alone (c : CachedResolver) (l : Load) : Instance.loads ⟨c, [l]⟩ = [] ++ l :: [] := rfl

theorem Progress.alone {l' : Load} (next : Load.Step encode db clock c l l') :
    Progress cfg encode db clock ⟨c, [l]⟩ ⟨c, [l']⟩ := .advance (place_alone c l) next

/-- What a load does that nothing disturbs, once it has its answer. It is stated for the steps of
any system that its instance is part of. -/
theorem store_alone_in {R : Instance → Instance → Prop} (k : Key) (a : Answer) (readAt : Nat)
    (now : Int) (order : List Bytes)
    (step : ∀ {l l'}, Progress cfg encode db clock ⟨c, [l]⟩ ⟨c, [l']⟩ → R ⟨c, [l]⟩ ⟨c, [l']⟩)
    (store : R ⟨c, [⟨k, .setting .admitted (c.epoch k.which) a readAt⟩]⟩
      ⟨c.put cfg now order readAt k a, [⟨k, .setting .returned (c.epoch k.which) a readAt⟩]⟩) :
    Relation.ReflTransGen R ⟨c, [⟨k, .setting .called (c.epoch k.which) a readAt⟩]⟩
      ⟨c.put cfg now order readAt k a, [⟨k, .setting .returned (c.epoch k.which) a readAt⟩]⟩ := by
  have free : Free ⟨c, [⟨k, .setting .checked (c.epoch k.which) a readAt⟩]⟩ cfg
      (CacheOp.shardOfKey cfg k) := by
    intro l member
    rw [List.mem_singleton.mp member]
    exact fun never => by cases never
  refine .head (step (.alone (.check a readAt rfl))) ?_
  refine .head (step (.lock (place_alone c _) free)) ?_
  exact .head (step (.alone (.accept a readAt rfl))) (.single store)

/-- A load that nothing disturbs reads what the database answers and stores it, in any system that
its instance is part of. -/
theorem progress_alone_in {R : Instance → Instance → Prop} (k : Key) (now : Int)
    (order : List Bytes)
    (step : ∀ {l l'}, Progress cfg encode db clock ⟨c, [l]⟩ ⟨c, [l']⟩ → R ⟨c, [l]⟩ ⟨c, [l']⟩)
    (store : ∀ a, R ⟨c, [⟨k, .setting .admitted (c.epoch k.which) a clock⟩]⟩
      ⟨c.put cfg now order clock k a, [⟨k, .setting .returned (c.epoch k.which) a clock⟩]⟩) :
    Relation.ReflTransGen R ⟨c, [⟨k, .entered⟩]⟩
      ⟨c.put cfg now order clock k (k.answer encode db),
        [⟨k, .setting .returned (c.epoch k.which) (k.answer encode db) clock⟩]⟩ := by
  have begun : R ⟨c, [⟨k, .entered⟩]⟩ ⟨c, [⟨k, .started (c.epoch k.which)⟩]⟩ :=
    step (.alone (.begin k))
  refine .head begun (.head (step (.alone (.first k _))) ?_)
  cases read : firstQuery encode db k with
  | whole a =>
      rw [← answer_of_firstQuery read]
      exact store_alone_in k a clock now order step (store a)
  | bare =>
      cases k with
      | zone qname => cases read
      | name k =>
          rw [← answer_of_secondQuery read]
          exact .head (step (.alone (.second k _ clock)))
            (store_alone_in (.name k) _ clock now order step (store _))

theorem progress_alone (k : Key) (now : Int) (order : List Bytes) :
    Relation.ReflTransGen (Progress cfg encode db clock) ⟨c, [⟨k, .entered⟩]⟩
      ⟨c.put cfg now order clock k (k.answer encode db),
        [⟨k, .setting .returned (c.epoch k.which) (k.answer encode db) clock⟩]⟩ :=
  progress_alone_in k now order id fun _ => .store now order (place_alone c _)

/-- **A load that nothing disturbs caches what the database answers.** -/
theorem load_alone (k : Key) (now : Int) (order : List Bytes) :
    Relation.ReflTransGen (Step cfg encode db clock) ⟨c, []⟩
      ⟨c.put cfg now order clock k (k.answer encode db), []⟩ := by
  have stored : Relation.ReflTransGen (Step cfg encode db clock) ⟨c, [⟨k, .entered⟩]⟩ _ :=
    (progress_alone k now order).lift id fun _ _ next => .progress next
  exact .head (.enter k) (stored.tail (.leave (place_alone _ _)))

end Alone

/-! ## An instance as an epoch-guarded cache -/

/-- The entries of the caches, as an epoch-guarded cache has them. -/
def entries (i : Instance) (cfg : Configs) (k : Key) : Option (Held × Nat) :=
  (i.cache.entry cfg k).map fun e => (.whole e.1, e.2)

/-- An epoch-guarded cache with the entries and epochs of the instance, and with loads and
the lists of operations outstanding. -/
def showing (i : Instance) (cfg : Configs) (db : Database) (clock : Nat)
    (pending : List (List CacheOp)) (loads : List (EpochCache.Load Key (Held × Nat))) :
    State (Database × Nat) Key Which (Held × Nat) :=
  { source := (db, clock), entries := i.entries cfg, epoch := i.cache.epoch, loads := loads
    scripts := pending.map (script cfg) }

/-- The instance as an epoch-guarded cache. -/
def view (i : Instance) (cfg : Configs) (db : Database) (clock : Nat)
    (pending : List (List CacheOp)) : State (Database × Nat) Key Which (Held × Nat) :=
  i.showing cfg db clock pending (i.loads.filterMap Load.view)

theorem entries_eq_some_iff {k : Key} {h : Held} {readAt : Nat} :
    i.entries cfg k = some (h, readAt) ↔ ∃ a, h = .whole a ∧
      i.cache.entry cfg k = some (a, readAt) := by
  rw [entries, Option.map_eq_some_iff]
  constructor
  · rintro ⟨e, found, same⟩
    cases same
    exact ⟨e.1, rfl, found⟩
  · rintro ⟨a, rfl, found⟩
    exact ⟨(a, readAt), found, rfl⟩

/-- A load in its place, in view. -/
theorem view_at {clock : Nat} {pending : List (List CacheOp)}
    (place : i.loads = before ++ l :: after) (shown : l.view = some seen) :
    i.view cfg db clock pending =
      i.showing cfg db clock pending
        (before.filterMap Load.view ++ seen :: after.filterMap Load.view) := by
  rw [view, place, List.filterMap_append, List.filterMap_cons_some shown]

/-- A load out of view. -/
theorem view_without {clock : Nat} {pending : List (List CacheOp)}
    (place : i.loads = before ++ after) :
    i.view cfg db clock pending =
      i.showing cfg db clock pending (before.filterMap Load.view ++ after.filterMap Load.view) := by
  rw [view, place, List.filterMap_append]

end Instance

/-- A judgement of what is read that a query just made passes. -/
structure Judge (encode : Option Encoder) (good : Database × Nat → Key → Held × Nat → Prop) :
    Prop where
  first : ∀ db clock k, good (db, clock) k (firstQuery encode db k, clock)
  second : ∀ db clock k readAt, good (db, clock) (.name k) (.bare, readAt) →
    good (db, clock) (.name k) (.whole (secondQuery db k), readAt)

namespace Instance

variable {cfg : Configs} {encode : Option Encoder} {db : Database} {clock : Nat}
  {good : Database × Nat → Key → Held × Nat → Prop} {i i' : Instance}
  {pending : List (List CacheOp)}

/-- A step of a load alone is a step of an epoch-guarded cache, or none at all. -/
theorem simulates_advance (judge : Judge encode good) {l' : Load}
    (place : i.loads = before ++ l :: after) (next : Load.Step encode db clock i.cache l l') :
    Relation.ReflTransGen (EpochCache.Step Key.which good) (i.view cfg db clock pending)
      (view { i with loads := before ++ l' :: after } cfg db clock pending) := by
  have place' : Instance.loads { i with loads := before ++ l' :: after } = before ++ l' :: after :=
    rfl
  cases next with
  | begin k =>
      have hidden : i.view cfg db clock pending =
          i.showing cfg db clock pending
            (before.filterMap Load.view ++ after.filterMap Load.view) := by
        rw [view, place, List.filterMap_append, List.filterMap_cons_none (by rfl)]
      rw [hidden, view_at place' (by rfl)]
      exact .single (.start k rfl)
  | first k epoch =>
      have fresh := judge.first db clock k
      rw [view_at place (by rfl)]
      cases read : firstQuery encode db k with
      | bare =>
          rw [read] at fresh place'
          rw [view_at place' (by rfl)]
          exact .single (.read (l := ⟨k, epoch, none, false⟩) rfl fun _ => fresh)
      | whole a =>
          rw [read] at fresh place'
          rw [view_at place' (by rfl)]
          exact .single (.read (l := ⟨k, epoch, none, false⟩) rfl fun _ => fresh)
  | second k epoch readAt =>
      rw [view_at place (by rfl), view_at place' (by rfl)]
      exact .single (.read (l := ⟨Key.name k, epoch, some (.bare, readAt), false⟩) rfl fun bare =>
        judge.second db clock k readAt (bare _ rfl))
  | check a readAt current =>
      rw [view_at place (by rfl), view_at place' (by rfl)]
      exact .refl
  | refuse a readAt stale =>
      rw [view_at place (by rfl), view_at place' (by rfl)]
      exact .refl
  | @accept k epoch a readAt current =>
      rw [view_at place (by rfl), view_at place' (by rfl)]
      exact .single (.accept (l := ⟨k, epoch, some (Held.whole a, readAt), false⟩) rfl current.symm)
  | reject a readAt stale =>
      rw [view_at place (by rfl), view_at place' (by rfl)]
      exact .refl

theorem Load.Asking.exists_view (asking : l.Asking) : ∃ seen, l.view = some seen := by
  obtain ⟨k, stage⟩ := l
  cases stage with
  | started epoch => exact ⟨_, rfl⟩
  | partway epoch readAt => exact ⟨_, rfl⟩
  | entered => exact asking.elim
  | setting point epoch a readAt => exact asking.elim

/-- **The steps of the loads are steps of an epoch-guarded cache.** -/
theorem Step.simulates (judge : Judge encode good) (next : Step cfg encode db clock i i') :
    Relation.ReflTransGen (EpochCache.Step Key.which good) (i.view cfg db clock pending)
      (i'.view cfg db clock pending) := by
  cases next with
  | enter k => exact .refl
  | leave place =>
      rw [view_at place (by rfl), view_without (by rfl)]
      exact .single (.leave rfl)
  | fail place asking =>
      obtain ⟨seen, shown⟩ := Load.Asking.exists_view asking
      rw [view_at place shown, view_without (by rfl)]
      exact .single (.leave rfl)
  | progress next =>
      cases next with
      | advance place next => exact simulates_advance judge place next
      | lock place free =>
          rw [view_at place (by rfl), view_at (by rfl) (by rfl)]
          exact .refl
      | @store before after k epoch a readAt now order place =>
          rw [view_at place (by rfl), view_at (by rfl) (by rfl), showing, showing,
            CachedResolver.epoch_put]
          refine .single (.store (l := ⟨k, epoch, some (Held.whole a, readAt), true⟩) rfl
            rfl rfl ?_)
          rintro k' ⟨h, readAt'⟩ left
          obtain ⟨a', rfl, found⟩ := entries_eq_some_iff.mp left
          rcases CachedResolver.entry_put found with ⟨rfl, same⟩ | old
          · cases same
            exact .inl ⟨rfl, rfl⟩
          · exact .inr (entries_eq_some_iff.mpr ⟨a', rfl, old⟩)

/-! ## What holds of an instance -/

/-- What is cached passes the judgement or is about to be removed, and so is what a load may
store. -/
structure Ok (i : Instance) (cfg : Configs) (good : Database × Nat → Key → Held × Nat → Prop)
    (db : Database) (clock : Nat) (pending : List (List CacheOp)) : Prop where
  grouped : i.cache.Grouped cfg
  coherent : Coherent Key.which good (i.view cfg db clock pending)

theorem ok_empty : Ok empty cfg good db clock pending := by
  refine ⟨CachedResolver.grouped_empty, coherent_of_empty (fun k => ?_) rfl⟩
  cases k <;> rfl

/-- **The steps of the loads keep an instance in order.** -/
theorem Ok.step (ok : i.Ok cfg good db clock pending) (judge : Judge encode good)
    (next : Step cfg encode db clock i i') : i'.Ok cfg good db clock pending := by
  refine ⟨?_, ok.coherent.steps (next.simulates judge)⟩
  cases next with
  | enter k => exact ok.grouped
  | leave place => exact ok.grouped
  | fail place asking => exact ok.grouped
  | progress next =>
      cases next with
      | advance place next => exact ok.grouped
      | lock place free => exact ok.grouped
      | store now order place => exact ok.grouped.put _ _

/-- An operation removes entries and nothing else. -/
theorem entries_run {op : CacheOp} {k : Key} {p : Held × Nat} (grouped : i.cache.Grouped cfg)
    (left : (i.run cfg op).entries cfg k = some p) :
    i.entries cfg k = some p ∧ ¬ op.Removes cfg k := by
  obtain ⟨h, readAt⟩ := p
  obtain ⟨a, rfl, found⟩ := entries_eq_some_iff.mp left
  obtain ⟨old, other⟩ := CachedResolver.entry_run grouped found
  exact ⟨entries_eq_some_iff.mpr ⟨a, rfl, old⟩, other⟩

theorem epoch_run_le (op : CacheOp) (which : Which) :
    i.cache.epoch which ≤ (i.run cfg op).cache.epoch which := by
  rw [run, CachedResolver.epoch_run]
  split
  · split <;> omega
  · exact Nat.le_refl _

/-- A load that is about to store has the lock of its key's shard. -/
theorem not_removes_of_ready {op : CacheOp} (ready : i.Ready cfg op)
    (member : seen ∈ i.loads.filterMap Load.view) (storing : seen.storing = true) :
    ¬ op.Removes cfg seen.key := by
  intro removes
  obtain ⟨⟨k, stage⟩, listed, shown⟩ := List.mem_filterMap.mp member
  have free := ready _ (CacheOp.shard_of_removes removes) _ listed
  cases stage with
  | entered => cases shown
  | started epoch =>
      cases shown
      cases storing
  | partway epoch readAt =>
      cases shown
      cases storing
  | setting point epoch a readAt =>
      cases shown
      cases of_decide_eq_true storing
      exact free rfl

/-- **An operation of an outstanding invalidation keeps an instance in order.** -/
theorem Ok.run (ok : i.Ok cfg good db clock pending) {op : CacheOp} {ops : List CacheOp}
    {before after : List (List CacheOp)} (place : pending = before ++ (op :: ops) :: after)
    (ready : i.Ready cfg op) : (i.run cfg op).Ok cfg good db clock (before ++ ops :: after) := by
  refine ⟨ok.grouped.run op, ?_⟩
  have scripts : (i.view cfg db clock pending).scripts =
      before.map (script cfg) ++ (op.instr cfg :: script cfg ops) :: after.map (script cfg) := by
    rw [view, showing, place, List.map_append, List.map_cons]
    rfl
  have view_run : (i.run cfg op).view cfg db clock (before ++ ops :: after) =
      { i.view cfg db clock pending with
        entries := (i.run cfg op).entries cfg, epoch := (i.run cfg op).cache.epoch
        scripts := before.map (script cfg) ++ script cfg ops :: after.map (script cfg) } := by
    rw [view, showing, List.map_append, List.map_cons]
    rfl
  have purge : op.instr cfg = .purge (op.Removes cfg) →
      (i.run cfg op).cache.epoch = i.cache.epoch →
      Coherent Key.which good ((i.run cfg op).view cfg db clock (before ++ ops :: after)) := by
    intro instr same
    rw [instr] at scripts
    rw [view_run, same]
    exact ok.coherent.step (.purge scripts (fun l => not_removes_of_ready ready)
      fun k p => entries_run ok.grouped)
  cases op with
  | bump which =>
      have same : (i.run cfg (.bump which)).entries cfg = i.entries cfg := by
        funext k
        cases which <;> cases k <;> rfl
      have next : i.cache.epoch which < (i.run cfg (.bump which)).cache.epoch which := by
        rw [Instance.run, CachedResolver.epoch_run]
        dsimp only
        rw [if_pos rfl]
        exact Nat.lt_succ_self _
      rw [view_run, same]
      exact ok.coherent.step (.bump scripts (fun d => epoch_run_le _ d) next)
  | clear which shard => exact purge rfl (funext fun which' => CachedResolver.epoch_run _ which')
  | deleteGroup shard group =>
      exact purge rfl (funext fun which' => CachedResolver.epoch_run _ which')
  | deleteName key => exact purge rfl (funext fun which' => CachedResolver.epoch_run _ which')

/-- So does any other. -/
theorem Ok.run_other (ok : i.Ok cfg good db clock pending) (op : CacheOp) :
    (i.run cfg op).Ok cfg good db clock pending := by
  refine ⟨ok.grouped.run op, ?_⟩
  have kept : ∀ k p, (i.run cfg op).entries cfg k = some p → i.entries cfg k = some p :=
    fun k p left => (entries_run ok.grouped left).1
  exact (ok.coherent.step (.evict kept)).step (.tick fun which => epoch_run_le op which)

/-- **A change of the database keeps an instance in order**, when the operations that are
outstanding from then on guard what it may spoil. -/
theorem Ok.change (ok : i.Ok cfg good db clock pending) {db' : Database} {clock' : Nat}
    {ops : List CacheOp}
    (frame : ∀ k p, ¬ Guards Key.which k (script cfg ops) → good (db, clock) k p →
      good (db', clock') k p) : i.Ok cfg good db' clock' (ops :: pending) :=
  ⟨ok.grouped, ok.coherent.step (.change frame)⟩

/-- Invalidations that have ended may be forgotten, and others begun. -/
theorem Ok.shuffle (ok : i.Ok cfg good db clock pending) {pending' : List (List CacheOp)}
    (kept : ∀ ops ∈ pending, ops = [] ∨ ops ∈ pending') : i.Ok cfg good db clock pending' := by
  refine ⟨ok.grouped, ok.coherent.step (.shuffle fun instrs member => ?_)⟩
  obtain ⟨ops, listed, rfl⟩ := List.mem_map.mp member
  rcases kept ops listed with rfl | still
  · exact .inl rfl
  · exact .inr ⟨_, List.mem_map_of_mem still, fun k => ⟨id, id⟩⟩

/-- Before both caches are cleared, no other invalidation is needed. -/
theorem Ok.clearing (ok : i.Ok cfg good db clock pending) {pending' : List (List CacheOp)}
    (clears : invalidateAll ∈ pending') : i.Ok cfg good db clock pending' := by
  refine ⟨ok.grouped, ok.coherent.step (.shuffle fun instrs member => .inr ?_)⟩
  refine ⟨_, List.mem_map_of_mem clears, fun k => ⟨fun _ => ?_, fun _ => ?_⟩⟩
  · exact (guards_invalidateAll k).purges
  · exact guards_invalidateAll k

theorem scripts_eq_nil (quiet : ∀ ops ∈ pending, ops = []) :
    ∀ instrs ∈ (i.view cfg db clock pending).scripts, instrs = [] := by
  intro instrs member
  obtain ⟨ops, listed, rfl⟩ := List.mem_map.mp member
  rw [quiet ops listed]
  rfl

/-- **With no invalidation outstanding, what is cached passes the judgement.** -/
theorem Ok.good_of_quiet (ok : i.Ok cfg good db clock pending)
    (quiet : ∀ ops ∈ pending, ops = []) {k : Key} {a : Answer} {readAt : Nat}
    (found : i.cache.entry cfg k = some (a, readAt)) : good (db, clock) k (.whole a, readAt) :=
  ok.coherent.good_of_quiet (scripts_eq_nil quiet) (entries_eq_some_iff.mpr ⟨a, rfl, found⟩)

/-- With no invalidation outstanding, so does what a load of the current epoch holds. -/
theorem Ok.held_of_quiet (ok : i.Ok cfg good db clock pending) (quiet : ∀ ops ∈ pending, ops = [])
    (member : l ∈ i.loads) (shown : l.view = some seen)
    (current : seen.epoch = i.cache.epoch seen.key.which) {p : Held × Nat}
    (held : seen.held = some p) : good (db, clock) seen.key p :=
  ok.coherent.held_of_quiet (scripts_eq_nil quiet) (List.mem_filterMap.mpr ⟨l, member, shown⟩)
    current held

end Instance

end ShardDNS.Store

import ShardDNS.Store.Loads

/-!
# Expiry

An instance may never hear of the writes of the others: there is no NATS server, or an event is
lost. What it has cached then is stale, until it is evicted or its time is over.

Loads that have read what the database says go on to do so as long as nothing is written
(`Instance.Step.fresh`). And once the TTL of the cache has passed since the last load that had read
something else ended, every answer of the cache is that of the database, though no event has
reached the instance (`stale_at_most_ttl`).
-/

set_option autoImplicit false

namespace ShardDNS

open Go

/-! ## Loads that are up to date -/

namespace Store

variable {encode : Option Encoder} {db : Database} {clock : Nat}

/-- What a load has read is what the database says. -/
def Load.Fresh (encode : Option Encoder) (db : Database) (l : Load) : Prop :=
  match l.stage with
  | .entered => True
  | .started _ => True
  | .partway _ _ => firstQuery encode db l.key = .bare
  | .setting _ _ a _ => a = l.key.answer encode db

theorem Load.Fresh.step {c : CachedResolver} {l l' : Load} (fresh : l.Fresh encode db)
    (next : Load.Step encode db clock c l l') : l'.Fresh encode db := by
  cases next with
  | begin k => exact trivial
  | first k epoch =>
      cases read : firstQuery encode db k with
      | bare => exact read
      | whole a => exact answer_of_firstQuery read
  | second k epoch readAt => exact answer_of_secondQuery fresh
  | check a readAt current => exact fresh
  | refuse a readAt stale => exact fresh
  | accept a readAt current => exact fresh
  | reject a readAt stale => exact fresh

section Lists

variable {loads before after : List Load} {l : Load}

theorem fresh_at (place : loads = before ++ l :: after) (all : ∀ l ∈ loads, l.Fresh encode db) :
    l.Fresh encode db := by
  apply all
  rw [place]
  exact List.mem_append_cons_self

/-- Where one load is replaced by a fresh one, all are. -/
theorem fresh_replace {l' : Load} (place : loads = before ++ l :: after)
    (all : ∀ l ∈ loads, l.Fresh encode db) (fresh : l'.Fresh encode db) :
    ∀ l ∈ before ++ l' :: after, l.Fresh encode db := by
  intro other member
  rcases EpochCache.mem_replace l member with rfl | old
  · exact fresh
  · exact all other (place ▸ old)

theorem fresh_drop (place : loads = before ++ l :: after) (all : ∀ l ∈ loads, l.Fresh encode db) :
    ∀ l ∈ before ++ after, l.Fresh encode db := by
  intro other member
  apply all
  rw [place]
  exact (List.sublist_cons_self l after).append_left before |>.subset member

end Lists

/-- **The steps of the loads keep them up to date.** -/
theorem Instance.Step.fresh {cfg : Configs} {i i' : Instance}
    (next : Instance.Step cfg encode db clock i i') (all : ∀ l ∈ i.loads, l.Fresh encode db) :
    ∀ l ∈ i'.loads, l.Fresh encode db := by
  cases next with
  | enter k =>
      intro l member
      rcases List.mem_cons.mp member with rfl | old
      · exact trivial
      · exact all l old
  | leave place => exact fresh_drop place all
  | fail place asking => exact fresh_drop place all
  | progress next =>
      cases next with
      | advance place next => exact fresh_replace place all ((fresh_at place all).step next)
      | lock place free =>
          have fresh := fresh_at place all
          exact fresh_replace place all fresh
      | store now order place =>
          have fresh := fresh_at place all
          exact fresh_replace place all fresh

end Store

/-! ## When entries expire -/

namespace Cache

variable {V : Type} {c : Cache V} {cfg : Config} {key key' group : Bytes} {e : Entry V} {now : Int}

/-- When an entry expires that is stored now. -/
def Config.expiry (cfg : Config) (now : Int) :
    Int := if 0 < cfg.ttl then addInt64 now cfg.ttl else 2 ^ 63 - 1

theorem addInt64_le {a b : Int} (low : 0 ≤ a + b) : addInt64 a b ≤ a + b := by
  rw [addInt64, Int.bmod]
  split <;> omega

theorem Config.expiry_le (positive : 0 < cfg.ttl) (past : 0 ≤ now) :
    cfg.expiry now ≤ now + cfg.ttl := by
  rw [expiry, if_pos positive]
  exact addInt64_le (by omega)

/-- After `Set` a key has an entry that expires in time, or what it had before. -/
theorem expires_put {order : List Bytes} {value : V}
    (left : (c.put cfg now order key' group value).lookup cfg key = some e) :
    key = key' ∧ e.value = value ∧ e.expires = cfg.expiry now ∨ c.lookup cfg key = some e := by
  unfold put at left
  by_cases same : cfg.shardOf key = cfg.shardOf key'
  · rw [← same, lookup_onShard_self] at left
    dsimp only at left
    rw [Map.get_set_eq_some_iff] at left
    rcases left with ⟨rfl, rfl⟩ | ⟨-, kept⟩
    · exact .inl ⟨rfl, rfl, rfl⟩
    · right
      split at kept
      · exact get_evict kept
      · exact kept
  · rw [lookup_onShard_of_ne same] at left
    exact .inr left

theorem expires_of_get {v : V} (hit : c.get cfg now key = some v) :
    ∃ e, c.lookup cfg key = some e ∧ e.value = v ∧ now < e.expires := by
  unfold get at hit
  cases found : c.lookup cfg key with
  | none => simp [found] at hit
  | some e =>
      simp only [found, Option.ite_none_right_eq_some, Option.some.injEq] at hit
      exact ⟨e, rfl, hit.2, hit.1⟩

end Cache

namespace Store

open Cache

namespace CachedResolver

variable {c : CachedResolver} {cfg : Configs} {k k' : Key} {b : Answer × Int} {now : Int}

/-- The answer cached for a key, and when it expires. -/
def stored (c : CachedResolver) (cfg : Configs) : Key → Option (Answer × Int)
  | .zone qname => (c.zones.lookup cfg.zones qname).map fun e => (.zone e.value.value, e.expires)
  | .name k => (c.names.lookup cfg.names (nameKey k.zone k.name)).map fun e =>
      (.name e.value.value, e.expires)

/-- An operation only removes. -/
theorem stored_run {op : CacheOp} (left : (op.run cfg c).stored cfg k = some b) :
    c.stored cfg k = some b := by
  cases k with
  | zone qname =>
      simp only [stored, Option.map_eq_some_iff] at left ⊢
      obtain ⟨e, found, rfl⟩ := left
      refine ⟨e, ?_, rfl⟩
      cases op with
      | bump which => cases which <;> exact found
      | clear which i =>
          cases which with
          | zones => exact (Cache.lookup_clearIn found).1
          | names => exact found
      | deleteGroup i group => exact found
      | deleteName key => exact found
  | name k =>
      simp only [stored, Option.map_eq_some_iff] at left ⊢
      obtain ⟨e, found, rfl⟩ := left
      refine ⟨e, ?_, rfl⟩
      cases op with
      | bump which => cases which <;> exact found
      | clear which i =>
          cases which with
          | zones => exact found
          | names => exact (Cache.lookup_clearIn found).1
      | deleteGroup i group => exact (Cache.lookup_deleteGroupIn found).1
      | deleteName key => exact (Cache.lookup_deleteKey found).1

/-- After `Set` a key has the answer stored, or what it had before. -/
theorem stored_put {order : List Bytes} {readAt : Nat} {a : Answer}
    (left : (c.put cfg now order readAt k a).stored cfg k' = some b) :
    k' = k ∧ b = (a, (cfg.of k.which).expiry now) ∨ c.stored cfg k' = some b := by
  cases k with
  | zone qname =>
      cases a with
      | name set => exact .inr left
      | zone found =>
          cases k' with
          | name k' => exact .inr left
          | zone qname' =>
              simp only [stored, Option.map_eq_some_iff] at left ⊢
              obtain ⟨e, found, rfl⟩ := left
              rcases Cache.expires_put found with ⟨rfl, value, expires⟩ | old
              · exact .inl ⟨rfl, by rw [value, expires]; rfl⟩
              · exact .inr ⟨e, old, rfl⟩
  | name k =>
      cases a with
      | zone found => exact .inr left
      | name set =>
          cases k' with
          | zone qname' => exact .inr left
          | name k' =>
              simp only [stored, Option.map_eq_some_iff] at left ⊢
              obtain ⟨e, found, rfl⟩ := left
              rcases Cache.expires_put found with ⟨same, value, expires⟩ | old
              · exact .inl ⟨Key.eq_of_text rfl same, by rw [value, expires]; rfl⟩
              · exact .inr ⟨e, old, rfl⟩

theorem stored_of_get {a : Answer} {readAt : Nat} (hit : c.get cfg now k = some (a, readAt)) :
    ∃ expires, c.stored cfg k = some (a, expires) ∧ now < expires := by
  cases k with
  | zone qname =>
      obtain ⟨r, found, same⟩ := Option.map_eq_some_iff.mp hit
      obtain ⟨e, present, rfl, early⟩ := Cache.expires_of_get found
      cases same
      exact ⟨e.expires, by rw [stored, present]; rfl, early⟩
  | name k =>
      obtain ⟨r, found, same⟩ := Option.map_eq_some_iff.mp hit
      obtain ⟨e, present, rfl, early⟩ := Cache.expires_of_get found
      cases same
      exact ⟨e.expires, by rw [stored, present]; rfl, early⟩

end CachedResolver

/-! ## An instance in time -/

/-- The database with the number of its commits, an instance, and the time. -/
structure Timed where
  db : Database
  clock : Nat
  inst : Instance
  time : Int

namespace Timed

def start (db : Database) (time : Int) :
    Timed := { db := db, clock := 0, inst := .empty, time := time }

/-- A step. Any write may be committed, by any instance; this one may hear of it or not. -/
inductive Step (cfg : Configs) (encode : Option Encoder) : Timed → Timed → Prop where
  | tick {s : Timed} {time : Int} (later : s.time ≤ time) :
      Step cfg encode s { s with time := time }
  | commit {s : Timed} (db : Database) : Step cfg encode s { s with db := db, clock := s.clock + 1 }
  | load {s : Timed} {i : Instance} (next : Instance.Step cfg encode s.db s.clock s.inst i)
      (same : i.cache = s.inst.cache) : Step cfg encode s { s with inst := i }
  /-- `Set` has read the time before it takes the lock. -/
  | store {s : Timed} {before after : List Load} {k : Key} {epoch : Nat} {a : Answer} {readAt : Nat}
      {now : Int}
      (order : List Bytes) (place : s.inst.loads = before ++
        ⟨k, .setting .admitted epoch a readAt⟩ :: after)
      (first : 0 ≤ now) (past : now ≤ s.time) :
      Step cfg encode s
        { s with
          inst :=
            { cache := s.inst.cache.put cfg now order readAt k a
              loads := before ++ ⟨k, .setting .returned epoch a readAt⟩ :: after } }
  | invalidate {s : Timed} (op : CacheOp) (ready : s.inst.Ready cfg op) :
      Step cfg encode s { s with inst := s.inst.run cfg op }

/-- A step that commits nothing. -/
abbrev CalmStep (cfg : Configs) (encode : Option Encoder) (s s' : Timed) : Prop :=
  Step cfg encode s s' ∧ s'.clock = s.clock

variable {cfg : Configs} {encode : Option Encoder} {s s' : Timed} {k : Key} {b : Answer × Int}

/-- What a step leaves in the caches was there, or a load has just stored it. -/
theorem Step.stored (next : Step cfg encode s s') (left : s'.inst.cache.stored cfg k = some b) :
    s.inst.cache.stored cfg k = some b ∨ ∃ epoch a readAt now,
      (⟨k, .setting .admitted epoch a readAt⟩ : Load) ∈ s.inst.loads ∧ 0 ≤ now ∧ now ≤ s.time ∧
        b = (a, (cfg.of k.which).expiry now) := by
  cases next with
  | tick later => exact .inl left
  | commit db => exact .inl left
  | load next same =>
      dsimp only at left
      rw [same] at left
      exact .inl left
  | @store before after k' epoch a readAt now order place first past =>
      rcases CachedResolver.stored_put left with ⟨rfl, rfl⟩ | old
      · refine .inr ⟨epoch, a, readAt, now, ?_, first, past, rfl⟩
        rw [place]
        exact List.mem_append_cons_self
      · exact .inl old
  | invalidate op ready => exact .inl (CachedResolver.stored_run left)

theorem Step.time_le (next : Step cfg encode s s') : s.time ≤ s'.time := by
  cases next with
  | tick later => exact later
  | commit db => exact Int.le_refl _
  | load next same => exact Int.le_refl _
  | store order place first past => exact Int.le_refl _
  | invalidate op ready => exact Int.le_refl _

/-- Nothing is kept for longer than the TTL from now. -/
def Dated (cfg : Configs) (s : Timed) : Prop :=
  ∀ k b, s.inst.cache.stored cfg k = some b → b.2 ≤ s.time + (cfg.of k.which).ttl

theorem Dated.step (positive : ∀ which, 0 < (cfg.of which).ttl) (dated : s.Dated cfg)
    (next : Step cfg encode s s') : s'.Dated cfg := by
  intro k b left
  have later := next.time_le
  rcases next.stored left with old | ⟨epoch, a, readAt, now, -, first, past, rfl⟩
  · have bound := dated k b old
    omega
  · have bound := Config.expiry_le (positive k.which) first
    omega

theorem dated_of_run {db : Database} {time : Int} (positive : ∀ which, 0 < (cfg.of which).ttl)
    (run : Relation.ReflTransGen (Step cfg encode) (start db time) s) : s.Dated cfg := by
  induction run with
  | refl =>
      intro k b left
      cases k <;> cases left
  | tail _ next ih => exact ih.step positive next

/-! ## While nothing is written -/

/-- The loads are up to date, and so is what is cached, but for what expires by a time. -/
structure Recovering (cfg : Configs) (encode : Option Encoder) (db : Database) (time : Int)
    (s : Timed) : Prop where
  same : s.db = db
  fresh : ∀ l ∈ s.inst.loads, l.Fresh encode db
  cached : ∀ k a expires, s.inst.cache.stored cfg k = some (a, expires) →
    a = k.answer encode db ∨ expires ≤ time + (cfg.of k.which).ttl

theorem Recovering.step {db : Database} {time : Int} (recovering : Recovering cfg encode db time s)
    (next : Step cfg encode s s') (calm : s'.clock = s.clock) :
    Recovering cfg encode db time s' := by
  obtain ⟨same, fresh, cached⟩ := recovering
  refine ⟨?_, ?_, ?_⟩
  · cases next with
    | commit db => exact absurd calm (Nat.succ_ne_self _)
    | tick later => exact same
    | load next same' => exact same
    | store order place first past => exact same
    | invalidate op ready => exact same
  · cases next with
    | commit db => exact absurd calm (Nat.succ_ne_self _)
    | tick later => exact fresh
    | load next same' =>
        subst same
        exact next.fresh fresh
    | store order place first past =>
        have held := fresh_at place fresh
        exact fresh_replace place fresh held
    | invalidate op ready => exact fresh
  · intro k a expires left
    rcases next.stored left with old | ⟨epoch, a', readAt, now, held, -, -, stored⟩
    · exact cached k a expires old
    · cases stored
      exact .inl (fresh _ held)

/-- **No answer is stale for longer than the TTL.** The loads in flight have read what the database
says, and from then on nothing is written. Once the TTL has passed, whatever the cache answers is
what the database answers, whether or not the instance has heard of any write. -/
theorem stale_at_most_ttl {db : Database} {time now : Int} {s₀ : Timed} {a : Answer} {readAt : Nat}
    (positive : ∀ which, 0 < (cfg.of which).ttl)
    (run : Relation.ReflTransGen (Step cfg encode) (start db time) s₀)
    (fresh : ∀ l ∈ s₀.inst.loads, l.Fresh encode s₀.db)
    (calm : Relation.ReflTransGen (CalmStep cfg encode) s₀ s)
    (passed : s₀.time + (cfg.of k.which).ttl ≤ s.time) (present : s.time ≤ now)
    (hit : s.inst.cache.get cfg now k = some (a, readAt)) : a = k.answer encode s₀.db := by
  have recovering : Recovering cfg encode s₀.db s₀.time s := by
    clear passed present hit
    induction calm with
    | refl =>
        exact ⟨rfl, fresh, fun k a expires left =>
          .inr (dated_of_run positive run k (a, expires) left)⟩
    | tail _ next ih => exact ih.step next.1 next.2
  obtain ⟨expires, stored, early⟩ := CachedResolver.stored_of_get hit
  rcases recovering.cached k a expires stored with right | ended
  · exact right
  · omega

/-- A load that nothing disturbs, at a time. -/
theorem load_alone (db : Database) (clock : Nat) (c : CachedResolver) {time : Int}
    (first : 0 ≤ time) (k : Key) :
    Relation.ReflTransGen (CalmStep cfg encode) ⟨db, clock, ⟨c, []⟩, time⟩
      ⟨db, clock, ⟨c.put cfg time [] clock k (k.answer encode db), []⟩, time⟩ := by
  let state (i : Instance) : Timed := ⟨db, clock, i, time⟩
  have entered : Step cfg encode (state ⟨c, []⟩) (state ⟨c, [⟨k, .entered⟩]⟩) :=
    .load (.enter k) rfl
  have advanced : ∀ {l l'}, Instance.Progress cfg encode db clock ⟨c, [l]⟩ ⟨c, [l']⟩ →
      Step cfg encode (state ⟨c, [l]⟩) (state ⟨c, [l']⟩) := fun next => .load (.progress next) rfl
  have stored : ∀ a, Step cfg encode
      (state ⟨c, [⟨k, .setting .admitted (c.epoch k.which) a clock⟩]⟩)
      (state ⟨c.put cfg time [] clock k a,
        [⟨k, .setting .returned (c.epoch k.which) a clock⟩]⟩) := by
    intro a
    have place : (state ⟨c, [⟨k, .setting .admitted (c.epoch k.which) a clock⟩]⟩).inst.loads =
        [] ++ ⟨k, .setting .admitted (c.epoch k.which) a clock⟩ :: [] := rfl
    exact .store [] place first (Int.le_refl _)
  have loaded : Relation.ReflTransGen (fun i i' => Step cfg encode (state i) (state i'))
      ⟨c, [⟨k, .entered⟩]⟩ _ := Instance.progress_alone_in k time [] advanced stored
  have left : ∀ c epoch a, Step cfg encode
      (state ⟨c, [⟨k, .setting .returned epoch a clock⟩]⟩) (state ⟨c, []⟩) :=
    fun c _ _ => .load (.leave (Instance.place_alone c _)) rfl
  have lifted : Relation.ReflTransGen (CalmStep cfg encode) (state ⟨c, [⟨k, .entered⟩]⟩) _ :=
    loaded.lift state fun _ _ next => ⟨next, rfl⟩
  exact .head ⟨entered, rfl⟩ (lifted.tail ⟨left _ _ _, rfl⟩)

/-- A cache keeps its entries for five nanoseconds. Elsewhere a zone is deleted that it has, and it
never hears of it. It has the zone still after four, and after six it has to load it again. -/
theorem stale_at_most_ttl_deleted :
    let cfg : Configs := .new 64 5 Cache.firstShard Cache.firstShard
    ∃ s₀ s : Timed,
      Relation.ReflTransGen (Step cfg none) (start (.ofZone (ascii "a")) 0) s₀ ∧
      s₀.inst.cache.get cfg 4 (.zone (ascii "a")) = some (.zone (some (.plain (ascii "a"))), 0) ∧
      Relation.ReflTransGen (CalmStep cfg none) s₀ s ∧
      s.inst.cache.get cfg 6 (.zone (ascii "a")) = some (.zone none, 1) ∧
      Answer.zone none = Key.answer none s₀.db (.zone (ascii "a")) := by
  intro cfg
  have loaded : Relation.ReflTransGen (CalmStep cfg none) (start (.ofZone (ascii "a")) 0) _ :=
    load_alone _ 0 .empty (Int.le_refl 0) (.zone (ascii "a"))
  have run : Relation.ReflTransGen (Step cfg none) (start (.ofZone (ascii "a")) 0) _ :=
    (loaded.lift id fun _ _ step => step.1).tail (.commit .empty)
  let cache : CachedResolver := CachedResolver.empty.put cfg 0 [] 0 (.zone (ascii "a"))
    (.zone (some (.plain (ascii "a"))))
  have ticked : Step cfg none ⟨.empty, 1, ⟨cache, []⟩, 0⟩ ⟨.empty, 1, ⟨cache, []⟩, 6⟩ :=
    .tick (s := ⟨.empty, 1, ⟨cache, []⟩, 0⟩) (by decide)
  have calm : Relation.ReflTransGen (CalmStep cfg none) ⟨.empty, 1, ⟨cache, []⟩, 0⟩ _ :=
    .head ⟨ticked, rfl⟩ (load_alone .empty 1 cache (by decide) (.zone (ascii "a")))
  refine ⟨⟨.empty, 1, ⟨cache, []⟩, 0⟩, _, run, by decide +kernel, calm, ?hit,
    stale_at_most_ttl ?_ run (List.forall_mem_nil _) calm ?_ (Int.le_refl _) ?hit⟩
  case hit => decide +kernel
  · intro which
    cases which <;> decide
  · decide

end Timed

end Store

end ShardDNS

import ShardDNS.Store.Loads
import ShardDNS.Store.Writes

/-!
# Reading one's own writes

One instance, with the calls of `FindZone` and `LookupName` on it. A call asks its
cache; if that has nothing, it goes through the request group: while a load of its key
is in flight it waits for that load's result, and else it begins a load and waits for
it. The instance commits writes and invalidates its caches after each, other instances
commit writes of their own, and their events arrive.

A call is to return what was read after every commit whose invalidation was complete
when the call began (`Visible`). The epoch keeps such values out of the cache, but a
load that has read the database before the commit stays in the group, and a call that
begins after the invalidation may still join it (`joined_stale`). If calls join only
loads that have not read yet, or whose epoch is still that of the cache, they return
what they should (`visible_run`).
-/

set_option autoImplicit false

namespace ShardDNS.Store

open Go Cache EpochCache

/-! ## Calls -/

/-- The invalidation after a commit of this instance: what it is called with and what is
left of it to do. -/
structure Invalidation where
  zone : Bytes
  name : Bytes
  ops : List CacheOp

/-- Where a call stands: before and after it has asked the cache, in the request group,
and back with a value and when it was read, or with an error. -/
inductive CallStage where
  | called
  | missed
  | waiting
  | returned (a : Answer) (readAt : Nat)
  | failed

/-- A call, with the invalidations as they stood when it began, by the numbers of their
commits. -/
structure Call where
  key : Key
  began : Nat → Option Invalidation
  stage : CallStage

/-- The result of a load goes to the calls that wait for it. -/
def Call.deliver (k : Key) (result : CallStage) (call : Call) : Call :=
  match call.stage with
  | .waiting => if call.key = k then { call with stage := result } else call
  | _ => call

/-- The epoch of the load's cache is the one it read, or it is yet to read the database. -/
def Load.Current (c : CachedResolver) (l : Load) : Prop :=
  match l.stage with
  | .entered => True
  | .started _ => True
  | .partway epoch _ => epoch = c.epoch l.key.which
  | .setting _ epoch _ _ => epoch = c.epoch l.key.which

/-- When the load first asked the database. -/
def Load.readAt (l : Load) : Option Nat :=
  match l.stage with
  | .entered => none
  | .started _ => none
  | .partway _ readAt => some readAt
  | .setting _ _ _ readAt => some readAt

/-! ## The instance and its calls -/

/-- The database and the number of its commits, the instance, the invalidations after its
own commits, those for the events of others, and the calls. -/
structure Node where
  db : Database
  clock : Nat
  inst : Instance
  invalidations : Nat → Option Invalidation
  events : List (List CacheOp)
  calls : List Call

namespace Node

def start (db : Database) : Node :=
  { db := db, clock := 0, inst := .empty, invalidations := fun _ => none, events := [],
    calls := [] }

/-- A step. Which loads a call may join is a parameter; the request group lets it join
any. -/
inductive Step (cfg : Configs) (encode : Option Encoder) (may : CachedResolver → Load → Prop) :
    Node → Node → Prop where
  | progress {s : Node} {i : Instance} (next : Instance.Progress cfg encode s.db s.clock s.inst i) :
      Step cfg encode may s { s with inst := i }
  /-- A write is committed here, and its invalidation begins. -/
  | commit {s : Node} (db : Database) (zone name : Bytes) :
      Step cfg encode may s
        { s with
          db := db, clock := s.clock + 1
          invalidations := Function.update s.invalidations (s.clock + 1)
            (some ⟨zone, name, invalidate zone name⟩) }
  | invalidate {s : Node} {c : Nat} {zone name : Bytes} {op : CacheOp} {ops : List CacheOp}
      (place : s.invalidations c = some ⟨zone, name, op :: ops⟩) (ready : s.inst.Ready cfg op) :
      Step cfg encode may s
        { s with
          inst := s.inst.run cfg op
          invalidations := Function.update s.invalidations c (some ⟨zone, name, ops⟩) }
  /-- A write is committed by another instance. -/
  | elsewhere {s : Node} (db : Database) :
      Step cfg encode may s { s with db := db, clock := s.clock + 1 }
  | event {s : Node} (zone name : Bytes) :
      Step cfg encode may s { s with events := Store.invalidate zone name :: s.events }
  | reconnect {s : Node} : Step cfg encode may s { s with events := invalidateAll :: s.events }
  | handle {s : Node} {before after : List (List CacheOp)} {op : CacheOp} {ops : List CacheOp}
      (place : s.events = before ++ (op :: ops) :: after) (ready : s.inst.Ready cfg op) :
      Step cfg encode may s
        { s with inst := s.inst.run cfg op, events := before ++ ops :: after }
  | call {s : Node} (k : Key) :
      Step cfg encode may s { s with calls := ⟨k, s.invalidations, .called⟩ :: s.calls }
  | hit {s : Node} {before after : List Call} {k : Key} {began : Nat → Option Invalidation}
      (now : Int) {a : Answer} {readAt : Nat}
      (place : s.calls = before ++ ⟨k, began, .called⟩ :: after)
      (found : s.inst.cache.get cfg now k = some (a, readAt)) :
      Step cfg encode may s
        { s with calls := before ++ ⟨k, began, .returned a readAt⟩ :: after }
  | miss {s : Node} {before after : List Call} {k : Key} {began : Nat → Option Invalidation}
      (now : Int) (place : s.calls = before ++ ⟨k, began, .called⟩ :: after)
      (absent : s.inst.cache.get cfg now k = none) :
      Step cfg encode may s { s with calls := before ++ ⟨k, began, .missed⟩ :: after }
  /-- A load of the key is in flight. -/
  | join {s : Node} {before after : List Call} {k : Key} {began : Nat → Option Invalidation}
      {l : Load} (place : s.calls = before ++ ⟨k, began, .missed⟩ :: after)
      (inFlight : l ∈ s.inst.loads) (same : l.key = k) (allowed : may s.inst.cache l) :
      Step cfg encode may s { s with calls := before ++ ⟨k, began, .waiting⟩ :: after }
  /-- None is, and the call begins one. -/
  | lead {s : Node} {before after : List Call} {k : Key} {began : Nat → Option Invalidation}
      (place : s.calls = before ++ ⟨k, began, .missed⟩ :: after)
      (first : ∀ l ∈ s.inst.loads, l.key ≠ k) :
      Step cfg encode may s
        { s with
          inst := { s.inst with loads := ⟨k, .entered⟩ :: s.inst.loads }
          calls := before ++ ⟨k, began, .waiting⟩ :: after }
  | leave {s : Node} {before after : List Load} {k : Key} {epoch : Nat} {a : Answer} {readAt : Nat}
      (place : s.inst.loads = before ++ ⟨k, .setting .returned epoch a readAt⟩ :: after) :
      Step cfg encode may s
        { s with
          inst := { s.inst with loads := before ++ after }
          calls := s.calls.map (Call.deliver k (.returned a readAt)) }
  | fail {s : Node} {before after : List Load} {l : Load}
      (place : s.inst.loads = before ++ l :: after) (asking : l.Asking) :
      Step cfg encode may s
        { s with
          inst := { s.inst with loads := before ++ after }
          calls := s.calls.map (Call.deliver l.key .failed) }

variable {c clock : Nat} {i : Instance} {l : Load} {db : Database}

section Runs

variable {cfg : Configs} {encode : Option Encoder} {may : CachedResolver → Load → Prop}

/-- An invalidation that no lock holds up runs to its end. -/
theorem run_invalidation (s : Node) {zone name : Bytes} {ops : List CacheOp}
    (unlocked : s.inst.Unlocked cfg) (begun : s.invalidations c = some ⟨zone, name, ops⟩) :
    Relation.ReflTransGen (Step cfg encode may) s
      { s with
        inst := s.inst.runs cfg ops
        invalidations := Function.update s.invalidations c (some ⟨zone, name, []⟩) } := by
  let state (i : Instance) (ops : List CacheOp) : Node :=
    { s with
      inst := i, invalidations := Function.update s.invalidations c (some ⟨zone, name, ops⟩) }
  have same : state s.inst ops = s := by
    change { s with invalidations := Function.update s.invalidations c _ } = s
    rw [← begun, Function.update_eq_self]
  have run : Relation.ReflTransGen (Step cfg encode may) (state s.inst ops)
      (state (s.inst.runs cfg ops) []) := by
    refine Instance.runs_in state (fun {i op ops} ready => ?_) unlocked ops
    have step : Step cfg encode may (state i (op :: ops)) _ :=
      .invalidate (Function.update_self ..) ready
    rwa [Function.update_idem] at step
  rwa [same] at run

/-- The steps of the loads run while the calls stand still. -/
theorem run_progress (s : Node)
    (run : Relation.ReflTransGen (Instance.Progress cfg encode s.db s.clock) s.inst i) :
    Relation.ReflTransGen (Step cfg encode may) s { s with inst := i } :=
  run.lift (fun i => { s with inst := i }) fun _ _ next => .progress next

/-- A call begins and finds nothing cached. -/
theorem run_miss (s : Node) (k : Key) (now : Int) (absent : s.inst.cache.get cfg now k = none) :
    Relation.ReflTransGen (Step cfg encode may) s
      { s with calls := ⟨k, s.invalidations, .missed⟩ :: s.calls } := by
  let called : Node := { s with calls := ⟨k, s.invalidations, .called⟩ :: s.calls }
  have place : called.calls = [] ++ ⟨k, s.invalidations, .called⟩ :: s.calls := rfl
  exact .head (.call k) (.single (Step.miss (s := called) now place absent))

/-- The last call to have missed begins a load. -/
theorem step_lead (s : Node) {k : Key} {began : Nat → Option Invalidation} {calls : List Call}
    (last : s.calls = ⟨k, began, .missed⟩ :: calls) (first : ∀ l ∈ s.inst.loads, l.key ≠ k) :
    Step cfg encode may s
      { s with
        inst := { s.inst with loads := ⟨k, .entered⟩ :: s.inst.loads }
        calls := ⟨k, began, .waiting⟩ :: calls } := by
  have place : s.calls = [] ++ ⟨k, began, .missed⟩ :: calls := last
  exact .lead place first

/-- The only load ends, and its answer goes to the calls that wait for it. -/
theorem step_leave (s : Node) {k : Key} {epoch readAt : Nat} {a : Answer}
    (alone : s.inst.loads = [⟨k, .setting .returned epoch a readAt⟩]) :
    Step cfg encode may s
      { s with
        inst := { s.inst with loads := [] }
        calls := s.calls.map (Call.deliver k (.returned a readAt)) } := by
  have place : s.inst.loads = [] ++ ⟨k, .setting .returned epoch a readAt⟩ :: [] := alone
  exact .leave place

theorem deliver_waiting (k : Key) (began : Nat → Option Invalidation) (result : CallStage) :
    Call.deliver k result ⟨k, began, .waiting⟩ = ⟨k, began, result⟩ := if_pos rfl

/-- **A call that finds nothing cached and nothing in flight returns what the database
answers.** -/
theorem call_alone (s : Node) (k : Key) (now : Int) (idle : s.inst.loads = [])
    (quiet : s.calls = []) (absent : s.inst.cache.get cfg now k = none) :
    Relation.ReflTransGen (Step cfg encode may) s
      { s with
        inst := ⟨s.inst.cache.put cfg now [] s.clock k (k.answer encode s.db), []⟩
        calls := [⟨k, s.invalidations, .returned (k.answer encode s.db) s.clock⟩] } := by
  obtain ⟨db, clock, ⟨c, loads⟩, invalidations, events, calls⟩ := s
  dsimp only at idle quiet absent ⊢
  subst idle quiet
  let missed : Node := ⟨db, clock, ⟨c, []⟩, invalidations, events, [⟨k, invalidations, .missed⟩]⟩
  let waiting (i : Instance) : Node :=
    ⟨db, clock, i, invalidations, events, [⟨k, invalidations, .waiting⟩]⟩
  have led : Step cfg encode may missed (waiting ⟨c, [⟨k, .entered⟩]⟩) :=
    step_lead missed rfl fun l never => by cases never
  have loaded : Relation.ReflTransGen (Step cfg encode may) (waiting ⟨c, [⟨k, .entered⟩]⟩) _ :=
    run_progress (waiting _) (Instance.progress_alone k now [])
  have left := loaded.tail (step_leave _ rfl)
  rw [show (waiting _).calls.map _ = [Call.deliver k _ ⟨k, invalidations, .waiting⟩] from rfl,
    deliver_waiting] at left
  exact ((run_miss _ k now absent).tail led).trans left

end Runs

/-- The invalidation after a commit was complete when the call began, and concerns its
key. -/
def Owed (call : Call) (c : Nat) : Prop :=
  ∃ zone name, call.began c = some ⟨zone, name, []⟩ ∧ Covers zone name call.key

/-- What a call has returned was read after the commits whose invalidations were complete
when it began. -/
def Visible (s : Node) : Prop :=
  ∀ call ∈ s.calls, ∀ a readAt, call.stage = .returned a readAt → ∀ c, Owed call c → c ≤ readAt

/-! ## A call that joins a load of the past -/

/-- **A call may return what was read before a commit whose invalidation was complete when
it began.** A load finds that a zone is absent. The zone is created, and the caches are
invalidated. A call that begins now joins the load, and finds the zone absent. -/
theorem joined_stale :
    let cfg : Configs := .new 64 0 firstShard firstShard
    ∃ s : Node,
      Relation.ReflTransGen (Step cfg none fun _ _ => True) (start .empty) s ∧
      (∃ call ∈ s.calls, call.stage = .returned (.zone none) 0 ∧ Owed call 1 ∧
        call.key.answer none s.db = .zone (some (.plain (ascii "a")))) ∧
      ¬ s.Visible := by
  intro cfg
  let k : Key := .zone (ascii "a")
  let begun : Nat → Option Invalidation := Function.update (fun _ => none) 1
    (some ⟨ascii "a", [], invalidate (ascii "a") []⟩)
  let ended : Nat → Option Invalidation := Function.update begun 1 (some ⟨ascii "a", [], []⟩)
  let cleared := (invalidate (ascii "a") []).foldl (fun cache op => op.run cfg cache) .empty
  -- what the load holds was read from the empty database
  let load (point : SetPoint) : Load := ⟨k, .setting point 0 (.zone none) 0⟩
  let first (stage : CallStage) : Call := ⟨k, fun _ => none, stage⟩
  have read : Relation.ReflTransGen (Step cfg none fun _ _ => True) (start .empty)
      ⟨.empty, 0, ⟨.empty, [load .called]⟩, fun _ => none, [], [first .waiting]⟩ := by
    have queried : Relation.ReflTransGen (Instance.Progress cfg none .empty 0)
        ⟨.empty, [⟨k, .entered⟩]⟩ ⟨.empty, [load .called]⟩ :=
      .head (.alone (.begin k)) (.single (.alone (.first k 0)))
    have led : Relation.ReflTransGen (Step cfg none fun _ _ => True) (start .empty) _ :=
      (run_miss _ k 0 (by decide +kernel)).tail (step_lead _ rfl fun l never => by cases never)
    refine led.trans ?_
    exact run_progress ⟨.empty, 0, ⟨.empty, [⟨k, .entered⟩]⟩, fun _ => none, [], [first .waiting]⟩
      queried
  have invalidated : Relation.ReflTransGen (Step cfg none fun _ _ => True)
      ⟨.empty, 0, ⟨.empty, [load .called]⟩, fun _ => none, [], [first .waiting]⟩
      ⟨(.ofZone (ascii "a")), 1, ⟨cleared, [load .called]⟩, ended, [], [first .waiting]⟩ := by
    refine .head (.commit (.ofZone (ascii "a")) (ascii "a") [])
      (run_invalidation _ (fun l member => ?_) rfl)
    rw [List.mem_singleton.mp member]
    rfl
  have joined : Relation.ReflTransGen (Step cfg none fun _ _ => True)
      ⟨(.ofZone (ascii "a")), 1, ⟨cleared, [load .called]⟩, ended, [], [first .waiting]⟩
      ⟨(.ofZone (ascii "a")), 1, ⟨cleared, [load .called]⟩, ended, [],
        [⟨k, ended, .waiting⟩, first .waiting]⟩ := by
    let missed : Node :=
      ⟨(.ofZone (ascii "a")), 1, ⟨cleared, [load .called]⟩, ended, [],
        [⟨k, ended, .missed⟩, first .waiting]⟩
    have place : missed.calls = [] ++ ⟨k, ended, .missed⟩ :: [first .waiting] := rfl
    exact (run_miss _ k 0 (by decide +kernel)).tail
      (Step.join (s := missed) place List.mem_cons_self rfl trivial)
  have answered : Relation.ReflTransGen (Step cfg none fun _ _ => True)
      ⟨(.ofZone (ascii "a")), 1, ⟨cleared, [load .called]⟩, ended, [],
        [⟨k, ended, .waiting⟩, first .waiting]⟩
      ⟨(.ofZone (ascii "a")), 1, ⟨cleared, []⟩, ended, [],
        [⟨k, ended, .returned (.zone none) 0⟩, first (.returned (.zone none) 0)]⟩ := by
    have refused : Relation.ReflTransGen (Instance.Progress cfg none (.ofZone (ascii "a")) 1)
        ⟨cleared, [load .called]⟩ ⟨cleared, [load .returned]⟩ :=
      .single (.alone (.refuse (.zone none) 0 (by decide +kernel)))
    have left : Relation.ReflTransGen (Step cfg none fun _ _ => True) _ _ :=
      (run_progress ⟨(.ofZone (ascii "a")), 1, ⟨cleared, [load .called]⟩, ended, [],
        [⟨k, ended, .waiting⟩, first .waiting]⟩ refused).tail (step_leave _ rfl)
    rw [List.map_cons, List.map_singleton, deliver_waiting, deliver_waiting] at left
    exact left
  have owed : Owed ⟨k, ended, .returned (.zone none) 0⟩ 1 := ⟨ascii "a", [], rfl, trivial⟩
  refine ⟨_, ((read.trans invalidated).trans joined).trans answered,
    ⟨_, List.mem_cons_self, rfl, owed, by decide +kernel⟩, fun visible => ?_⟩
  exact absurd (visible _ List.mem_cons_self _ _ rfl 1 owed) (by decide)

/-! ## The invariant -/

/-- What is read under a key that the invalidation after a commit covers was read after
that commit. -/
def ReadAfter (c : Nat) (zone name : Bytes) : Database × Nat → Key → Held × Nat → Prop :=
  fun source k read => c ≤ source.2 → Covers zone name k → c ≤ read.2

theorem judge_readAfter (encode : Option Encoder) (c : Nat) (zone name : Bytes) :
    Judge encode (ReadAfter c zone name) where
  first _ _ _ := fun past _ => past
  second _ _ _ _ before := before

/-- The commit is still to come, or it was made here and its invalidation is this one. -/
def Tracked (s : Node) (c : Nat) (zone name : Bytes) : Prop :=
  s.clock < c ∨ ∃ ops, s.invalidations c = some ⟨zone, name, ops⟩

/-- What is left to do after a commit. -/
def outstanding (s : Node) (c : Nat) : List (List CacheOp) :=
  match s.invalidations c with
  | some x => [x.ops]
  | none => []

/-- What holds of the calls: what they wait for and what they have returned was read after
the commits they are owed. -/
structure CallOk (s : Node) (call : Call) : Prop where
  complete : ∀ c zone name, call.began c = some ⟨zone, name, []⟩ →
    s.invalidations c = some ⟨zone, name, []⟩
  waiting : call.stage = .waiting → ∀ c, Owed call c →
    ∀ l ∈ s.inst.loads, l.key = call.key → ∀ readAt, l.readAt = some readAt → c ≤ readAt
  returned : ∀ a readAt, call.stage = .returned a readAt → ∀ c, Owed call c → c ≤ readAt

structure Inv (cfg : Configs) (s : Node) : Prop where
  distinct : (s.inst.loads.map Load.key).Nodup
  past : ∀ c x, s.invalidations c = some x → c ≤ s.clock
  ok : ∀ c zone name, s.Tracked c zone name →
    s.inst.Ok cfg (ReadAfter c zone name) s.db s.clock (s.outstanding c)
  calls : ∀ call ∈ s.calls, CallOk s call

variable {cfg : Configs} {encode : Option Encoder} {s s' : Node} {call : Call}

theorem inv_start (db : Database) : (start db).Inv cfg where
  distinct := List.nodup_nil
  past _ _ never := by cases never
  ok _ _ _ _ := Instance.ok_empty
  calls _ never := by cases never

/-- A commit that a call is owed has nothing outstanding. -/
theorem Inv.quiet (inv : s.Inv cfg) (member : call ∈ s.calls) (owed : Owed call c) :
    ∃ zone name, Covers zone name call.key ∧ c ≤ s.clock ∧
      s.inst.Ok cfg (ReadAfter c zone name) s.db s.clock (s.outstanding c) ∧
      ∀ ops ∈ s.outstanding c, ops = [] := by
  obtain ⟨zone, name, began, covers⟩ := owed
  have complete := (inv.calls call member).complete c zone name began
  refine ⟨zone, name, covers, inv.past c _ complete, inv.ok c zone name (.inr ⟨[], complete⟩), ?_⟩
  intro ops listed
  rw [outstanding, complete] at listed
  exact List.mem_singleton.mp listed

/-- What a cache answers to a call was read after the commits the call is owed. -/
theorem Inv.readAt_of_hit (inv : s.Inv cfg) (member : call ∈ s.calls) {now : Int} {a : Answer}
    {readAt : Nat} (found : s.inst.cache.get cfg now call.key = some (a, readAt))
    (owed : Owed call c) : c ≤ readAt := by
  obtain ⟨zone, name, covers, past, ok, quiet⟩ := inv.quiet member owed
  exact ok.good_of_quiet quiet (CachedResolver.entry_of_get found) past covers

/-- So was what a load of the current epoch has read. -/
theorem Inv.readAt_of_current (inv : s.Inv cfg) (member : call ∈ s.calls)
    (inFlight : l ∈ s.inst.loads) (same : l.key = call.key) (current : l.Current s.inst.cache)
    {readAt : Nat} (read : l.readAt = some readAt) (owed : Owed call c) : c ≤ readAt := by
  obtain ⟨zone, name, covers, past, ok, quiet⟩ := inv.quiet member owed
  rw [← same] at covers
  obtain ⟨k, stage⟩ := l
  cases stage with
  | entered => cases read
  | started epoch => cases read
  | partway epoch t =>
      cases read
      exact ok.held_of_quiet quiet inFlight rfl current rfl past covers
  | setting point epoch a t =>
      cases read
      exact ok.held_of_quiet quiet inFlight rfl current rfl past covers

/-! ## One step -/

/-- What the loads have read now they had read before, or they read it just now. -/
def Follows (clock : Nat) (loads loads' : List Load) : Prop :=
  ∀ l' ∈ loads', ∀ readAt, l'.readAt = some readAt →
    readAt = clock ∨ ∃ l ∈ loads, l.key = l'.key ∧ l.readAt = some readAt

theorem follows_of_subset {loads loads' : List Load} (subset : loads' ⊆ loads) :
    Follows clock loads loads' := fun l' member _ read => .inr ⟨l', subset member, rfl, read⟩

theorem follows_replace {before after : List Load} {l' : Load} (same : l.key = l'.key)
    (reads : l'.readAt = l.readAt ∨ l'.readAt = some clock) :
    Follows clock (before ++ l :: after) (before ++ l' :: after) := by
  intro other member readAt read
  rcases mem_replace l member with rfl | unmoved
  · rcases reads with old | new
    · exact .inr ⟨l, List.mem_append_cons_self, same, old ▸ read⟩
    · rw [new] at read
      exact .inl (Option.some.inj read).symm
  · exact .inr ⟨other, unmoved, rfl, read⟩

theorem key_of_loadStep {c : CachedResolver} {l' : Load} (next : Load.Step encode db clock c l l') :
    l.key = l'.key := by
  cases next <;> rfl

theorem readAt_of_loadStep {c : CachedResolver} {l' : Load}
    (next : Load.Step encode db clock c l l') : l'.readAt = l.readAt ∨ l'.readAt = some clock := by
  cases next with
  | first k epoch =>
      right
      rw [Load.readAt, Load.queried.eq_def]
      cases firstQuery encode db k <;> rfl
  | _ => exact .inl rfl

/-- A step of a load keeps the keys, and reads nothing older than now. -/
theorem follows_of_progress {i' : Instance} (next : Instance.Progress cfg encode db clock i i') :
    i'.loads.map Load.key = i.loads.map Load.key ∧ Follows clock i.loads i'.loads := by
  cases next with
  | advance place next =>
      rw [place, List.map_append, List.map_append, List.map_cons, List.map_cons,
        key_of_loadStep next]
      exact ⟨rfl, follows_replace (key_of_loadStep next) (readAt_of_loadStep next)⟩
  | lock place free =>
      rw [place, List.map_append, List.map_append]
      exact ⟨rfl, follows_replace rfl (.inl rfl)⟩
  | store now order place =>
      rw [place, List.map_append, List.map_append]
      exact ⟨rfl, follows_replace rfl (.inl rfl)⟩

/-- A call stays in order when complete invalidations and old readings stay. -/
theorem CallOk.mono (ok : CallOk s call) (inv : s.Inv cfg)
    (complete : ∀ c zone name, s.invalidations c = some ⟨zone, name, []⟩ →
      s'.invalidations c = some ⟨zone, name, []⟩)
    (follows : Follows s.clock s.inst.loads s'.inst.loads) : CallOk s' call where
  complete c zone name began := complete c zone name (ok.complete c zone name began)
  waiting stage c owed l' member same readAt read := by
    rcases follows l' member readAt read with rfl | ⟨l, old, key, reading⟩
    · obtain ⟨zone, name, began, -⟩ := owed
      exact inv.past c _ (ok.complete c zone name began)
    · exact ok.waiting stage c owed l old (key.trans same) readAt reading
  returned := ok.returned

/-- Calls stay in order while the invalidations stand still. -/
theorem Inv.keep (inv : s.Inv cfg) (same : s'.invalidations = s.invalidations)
    (follows : Follows s.clock s.inst.loads s'.inst.loads) :
    ∀ other, CallOk s other → CallOk s' other := fun other ok =>
  ok.mono inv (fun c zone name made => by rw [same]; exact made) follows

/-- A commit that this one is not leaves the judgement as it is. -/
theorem ok_forward {zone name : Bytes} {pending : List (List CacheOp)}
    (ok : i.Ok cfg (ReadAfter c zone name) db clock pending) (other : c ≠ clock + 1)
    (db' : Database) : i.Ok cfg (ReadAfter c zone name) db' (clock + 1) pending := by
  have frame : ∀ k p, ¬ Guards Key.which k (script cfg []) → ReadAfter c zone name (db, clock) k p →
      ReadAfter c zone name (db', clock + 1) k p := fun k p _ fine past =>
    fine (Nat.le_of_lt_succ (Nat.lt_of_le_of_ne past other))
  exact (ok.change frame).shuffle fun ops listed => List.mem_cons.mp listed

theorem mem_of_place {before after : List Call}
    (place : s.calls = before ++ call :: after) : call ∈ s.calls := by
  rw [place]
  exact List.mem_append_cons_self

/-- Replacing one call keeps the others in order. -/
theorem Inv.replace (inv : s.Inv cfg) {before after : List Call} {call call' : Call}
    (place : s.calls = before ++ call :: after) (kept : ∀ other, CallOk s other → CallOk s' other)
    (ok : CallOk s' call') : ∀ other ∈ before ++ call' :: after, CallOk s' other := by
  intro other member
  rcases mem_replace call member with rfl | old
  · exact ok
  · rw [← place] at old
    exact kept other (inv.calls other old)

/-- A result that a waiting call may have reaches the calls that wait for it. -/
theorem CallOk.deliver {k : Key} {result : CallStage} (ok : CallOk s call)
    (unsettled : result ≠ .waiting)
    (fits : call.key = k → call.stage = .waiting → ∀ a readAt, result = .returned a readAt →
      ∀ c, Owed call c → c ≤ readAt) : CallOk s (call.deliver k result) := by
  unfold Call.deliver
  split
  · rename_i waiting
    split
    · rename_i same
      exact ⟨ok.complete, fun never => absurd never unsettled, fits same waiting⟩
    · exact ok
  · exact ok

theorem Inv.step_commit (inv : s.Inv cfg) (db : Database) (zone name : Bytes) :
    Inv cfg
      { s with
        db := db, clock := s.clock + 1
        invalidations := Function.update s.invalidations (s.clock + 1)
          (some ⟨zone, name, Store.invalidate zone name⟩) } := by
  have other : ∀ c x, s.invalidations c = some x → c ≠ s.clock + 1 := fun c x made =>
    Nat.ne_of_lt (Nat.lt_succ_of_le (inv.past c x made))
  refine ⟨inv.distinct, fun c x made => ?_, fun c zone' name' tracked => ?_, fun call member => ?_⟩
  · by_cases now : c = s.clock + 1
    · exact Nat.le_of_eq now
    · simp only [Function.update_of_ne now] at made
      exact Nat.le_succ_of_le (inv.past c x made)
  · by_cases now : c = s.clock + 1
    · subst now
      have fresh : s.outstanding (s.clock + 1) = [] := by
        rw [outstanding]
        cases made : s.invalidations (s.clock + 1) with
        | none => rfl
        | some x => exact absurd rfl (other _ x made)
      have ok := inv.ok (s.clock + 1) zone' name' (.inl (Nat.lt_succ_self _))
      rw [fresh] at ok
      rcases tracked with later | ⟨ops, made⟩
      · exact absurd later (Nat.lt_irrefl _)
      · simp only [Function.update_self, Option.some.injEq, Invalidation.mk.injEq] at made
        obtain ⟨rfl, rfl, rfl⟩ := made
        simp only [outstanding, Function.update_self]
        exact ok.change fun k p unguarded _ _ covers => absurd (guards_invalidate covers) unguarded
    · have before : s.Tracked c zone' name' := by
        rcases tracked with later | ⟨ops, made⟩
        · exact .inl (Nat.lt_of_succ_lt later)
        · simp only [Function.update_of_ne now] at made
          exact .inr ⟨ops, made⟩
      simp only [outstanding, Function.update_of_ne now]
      exact ok_forward (inv.ok c zone' name' before) now db
  · refine (inv.calls call member).mono inv (fun c zone' name' made => ?_)
      (follows_of_subset (List.Subset.refl _))
    simp only [Function.update_of_ne (other c _ made)]
    exact made

theorem Inv.step_invalidate (inv : s.Inv cfg) {zone name : Bytes} {op : CacheOp}
    {ops : List CacheOp} (place : s.invalidations c = some ⟨zone, name, op :: ops⟩)
    (ready : s.inst.Ready cfg op) :
    Inv cfg
      { s with
        inst := s.inst.run cfg op
        invalidations := Function.update s.invalidations c (some ⟨zone, name, ops⟩) } := by
  refine ⟨inv.distinct, fun c' x made => ?_, fun c' zone' name' tracked => ?_,
    fun call member => ?_⟩
  · by_cases here : c' = c
    · rw [here]
      exact inv.past c _ place
    · simp only [Function.update_of_ne here] at made
      exact inv.past c' x made
  · by_cases here : c' = c
    · subst here
      rcases tracked with later | ⟨rest, made⟩
      · exact absurd (inv.past c' _ place) (Nat.not_le_of_lt later)
      · simp only [Function.update_self, Option.some.injEq, Invalidation.mk.injEq] at made
        obtain ⟨rfl, rfl, rfl⟩ := made
        have listed : s.outstanding c' = [] ++ (op :: ops) :: [] := by
          rw [outstanding, place]
          rfl
        simp only [outstanding, Function.update_self]
        exact (inv.ok c' zone name (.inr ⟨_, place⟩)).run listed ready
    · have before : s.Tracked c' zone' name' := by
        simpa only [Tracked, Function.update_of_ne here] using tracked
      simp only [outstanding, Function.update_of_ne here]
      exact (inv.ok c' zone' name' before).run_other op
  · refine (inv.calls call member).mono inv (fun c' zone' name' made => ?_)
      (follows_of_subset (List.Subset.refl _))
    have other : c' ≠ c := by
      rintro rfl
      rw [place] at made
      cases made
    simp only [Function.update_of_ne other]
    exact made

theorem sublist_of_place {before after : List Load} (place : i.loads = before ++ l :: after) :
    List.Sublist (before ++ after) i.loads := by
  rw [place]
  exact (List.sublist_cons_self l after).append_left before

/-- **A step in which a call joins only a current load keeps the invariant.** -/
theorem Inv.step (inv : s.Inv cfg) (next : Step cfg encode (fun c l => l.Current c) s s') :
    s'.Inv cfg := by
  have stay : ∀ {t : Node}, t.invalidations = s.invalidations → t.inst.loads = s.inst.loads →
      ∀ other, CallOk s other → CallOk t other := fun same loads =>
    inv.keep same (follows_of_subset (by rw [loads]; exact List.Subset.refl _))
  cases next with
  | progress next =>
      obtain ⟨keys, follows⟩ := follows_of_progress next
      refine ⟨by rw [keys]; exact inv.distinct, inv.past, fun c zone name tracked => ?_,
        fun call member => inv.keep (by rfl) follows call (inv.calls call member)⟩
      exact (inv.ok c zone name tracked).step (judge_readAfter encode c zone name) (.progress next)
  | commit db zone name => exact inv.step_commit db zone name
  | invalidate place ready => exact inv.step_invalidate place ready
  | elsewhere db =>
      refine ⟨inv.distinct, fun c x made => Nat.le_succ_of_le (inv.past c x made),
        fun c zone name tracked => ?_,
        fun call member => stay (by rfl) (by rfl) call (inv.calls call member)⟩
      -- the commit has another number than those tracked
      rcases tracked with later | ⟨ops, made⟩
      · exact ok_forward (inv.ok c zone name (.inl (Nat.lt_of_succ_lt later)))
          (Nat.ne_of_gt later) db
      · exact ok_forward (inv.ok c zone name (.inr ⟨ops, made⟩))
          (Nat.ne_of_lt (Nat.lt_succ_of_le (inv.past c _ made))) db
  | event zone name =>
      exact ⟨inv.distinct, inv.past, inv.ok, fun call member =>
        stay (by rfl) (by rfl) call (inv.calls call member)⟩
  | reconnect =>
      exact ⟨inv.distinct, inv.past, inv.ok, fun call member =>
        stay (by rfl) (by rfl) call (inv.calls call member)⟩
  | handle place ready =>
      exact ⟨inv.distinct, inv.past, fun c zone name tracked =>
        (inv.ok c zone name tracked).run_other _, fun call member =>
        stay (by rfl) (by rfl) call (inv.calls call member)⟩
  | call k =>
      refine ⟨inv.distinct, inv.past, inv.ok, fun call member => ?_⟩
      rcases List.mem_cons.mp member with rfl | old
      · exact ⟨fun _ _ _ made => made, nofun, nofun⟩
      · exact stay (by rfl) (by rfl) call (inv.calls call old)
  | hit now place found =>
      have member := mem_of_place place
      refine ⟨inv.distinct, inv.past, inv.ok, inv.replace place (stay (by rfl) (by rfl))
        ⟨(inv.calls _ member).complete, nofun, ?_⟩⟩
      intro a readAt same c owed
      cases same
      exact inv.readAt_of_hit member found owed
  | miss now place absent =>
      exact ⟨inv.distinct, inv.past, inv.ok, inv.replace place (stay (by rfl) (by rfl))
        ⟨(inv.calls _ (mem_of_place place)).complete, nofun, nofun⟩⟩
  | join place inFlight same allowed =>
      have member := mem_of_place place
      refine ⟨inv.distinct, inv.past, inv.ok, inv.replace place (stay (by rfl) (by rfl))
        ⟨(inv.calls _ member).complete, fun _ c owed l listed key readAt read => ?_,
          nofun⟩⟩
      -- one load of a key is in flight at a time
      have one := List.inj_on_of_nodup_map inv.distinct listed inFlight (key.trans same.symm)
      rw [one] at read
      exact inv.readAt_of_current member inFlight same allowed read owed
  | @lead before after k began place first =>
      have follows : Follows s.clock s.inst.loads (⟨k, .entered⟩ :: s.inst.loads) := by
        intro l listed readAt read
        rcases List.mem_cons.mp listed with rfl | old
        · cases read
        · exact .inr ⟨l, old, rfl, read⟩
      refine ⟨?_, inv.past, fun c zone name tracked => ?_, inv.replace place
        (inv.keep (by rfl) follows)
        ⟨(inv.calls _ (mem_of_place place)).complete,
          fun _ c owed l listed key readAt read => ?_, nofun⟩⟩
      · refine List.nodup_cons.mpr ⟨fun taken => ?_, inv.distinct⟩
        obtain ⟨l, listed, key⟩ := List.mem_map.mp taken
        exact first l listed key
      · exact (inv.ok c zone name tracked).step (judge_readAfter encode c zone name) (.enter k)
      · rcases List.mem_cons.mp listed with rfl | old
        · cases read
        · exact absurd key (first l old)
  | @leave before after k epoch a readAt place =>
      have fewer := sublist_of_place place
      refine ⟨inv.distinct.sublist (fewer.map _), inv.past, fun c zone name tracked => ?_,
        fun call member => ?_⟩
      · exact (inv.ok c zone name tracked).step (judge_readAfter encode c zone name) (.leave place)
      · obtain ⟨old, listed, rfl⟩ := List.mem_map.mp member
        have ok := inv.calls old listed
        refine CallOk.deliver (inv.keep (by rfl) (follows_of_subset fewer.subset) old ok) nofun
          fun same waiting a' readAt' result c owed => ?_
        cases result
        refine ok.waiting waiting c owed ⟨k, .setting .returned epoch a readAt⟩ ?_
          same.symm readAt rfl
        rw [place]
        exact List.mem_append_cons_self
  | @fail before after l place asking =>
      have fewer := sublist_of_place place
      refine ⟨inv.distinct.sublist (fewer.map _), inv.past, fun c zone name tracked => ?_,
        fun call member => ?_⟩
      · exact (inv.ok c zone name tracked).step (judge_readAfter encode c zone name)
          (.fail place asking)
      · obtain ⟨old, listed, rfl⟩ := List.mem_map.mp member
        exact CallOk.deliver
          (inv.keep (by rfl) (follows_of_subset fewer.subset) old (inv.calls old listed)) nofun
          fun _ _ _ _ never => nomatch never

/-- **A call sees the writes before it, if it joins only current loads.** -/
theorem visible_run {db : Database}
    (run : Relation.ReflTransGen (Step cfg encode fun c l => l.Current c) (start db) s) :
    s.Visible := by
  have inv : s.Inv cfg := by
    induction run with
    | refl => exact inv_start db
    | tail _ next ih => exact ih.step next
  exact fun call member a readAt returned c owed =>
    (inv.calls call member).returned a readAt returned c owed

/-- A call after the creation of a zone finds it. -/
theorem visible_run_created :
    let cfg : Configs := .new 64 0 firstShard firstShard
    ∃ s : Node,
      Relation.ReflTransGen (Step cfg none fun c l => l.Current c) (start .empty) s ∧
      (∃ call ∈ s.calls, call.stage = .returned (.zone (some (.plain (ascii "a")))) 1 ∧
        Owed call 1) ∧
      s.Visible := by
  intro cfg
  have invalidated : Relation.ReflTransGen (Step cfg none fun c l => l.Current c)
      (start .empty) _ :=
    .head (.commit (.ofZone (ascii "a")) (ascii "a") [])
      (run_invalidation _ (fun l never => by cases never)
      (Function.update_self ..))
  have answered := invalidated.trans
    (call_alone _ (.zone (ascii "a")) 0 rfl rfl (by decide +kernel))
  have found : Key.answer none (.ofZone (ascii "a")) (.zone (ascii "a")) =
      .zone (some (.plain (ascii "a"))) := by
    decide +kernel
  exact ⟨_, answered, ⟨_, List.mem_cons_self, congrArg (CallStage.returned · 1) found,
    ascii "a", [], rfl, trivial⟩, visible_run answered⟩

end Node

end ShardDNS.Store

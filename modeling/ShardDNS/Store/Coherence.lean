import ShardDNS.Store.Loads
import ShardDNS.Store.Writes

/-!
# Coherence of the caches of a cluster

Instances share a database. A write is committed by one of them, which then invalidates
its own caches and publishes a change event; the event reaches every instance, at any
time and in any order, and all but its origin invalidate their caches too. Loads run on
every instance meanwhile, and a connection that was lost and found again clears both
caches of its instance.

What a write changes is covered by the invalidation it announces
(`Write.answer_of_not_covers`). So every instance stays in order with respect to the
invalidations that are outstanding for it (`World.ok_run`): those of writes it has not
finished to announce, those of events that have not reached it, and those under way. Once
there are none, whatever is cached anywhere is what the database answers
(`World.get_eq_answer_of_quiescent`).

An instance may stop between a commit and the event that announces it, an event may not be
published, and one that is may not arrive. A `Fleet` is a cluster with such faults: it keeps
book of the invalidations that will never be made, and every instance is in order with
respect to those and the outstanding ones (`Fleet.Ok.step`).
-/

set_option autoImplicit false

namespace ShardDNS.Store

open Go LabelTree EpochCache

/-! ## Change events -/

inductive ChangeKind where
  | unspecified
  | zone
  | record
  deriving DecidableEq, Repr

/-- A change event; its origin is the instance that publishes it. -/
structure ChangeEvent (I : Type) where
  origin : I
  kind : ChangeKind
  zone : Bytes
  name : Bytes

/-- The invalidation that the subscription of an instance makes for an event. -/
def ChangeEvent.handle {I : Type} [DecidableEq I] (ev : ChangeEvent I) (self : I) :
    List CacheOp :=
  if ev.origin = self then []
  else if ev.kind = .zone then invalidate ev.zone []
  else invalidate ev.zone ev.name

/-- An invalidation under way on the instance that wrote, and the event to be published
after it. -/
structure Announcement (I : Type) where
  event : ChangeEvent I
  ops : List CacheOp

/-- `notify`. -/
def notify {I : Type} (self : I) (kind : ChangeKind) (zone name : Bytes) : Announcement I :=
  let name := if kind = .zone then [] else name
  { event := { origin := self, kind := kind, zone := zone, name := name }
    ops := invalidate zone name }

/-! ## Writes -/

inductive Write where
  | createZone (z : Zone)
  | updateZone (z : Zone)
  | deleteZone (name : Bytes)
  | createRecord (r : Record)
  | deleteRecord (zone name rtype rdata : Bytes)

namespace Write

def zone : Write → Bytes
  | .createZone z => z.name
  | .updateZone z => z.name
  | .deleteZone name => name
  | .createRecord r => r.zone
  | .deleteRecord zone _ _ _ => zone

def name : Write → Bytes
  | .createRecord r => r.name
  | .deleteRecord _ name _ _ => name
  | _ => []

def kind : Write → ChangeKind
  | .createRecord _ => .record
  | .deleteRecord _ _ _ _ => .record
  | _ => .zone

/-- The database after a write that succeeds. -/
def apply (md5 : Bytes → Bytes) (encode : Option Encoder) (now : Int) (db : Database) :
    Write → Except StoreError Database
  | .createZone z => (db.createZone now z).map Effect.db
  | .updateZone z => (db.updateZone now z).map Effect.db
  | .deleteZone name => (db.deleteZone name).map Effect.db
  | .createRecord r => (db.createRecord md5 encode now r).map Effect.db
  | .deleteRecord zone name rtype rdata =>
      (db.deleteRecord md5 now zone name rtype rdata).map Effect.db

/-- The zone and the name of the write are normal. -/
def Normal (w : Write) : Prop :=
  normalizeZone w.zone = w.zone ∧ (w.kind = .record → normalizeName w.zone w.name = w.name)

/-- The places whose records the write may change. -/
def Changes (w : Write) (zone name : Bytes) : Prop :=
  zone = w.zone ∧ (w.kind = .record → name = w.name)

variable {md5 : Bytes → Bytes} {encode : Option Encoder} {now : Int} {db db' : Database} {w : Write}

/-- The records at the places a write does not change are the same. -/
theorem agreeOutside_apply (normal : w.Normal) (done : w.apply md5 encode now db = .ok db') :
    Database.AgreeOutside w.Changes db db' := by
  cases w with
  | createZone z =>
      obtain ⟨effect, created, rfl⟩ := map_eq_ok.mp done
      exact Database.agreeOutside_of_records (Database.rows_createZone created).2.2
  | updateZone z =>
      obtain ⟨effect, updated, rfl⟩ := map_eq_ok.mp done
      exact Database.agreeOutside_of_records (Database.rows_updateZone updated).2.2
  | deleteZone name =>
      obtain ⟨effect, deleted, rfl⟩ := map_eq_ok.mp done
      refine (Database.agreeOutside_deleteZone deleted).mono fun zone' name' inside => ?_
      exact ⟨inside.trans normal.1, fun never => by cases never⟩
  | createRecord r =>
      obtain ⟨effect, created, rfl⟩ := map_eq_ok.mp done
      obtain ⟨zone, name⟩ := normal
      refine (Database.agreeOutside_createRecord created).mono fun zone' name' inside => ?_
      rw [show normalizeZone r.zone = r.zone from zone] at inside
      exact ⟨inside.1, fun record => inside.2.trans (name record)⟩
  | deleteRecord zone' name' rtype rdata =>
      obtain ⟨effect, deleted, rfl⟩ := map_eq_ok.mp done
      obtain ⟨zone, name⟩ := normal
      refine (Database.agreeOutside_deleteRecord deleted).mono fun zone'' name'' inside => ?_
      rw [show normalizeZone zone' = zone' from zone] at inside
      exact ⟨inside.1, fun record => inside.2.trans (name record)⟩

/-- **What a write changes is covered by the invalidation it announces.** -/
theorem answer_of_not_covers (normal : w.Normal) (done : w.apply md5 encode now db = .ok db')
    {k : Key} (outside : ¬ Covers w.zone w.name k) :
    firstQuery encode db' k = firstQuery encode db k ∧
      k.answer encode db' = k.answer encode db := by
  have agree := agreeOutside_apply normal done
  cases k with
  | zone qname => exact absurd trivial outside
  | name k =>
      -- a place that changes and lies at the name or below it would be covered
      have elsewhere : ∀ lower, k.name = lower ∨ k.name ∈ ancestors dot lower →
          ¬ w.Changes k.zone lower := by
        rintro lower above ⟨sameZone, sameName⟩
        refine outside ⟨sameZone, ?_⟩
        cases kind : w.kind with
        | record =>
            rw [sameName kind] at above
            exact .inr above
        | zone => cases w <;> first | exact .inl rfl | cases kind
        | unspecified => cases w <;> cases kind
      constructor
      · have same := agree k.zone k.name (elsewhere k.name (.inl rfl))
        rw [firstQuery, firstQuery, Database.recordsAt, Database.recordsAt, same]
      · rw [Key.answer, Key.answer, Database.lookupName_of_agreeOutside agree
          (elsewhere k.name (.inl rfl)) (fun lower below => elsewhere lower (.inr below)) encode]

end Write

/-! ## The cluster -/

/-- The database, the number of its commits, the instances, the announcements under way,
the events that have not reached an instance yet, and the invalidations an instance
makes for those that have. -/
structure World (I : Type) where
  db : Database
  clock : Nat
  insts : I → Instance
  announcements : List (Announcement I)
  inbox : I → List (ChangeEvent I)
  running : I → List (List CacheOp)

namespace World

variable {I : Type} [DecidableEq I]

/-- Every instance is started with empty caches. -/
def start (db : Database) : World I :=
  { db := db, clock := 0, insts := fun _ => .empty, announcements := [], inbox := fun _ => []
    running := fun _ => [] }

/-- An instance in the place of another. -/
def withInst (w : World I) (j : I) (i : Instance) : World I :=
  { w with insts := Function.update w.insts j i }

/-- The connection of an instance was lost and is back: both its caches are to be cleared. -/
def reconnected (w : World I) (j : I) : World I :=
  { w with running := Function.update w.running j (invalidateAll :: w.running j) }

/-- What writes and their events do, with the configurations of the caches of every instance. -/
inductive Act (md5 : Bytes → Bytes) (encode : Option Encoder) (cfg : I → Configs) :
    World I → World I → Prop where
  /-- An instance commits a write, of which it will notify. -/
  | commit {w : World I} (j : I) {write : Write} {now : Int} {db : Database} (normal : write.Normal)
      (done : write.apply md5 encode now w.db = .ok db) :
      Act md5 encode cfg w
        { w with
          db := db, clock := w.clock + 1
          announcements := notify j write.kind write.zone write.name :: w.announcements }
  | invalidate {w : World I} {before after : List (Announcement I)} {ev : ChangeEvent I}
      {op : CacheOp} {ops : List CacheOp}
      (place : w.announcements = before ++ ⟨ev, op :: ops⟩ :: after)
      (ready : (w.insts ev.origin).Ready (cfg ev.origin) op) :
      Act md5 encode cfg w
        { w.withInst ev.origin ((w.insts ev.origin).run (cfg ev.origin) op) with
          announcements := before ++ ⟨ev, ops⟩ :: after }
  | publish {w : World I} {before after : List (Announcement I)} {ev : ChangeEvent I}
      (place : w.announcements = before ++ ⟨ev, []⟩ :: after) :
      Act md5 encode cfg w
        { w with announcements := before ++ after, inbox := fun j => ev :: w.inbox j }
  | deliver {w : World I} {j : I} {before after : List (ChangeEvent I)} {ev : ChangeEvent I}
      (place : w.inbox j = before ++ ev :: after) :
      Act md5 encode cfg w
        { w with
          inbox := Function.update w.inbox j (before ++ after)
          running := Function.update w.running j (ev.handle j :: w.running j) }
  | handle {w : World I} {j : I} {before after : List (List CacheOp)} {op : CacheOp}
      {ops : List CacheOp} (place : w.running j = before ++ (op :: ops) :: after)
      (ready : (w.insts j).Ready (cfg j) op) :
      Act md5 encode cfg w
        { w.withInst j ((w.insts j).run (cfg j) op) with
          running := Function.update w.running j (before ++ ops :: after) }

/-- A step of the cluster. -/
inductive Step (md5 : Bytes → Bytes) (encode : Option Encoder) (cfg : I → Configs) :
    World I → World I → Prop where
  | load {w : World I} {j : I} {i : Instance}
      (next : Instance.Step (cfg j) encode w.db w.clock (w.insts j) i) :
      Step md5 encode cfg w (w.withInst j i)
  | act {w w' : World I} (next : Act md5 encode cfg w w') : Step md5 encode cfg w w'
  | reconnect {w : World I} (j : I) : Step md5 encode cfg w (w.reconnected j)

/-- No invalidation and no event is outstanding. -/
def Quiescent (w : World I) : Prop :=
  w.announcements = [] ∧ ∀ j, w.inbox j = [] ∧ ∀ ops ∈ w.running j, ops = []

variable {md5 : Bytes → Bytes} {encode : Option Encoder} {cfg : I → Configs}

@[simp]
theorem insts_withInst (w : World I) (j : I) (i : Instance) : (w.withInst j i).insts j = i :=
  Function.update_self ..

@[simp]
theorem withInst_withInst (w : World I) (j : I) (i i' : Instance) :
    (w.withInst j i).withInst j i' = w.withInst j i' := by
  unfold withInst
  rw [Function.update_idem]

@[simp]
theorem withInst_self (w : World I) (j : I) : w.withInst j (w.insts j) = w := by
  unfold withInst
  rw [Function.update_eq_self]

/-! ## What runs undisturbed -/

/-- Loads of one instance run while the rest of the cluster stands still. -/
theorem run_loads (w : World I) (j : I) {i : Instance}
    (run : Relation.ReflTransGen (Instance.Step (cfg j) encode w.db w.clock) (w.insts j) i) :
    Relation.ReflTransGen (Step md5 encode cfg) w (w.withInst j i) := by
  have loads : Relation.ReflTransGen (Step md5 encode cfg) (w.withInst j (w.insts j))
      (w.withInst j i) := by
    refine run.lift (w.withInst j) fun i i' next => ?_
    have step : Step md5 encode cfg (w.withInst j i) ((w.withInst j i).withInst j i') :=
      .load (by rwa [insts_withInst])
    rwa [withInst_withInst] at step
  rwa [withInst_self] at loads

/-- The instance that wrote makes the operations of its invalidation. -/
theorem run_invalidate (w : World I) {ev : ChangeEvent I} {ops : List CacheOp}
    {rest : List (Announcement I)} (first : w.announcements = ⟨ev, ops⟩ :: rest)
    (unlocked : (w.insts ev.origin).Unlocked (cfg ev.origin)) :
    Relation.ReflTransGen (Act md5 encode cfg) w
      { w.withInst ev.origin ((w.insts ev.origin).runs (cfg ev.origin) ops) with
        announcements := ⟨ev, []⟩ :: rest } := by
  let state (i : Instance) (ops : List CacheOp) : World I :=
    { w.withInst ev.origin i with announcements := ⟨ev, ops⟩ :: rest }
  have same : state (w.insts ev.origin) ops = w := by
    simp only [state, withInst_self, ← first]
  have run : Relation.ReflTransGen (Act md5 encode cfg) (state (w.insts ev.origin) ops)
      (state ((w.insts ev.origin).runs (cfg ev.origin) ops) []) := by
    refine Instance.runs_in state (fun {i op ops} ready => ?_) unlocked ops
    have here : (state i (op :: ops)).insts ev.origin = i := insts_withInst ..
    have place : (state i (op :: ops)).announcements = [] ++ ⟨ev, op :: ops⟩ :: rest := rfl
    have step : Act md5 encode cfg (state i (op :: ops)) _ := .invalidate place (by rwa [here])
    rw [here] at step
    simpa only [state, withInst, Function.update_idem, List.nil_append] using step
  rwa [same] at run

/-- An instance makes the operations of the last event that has reached it. -/
theorem run_handle (w : World I) (j : I) {ops : List CacheOp} {rest : List (List CacheOp)}
    (first : w.running j = ops :: rest) (unlocked : (w.insts j).Unlocked (cfg j)) :
    Relation.ReflTransGen (Act md5 encode cfg) w
      { w.withInst j ((w.insts j).runs (cfg j) ops) with
        running := Function.update w.running j ([] :: rest) } := by
  let state (i : Instance) (ops : List CacheOp) : World I :=
    { w.withInst j i with running := Function.update w.running j (ops :: rest) }
  have same : state (w.insts j) ops = w := by
    simp only [state, withInst_self, ← first, Function.update_eq_self]
  have run : Relation.ReflTransGen (Act md5 encode cfg) (state (w.insts j) ops)
      (state ((w.insts j).runs (cfg j) ops) []) := by
    refine Instance.runs_in state (fun {i op ops} ready => ?_) unlocked ops
    have here : (state i (op :: ops)).insts j = i := insts_withInst ..
    have place : (state i (op :: ops)).running j = [] ++ (op :: ops) :: rest :=
      Function.update_self ..
    have step : Act md5 encode cfg (state i (op :: ops)) _ := .handle place (by rwa [here])
    rw [here] at step
    simpa only [state, withInst, Function.update_idem, List.nil_append] using step
  rwa [same] at run

/-! ## The invariant -/

/-- What is read is what the database answers now, as far as it has been read. -/
def Correct (encode : Option Encoder) : Database × Nat → Key → Held × Nat → Prop
  | (db, _), k, (.bare, _) => firstQuery encode db k = .bare
  | (db, _), k, (.whole a, _) => a = k.answer encode db

theorem judge_correct (encode : Option Encoder) : Judge encode (Correct encode) where
  first db clock k := by
    cases read : firstQuery encode db k with
    | bare => exact read
    | whole a => exact answer_of_firstQuery read
  second db clock k readAt bare := answer_of_secondQuery bare

/-- The operations an announcement has in store for an instance: what is left to do on its
origin, and all of what the event will make the others do. -/
def pendingOf (j : I) (a : Announcement I) : List CacheOp :=
  if a.event.origin = j then a.ops else a.event.handle j

/-- The operations outstanding for an instance. -/
def outstanding (w : World I) (j : I) : List (List CacheOp) :=
  w.announcements.map (pendingOf j) ++ ((w.inbox j).map (·.handle j) ++ w.running j)

/-- An event makes every instance but its origin do what its origin did. -/
theorem pendingOf_notify (j j' : I) (write : Write) :
    pendingOf j' (notify j write.kind write.zone write.name) =
      invalidate write.zone write.name := by
  have short : (if write.kind = .zone then [] else write.name) = write.name := by
    cases write <;> rfl
  rw [pendingOf, notify]
  dsimp only
  rw [short]
  by_cases here : j = j'
  · rw [if_pos here]
  · rw [if_neg here, ChangeEvent.handle, if_neg here]
    dsimp only
    cases write <;> rfl

/-- Nothing is outstanding for an instance of a quiescent cluster. -/
theorem Quiescent.ended {w : World I} (quiet : w.Quiescent) (j : I) :
    ∀ ops ∈ w.outstanding j, ops = [] := by
  obtain ⟨announced, waiting⟩ := quiet
  obtain ⟨delivered, ended⟩ := waiting j
  rw [outstanding, announced, delivered]
  exact ended

end World

/-! ## Faults -/

/-- A cluster whose instances may stop at any time and whose events may get lost, with the
operations that an instance would have made for the lost ones. -/
structure Fleet (I : Type) where
  world : World I
  lost : I → List (List CacheOp)

namespace Fleet

variable {I : Type} [DecidableEq I]

def start (db : Database) : Fleet I := { world := .start db, lost := fun _ => [] }

/-- An instance is stopped and started again, with empty caches. What it had still to publish
is never published, and no event that was on its way to it arrives. -/
def restarted (s : Fleet I) (j : I) : Fleet I :=
  { world :=
      { s.world with
        insts := Function.update s.world.insts j .empty
        announcements := s.world.announcements.filter fun a => a.event.origin ≠ j
        inbox := Function.update s.world.inbox j []
        running := Function.update s.world.running j [] }
    lost := fun j' =>
      if j' = j then []
      else (s.world.announcements.filter fun a => a.event.origin = j).map (·.event.handle j') ++
        s.lost j' }

/-- What outages of the bus do. -/
inductive Outage : Fleet I → Fleet I → Prop where
  /-- `Publish` fails, which is logged. -/
  | unpublished {s : Fleet I} {before after : List (Announcement I)} {ev : ChangeEvent I}
      (place : s.world.announcements = before ++ ⟨ev, []⟩ :: after) :
      Outage s
        { world := { s.world with announcements := before ++ after }
          lost := fun j => ev.handle j :: s.lost j }
  /-- An event is published and does not reach an instance. -/
  | lose {s : Fleet I} {j : I} {before after : List (ChangeEvent I)} {ev : ChangeEvent I}
      (place : s.world.inbox j = before ++ ev :: after) :
      Outage s
        { world := { s.world with inbox := Function.update s.world.inbox j (before ++ after) }
          lost := Function.update s.lost j (ev.handle j :: s.lost j) }
  /-- Both caches are about to be cleared, which makes up for the events that were lost. -/
  | reconnect {s : Fleet I} (j : I) :
      Outage s { world := s.world.reconnected j, lost := Function.update s.lost j [] }

/-- A step of the cluster, or a fault. -/
inductive Step (md5 : Bytes → Bytes) (encode : Option Encoder) (cfg : I → Configs) :
    Fleet I → Fleet I → Prop where
  | load {s : Fleet I} {j : I} {i : Instance}
      (next : Instance.Step (cfg j) encode s.world.db s.world.clock (s.world.insts j) i) :
      Step md5 encode cfg s { s with world := s.world.withInst j i }
  | act {s : Fleet I} {w : World I} (next : World.Act md5 encode cfg s.world w) :
      Step md5 encode cfg s { s with world := w }
  | outage {s s' : Fleet I} (next : Outage s s') : Step md5 encode cfg s s'
  | restart {s : Fleet I} (j : I) : Step md5 encode cfg s (s.restarted j)

/-- The operations that are outstanding for an instance, and those that will never be made. -/
def pending (s : Fleet I) (j : I) : List (List CacheOp) := s.world.outstanding j ++ s.lost j

/-- Every instance is in order. -/
def Ok (encode : Option Encoder) (cfg : I → Configs) (s : Fleet I) : Prop :=
  ∀ j, (s.world.insts j).Ok (cfg j) (World.Correct encode) s.world.db s.world.clock (s.pending j)

variable {md5 : Bytes → Bytes} {encode : Option Encoder} {cfg : I → Configs} {s s' : Fleet I}

/-- Only one instance moves. -/
theorem Ok.update (ok : s.Ok encode cfg) {j : I} {i : Instance}
    (moved : i.Ok (cfg j) (World.Correct encode) s.world.db s.world.clock (s'.pending j))
    (insts : s'.world.insts = Function.update s.world.insts j i)
    (db : s'.world.db = s.world.db) (clock : s'.world.clock = s.world.clock)
    (others : ∀ j', j' ≠ j → ∀ ops ∈ s.pending j', ops = [] ∨ ops ∈ s'.pending j') :
    s'.Ok encode cfg := by
  intro j'
  rw [insts, db, clock]
  by_cases here : j' = j
  · subst here
    rw [Function.update_self]
    exact moved
  · rw [Function.update_of_ne here]
    exact (ok j').shuffle (others j' here)

/-- No instance moves. -/
theorem Ok.shuffle (ok : s.Ok encode cfg) (insts : s'.world.insts = s.world.insts)
    (db : s'.world.db = s.world.db) (clock : s'.world.clock = s.world.clock)
    (kept : ∀ j, ∀ ops ∈ s.pending j, ops = [] ∨ ops ∈ s'.pending j) : s'.Ok encode cfg := by
  intro j
  rw [insts, db, clock]
  exact (ok j).shuffle (kept j)

/-- What is listed for an instance still is when more is listed for one. -/
theorem mem_update_cons {lists : I → List (List CacheOp)} {j j' : I} {ops more : List CacheOp}
    (listed : ops ∈ lists j') : ops ∈ Function.update lists j (more :: lists j) j' := by
  by_cases here : j' = j
  · subst here
    rw [Function.update_self]
    exact .tail _ listed
  · rwa [Function.update_of_ne here]

/-- What is pending with an announcement that is only to be published is nothing, what the event
has others do, or pending without it. -/
theorem mem_pending_of_announced {before after : List (Announcement I)} {ev : ChangeEvent I}
    (place : s.world.announcements = before ++ ⟨ev, []⟩ :: after) {j : I} {ops : List CacheOp}
    (listed : ops ∈ s.pending j) :
    ops = [] ∨ ops = ev.handle j ∨
      ops ∈ Fleet.pending { s with world.announcements := before ++ after } j := by
  simp only [pending, World.outstanding, place, List.map_append, List.map_cons,
    List.mem_append, List.mem_cons] at listed ⊢
  rcases listed with ((early | rfl | late) | waiting) | gone
  · exact .inr (.inr (.inl (.inl (.inl early))))
  · rw [World.pendingOf]
    split
    · exact .inl rfl
    · exact .inr (.inl rfl)
  · exact .inr (.inr (.inl (.inl (.inr late))))
  · exact .inr (.inr (.inl (.inr waiting)))
  · exact .inr (.inr (.inr gone))

/-- What is pending with an event on its way to an instance is what the event has that one do, or
pending without it. -/
theorem mem_pending_of_inbox {before after : List (ChangeEvent I)} {ev : ChangeEvent I} {j : I}
    (place : s.world.inbox j = before ++ ev :: after) {j' : I} {ops : List CacheOp}
    (listed : ops ∈ s.pending j') :
    j' = j ∧ ops = ev.handle j ∨
      ops ∈ Fleet.pending
        { s with world.inbox := Function.update s.world.inbox j (before ++ after) } j' := by
  by_cases here : j' = j
  · subst here
    simp only [pending, World.outstanding, place, Function.update_self, List.map_append,
      List.map_cons, List.mem_append, List.mem_cons] at listed ⊢
    rcases listed with (announced | (early | rfl | late) | under) | gone
    · exact .inr (.inl (.inl announced))
    · exact .inr (.inl (.inr (.inl (.inl early))))
    · exact .inl ⟨trivial, rfl⟩
    · exact .inr (.inl (.inr (.inl (.inr late))))
    · exact .inr (.inl (.inr (.inr under)))
    · exact .inr (.inr gone)
  · refine .inr ?_
    simp only [pending, World.outstanding, Function.update_of_ne here] at listed ⊢
    exact listed

/-- **What writes and their events do keeps every instance in order.** -/
theorem Ok.act (ok : s.Ok encode cfg) {w : World I} (next : World.Act md5 encode cfg s.world w) :
    Ok encode cfg { s with world := w } := by
  cases next with
  | @commit j write now db normal done =>
      intro j'
      rw [pending, World.outstanding, List.map_cons, World.pendingOf_notify]
      refine (ok j').change ?_
      rintro k ⟨h, readAt⟩ unguarded fine
      have outside : ¬ Covers write.zone write.name k := fun covers =>
        unguarded (guards_invalidate covers)
      obtain ⟨first, answer⟩ := Write.answer_of_not_covers normal done outside
      cases h with
      | bare => exact first.trans fine
      | whole a => exact Eq.trans fine answer.symm
  | @invalidate before after ev op ops place ready =>
      refine ok.update ?_ rfl rfl rfl fun j' other ops' listed => .inr ?_
      · have listed : s.pending ev.origin =
            before.map (World.pendingOf ev.origin) ++ (op :: ops) ::
              (after.map (World.pendingOf ev.origin) ++
                ((s.world.inbox ev.origin).map (·.handle ev.origin) ++
                  (s.world.running ev.origin ++ s.lost ev.origin))) := by
          simp only [pending, World.outstanding, place, List.map_append, List.map_cons,
            World.pendingOf, if_true, List.append_assoc, List.cons_append]
        have ran := (ok ev.origin).run listed ready
        simp only [pending, World.outstanding, World.withInst, List.map_append, List.map_cons,
          List.append_assoc, List.cons_append]
        rwa [World.pendingOf, if_pos rfl]
      · -- for the others an announcement counts as a whole
        rw [pending, World.outstanding, place, List.map_append, List.map_cons, World.pendingOf,
          if_neg other.symm] at listed
        rw [pending, World.outstanding, List.map_append, List.map_cons, World.pendingOf,
          if_neg other.symm]
        exact listed
  | @publish before after ev place =>
      refine ok.shuffle rfl rfl rfl fun j ops listed => ?_
      rcases mem_pending_of_announced place listed with done | rfl | rest
      · exact .inl done
      · exact .inr (by simp [pending, World.outstanding])
      · refine .inr ?_
        simp only [pending, World.outstanding, List.map_cons, List.mem_append,
          List.mem_cons] at rest ⊢
        exact rest.imp_left fun left => left.imp_right fun waiting => waiting.imp_left .inr
  | @deliver j before after ev place =>
      refine ok.shuffle rfl rfl rfl fun j' ops listed => .inr ?_
      rcases mem_pending_of_inbox place listed with ⟨rfl, rfl⟩ | rest
      · simp [pending, World.outstanding]
      · simp only [pending, World.outstanding, List.mem_append] at rest ⊢
        exact rest.imp_left fun left => left.imp_right fun waiting =>
          waiting.imp_right mem_update_cons
  | @handle j before after op ops place ready =>
      refine ok.update ?_ rfl rfl rfl fun j' other ops' listed => .inr ?_
      · have listed : s.pending j = (s.world.announcements.map (World.pendingOf j) ++
            ((s.world.inbox j).map (·.handle j) ++ before)) ++ (op :: ops) ::
              (after ++ s.lost j) := by
          simp only [pending, World.outstanding, place, List.append_assoc, List.cons_append]
        have ran := (ok j).run listed ready
        simp only [List.append_assoc] at ran
        simp only [pending, World.outstanding, World.withInst, Function.update_self,
          List.append_assoc, List.cons_append]
        exact ran
      · simp only [pending, World.outstanding, Function.update_of_ne other]
        exact listed

/-- An instance that has just been started has nothing to be stale. For the others the
removals that it will not announce are lost. -/
theorem Ok.restart (ok : s.Ok encode cfg) (j : I) : (s.restarted j).Ok encode cfg := by
  refine ok.update (j := j) Instance.ok_empty rfl rfl rfl fun j' other ops listed => .inr ?_
  simp only [pending, World.outstanding, restarted, Function.update_of_ne other, if_neg other,
    List.mem_append, List.mem_map, List.mem_filter, decide_eq_true_eq] at listed ⊢
  rcases listed with (⟨a, announced, rfl⟩ | waiting) | gone
  · by_cases here : a.event.origin = j
    · refine .inr (.inl ⟨a, ⟨announced, here⟩, ?_⟩)
      rw [World.pendingOf, if_neg fun same => other (same.symm.trans here)]
    · exact .inl (.inl ⟨a, ⟨announced, here⟩, rfl⟩)
  · exact .inl (.inr waiting)
  · exact .inr (.inr gone)

/-- So does an outage. -/
theorem Ok.outage (ok : s.Ok encode cfg) (next : Outage s s') : s'.Ok encode cfg := by
  cases next with
  | @unpublished before after ev place =>
      refine ok.shuffle rfl rfl rfl fun j ops listed => ?_
      rcases mem_pending_of_announced place listed with done | rfl | rest
      · exact .inl done
      · exact .inr (by simp [pending])
      · refine .inr ?_
        rw [pending, List.mem_append] at rest ⊢
        exact rest.imp_right (.tail _)
  | @lose j before after ev place =>
      refine ok.shuffle rfl rfl rfl fun j' ops listed => .inr ?_
      rcases mem_pending_of_inbox place listed with ⟨rfl, rfl⟩ | rest
      · simp [pending]
      · rw [pending, List.mem_append] at rest ⊢
        exact rest.imp_right mem_update_cons
  | reconnect j =>
      refine ok.update (j := j) ((ok j).clearing ?_) (Function.update_eq_self ..).symm rfl rfl
        fun j' other ops listed => .inr ?_
      · simp [pending, World.outstanding, World.reconnected]
      · simp only [pending, World.outstanding, World.reconnected, Function.update_of_ne other]
        exact listed

/-- **Every step keeps every instance in order.** -/
theorem Ok.step (ok : s.Ok encode cfg) (next : Step md5 encode cfg s s') : s'.Ok encode cfg := by
  cases next with
  | @load j i next =>
      exact ok.update ((ok j).step (World.judge_correct encode) next) rfl rfl rfl
        fun _ _ _ listed => .inr listed
  | act next => exact ok.act next
  | outage next => exact ok.outage next
  | restart j => exact ok.restart j

theorem ok_start (db : Database) : (start db).Ok encode cfg := fun _ => Instance.ok_empty

end Fleet

namespace World

variable {I : Type} [DecidableEq I] {md5 : Bytes → Bytes} {encode : Option Encoder}
  {cfg : I → Configs} {w : World I}

/-- A cluster without faults loses nothing. -/
theorem Step.reliable {w w' : World I} (next : Step md5 encode cfg w w') :
    Fleet.Step md5 encode cfg ⟨w, fun _ => []⟩ ⟨w', fun _ => []⟩ := by
  cases next with
  | load next => exact .load next
  | act next => exact .act next
  | reconnect j =>
      have step : Fleet.Outage ⟨w, fun _ => []⟩
          ⟨w.reconnected j, Function.update (fun _ => []) j []⟩ := .reconnect j
      rw [Function.update_eq_self] at step
      exact .outage step

/-- Every state reached from the start is in order. -/
theorem ok_run {db : Database} (run : Relation.ReflTransGen (Step md5 encode cfg) (start db) w) :
    Fleet.Ok encode cfg ⟨w, fun _ => []⟩ := by
  induction run with
  | refl => exact Fleet.ok_start db
  | tail _ next ih => exact ih.step next.reliable

/-- **Caches are coherent when nothing is outstanding.** Whatever a cache of the cluster
answers, the absence of a zone or of a name included, is what the database answers. -/
theorem get_eq_answer_of_quiescent {db : Database}
    (run : Relation.ReflTransGen (Step md5 encode cfg) (start db) w) (quiet : w.Quiescent)
    {j : I} {now : Int} {k : Key} {a : Answer} {readAt : Nat}
    (hit : (w.insts j).cache.get (cfg j) now k = some (a, readAt)) :
    a = k.answer encode w.db := by
  refine (ok_run run j).good_of_quiet (fun ops listed => quiet.ended j ops ?_)
    (CachedResolver.entry_of_get hit)
  rwa [Fleet.pending, List.append_nil] at listed

/-- One of two instances deletes a zone. -/
theorem act_withdrawn (cfg : Bool → Configs) (insts : Bool → Instance) :
    Act id none cfg ⟨.ofZone (ascii "a"), 0, insts, [], fun _ => [], fun _ => []⟩
      ⟨.empty, 1, insts, [notify false .zone (ascii "a") []], fun _ => [], fun _ => []⟩ := by
  have normal : (Write.deleteZone (ascii "a")).Normal :=
    ⟨by decide +kernel, fun never => by cases never⟩
  have done : (Write.deleteZone (ascii "a")).apply id none 0 (.ofZone (ascii "a")) =
      .ok .empty := rfl
  exact .commit false normal done

/-- And both remove what they have cached of it. -/
theorem run_withdrawn (cfg : Bool → Configs) (insts : Bool → Instance)
    (unlocked : ∀ j, (insts j).Unlocked (cfg j)) :
    Relation.ReflTransGen (Act id none cfg)
      ⟨.ofZone (ascii "a"), 0, insts, [], fun _ => [], fun _ => []⟩
      ⟨.empty, 1, fun j => (insts j).runs (cfg j) (invalidate (ascii "a") []), [], fun _ => [],
        fun _ => [[]]⟩ := by
  let ops := invalidate (ascii "a") []
  let ev : ChangeEvent Bool := ⟨false, .zone, ascii "a", []⟩
  let first := Function.update insts false ((insts false).runs (cfg false) ops)
  let both := Function.update first true ((insts true).runs (cfg true) ops)
  let arrived := Function.update (fun _ : Bool => [ev]) true []
  let begun := Function.update (fun _ : Bool => ([] : List (List CacheOp))) true [ops]
  let ended := Function.update begun true [[]]
  let announced : World Bool := ⟨.empty, 1, insts, [⟨ev, ops⟩], fun _ => [], fun _ => []⟩
  let invalidated : World Bool := ⟨.empty, 1, first, [⟨ev, []⟩], fun _ => [], fun _ => []⟩
  let published : World Bool := ⟨.empty, 1, first, [], fun _ => [ev], fun _ => []⟩
  let handled : World Bool := ⟨.empty, 1, both, [], arrived, ended⟩
  have toAnnounce : announced.announcements = ⟨ev, ops⟩ :: [] := rfl
  have toPublish : invalidated.announcements = [] ++ ⟨ev, []⟩ :: [] := rfl
  have there : published.inbox true = [] ++ ev :: [] := rfl
  have here : handled.inbox false = [] ++ ev :: [] := rfl
  have invalidates : Relation.ReflTransGen (Act id none cfg) announced invalidated :=
    run_invalidate announced toAnnounce (unlocked false)
  have handles : Relation.ReflTransGen (Act id none cfg)
      ⟨.empty, 1, first, [], arrived, begun⟩ handled := run_handle _ true rfl (unlocked true)
  have run : Relation.ReflTransGen (Act id none cfg) _
      ⟨.empty, 1, both, [], Function.update arrived false [], Function.update ended false [[]]⟩ :=
    ((((Relation.ReflTransGen.head (act_withdrawn cfg insts) invalidates).tail
      (.publish toPublish)).tail
      (.deliver there)).trans handles).tail (.deliver here)
  have insts' : both = fun j => (insts j).runs (cfg j) ops := by
    funext j
    cases j <;> rfl
  have inbox : Function.update arrived false [] = fun _ => [] := by
    funext j
    cases j <;> rfl
  have running : Function.update ended false [[]] = fun _ => [[]] := by
    funext j
    cases j <;> rfl
  rwa [insts', inbox, running] at run

/-- A zone is cached by one of two instances and deleted by the other. Asked again, the first
caches that it is absent. -/
theorem get_eq_answer_of_quiescent_absent :
    let cfg : Configs := .new 64 0 Cache.firstShard Cache.firstShard
    ∃ before after : World Bool,
      Relation.ReflTransGen (Step id none fun _ => cfg) (start (.ofZone (ascii "a"))) before ∧
      (before.insts true).cache.get cfg 0 (.zone (ascii "a")) =
        some (.zone (some (.plain (ascii "a"))), 0) ∧
      Relation.ReflTransGen (Step id none fun _ => cfg) before after ∧ after.Quiescent ∧
      (after.insts true).cache.get cfg 0 (.zone (ascii "a")) = some (.zone none, 1) ∧
      Answer.zone none = Key.answer none after.db (.zone (ascii "a")) := by
  intro cfg
  let before : World Bool := (start (.ofZone (ascii "a"))).withInst true
    ⟨CachedResolver.empty.put cfg 0 [] 0 (.zone (ascii "a")) (.zone (some (.plain (ascii "a")))),
      []⟩
  have cached : Relation.ReflTransGen (Step id none fun _ => cfg) (start (.ofZone (ascii "a")))
      before := run_loads _ true (Instance.load_alone (.zone (ascii "a")) 0 [])
  have withdrawn : Relation.ReflTransGen (Step id none fun _ => cfg) before _ :=
    (run_withdrawn (fun _ => cfg) before.insts fun j l member => by cases j <;> cases member).lift
      id fun _ _ next => .act next
  have reloaded := withdrawn.trans
    (run_loads _ true (Instance.load_alone (.zone (ascii "a")) 0 []))
  refine ⟨before, _, cached, by decide +kernel, reloaded, ?quiet, ?hit,
    get_eq_answer_of_quiescent (j := true) (cached.trans reloaded) ?quiet ?hit⟩
  case quiet => exact ⟨rfl, fun j => ⟨rfl, fun ops ended => List.mem_singleton.mp ended⟩⟩
  case hit => decide +kernel

end World

end ShardDNS.Store

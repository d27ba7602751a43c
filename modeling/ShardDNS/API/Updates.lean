import ShardDNS.API.Service
import Mathlib.Logic.Relation

/-!
# Concurrent updates of a zone

`UpdateZone` reads the zone, replaces the settings its request gives, and writes all six of
them back. Nothing holds the row between the two, so a request writes back, for the
settings it does not give, what it read. Where these have not changed since, every setting
is one that a request gave, or the first one if none did (`explained_of_run`). Where they
have, the change is undone: of two requests that give different settings, one is lost
(`lostUpdate`).
-/

set_option autoImplicit false

namespace ShardDNS.API

open Go DNS Store

/-! ## Settings -/

inductive Field where
  | primaryNS
  | adminEmail
  | refresh
  | retry
  | expire
  | minTTL
  deriving DecidableEq, Repr

abbrev Setting := Bytes ⊕ Int32

namespace Field

/-- The setting of a zone. -/
def value : Field → Zone → Setting
  | primaryNS, z => .inl z.primaryNS
  | adminEmail, z => .inl z.adminEmail
  | refresh, z => .inr z.refresh
  | retry, z => .inr z.retry
  | expire, z => .inr z.expire
  | minTTL, z => .inr z.minTTL

def ofString (v : Bytes) : Option Setting := if v = [] then none else some (.inl v)

def ofInt (v : Int32) : Option Setting := if v = 0 then none else some (.inr v)

/-- The setting a request gives. Zero and the empty string keep the one there is. -/
def asked : Field → ZoneRequest → Option Setting
  | primaryNS, m => ofString m.primaryNS
  | adminEmail, m => ofString m.adminEmail
  | refresh, m => ofInt m.refresh
  | retry, m => ofInt m.retry
  | expire, m => ofInt m.expire
  | minTTL, m => ofInt m.minimumTTL

end Field

theorem orString_eq (v default : Bytes) :
    Sum.inl (orString v default) = (Field.ofString v).getD (.inl default : Setting) := by
  unfold orString Field.ofString
  split <;> rfl

theorem orInt_eq (v default : Int32) :
    Sum.inr (orInt v default) = (Field.ofInt v).getD (.inr default : Setting) := by
  unfold orInt Field.ofInt
  split <;> rfl

theorem getZone_congr {db : Database} {name name' : Bytes}
    (same : normalizeZone name = normalizeZone name') : db.getZone name = db.getZone name' := by
  rw [Database.getZone, Database.getZone, same]

theorem getZone_eq_ok_iff {db : Database} {name : Bytes} {z : Zone} :
    db.getZone name = .ok z ↔ (db.zones.find? fun z => z.name = normalizeZone name) = some z := by
  unfold Database.getZone
  cases db.zones.find? fun z => decide (z.name = normalizeZone name) <;> simp

/-- `Store.UpdateZone` sets what it is given. -/
theorem getZone_updateZone {db : Database} {now : Int} {z : Zone} {effect : Effect Zone}
    (updated : db.updateZone now z = .ok effect) :
    ∃ cur, effect.db.getZone z.name = .ok (Database.settingsOf z now cur) := by
  unfold Database.updateZone at updated
  split at updated
  · cases updated
  · rename_i cur stored
    have result := Except.ok.inj updated
    refine ⟨cur, getZone_eq_ok_iff.mpr ?_⟩
    rw [← result, Database.updateZones, List.find?_map, Option.map_eq_some_iff]
    refine ⟨cur, ?_, ?_⟩
    · rw [← stored]
      congr 1
      funext old
      dsimp only [Function.comp]
      split <;> rfl
    · have named := List.find?_some stored
      rw [decide_eq_true_eq] at named
      exact if_pos named

/-- **What `UpdateZone` leaves: the settings of its request, and the others as it read
them.** -/
theorem value_updateZone {seen db : Database} {now : Int} {m : ZoneRequest} {reply : Reply Zone}
    {old : Zone} (normal : normalizeZone (normalizeZone m.name) = normalizeZone m.name)
    (done : updateZone seen db now m = .ok reply) (read : seen.getZone m.name = .ok old) :
    ∃ new, reply.effect.db.getZone m.name = .ok new ∧
      ∀ f : Field, f.value new = (f.asked m).getD (f.value old) := by
  simp only [updateZone, bind_eq_ok, mapError_eq_ok] at done
  obtain ⟨z, found, ⟨⟩, -, effect, updated, same⟩ := done
  rw [read] at found
  cases found
  have named : old.name = normalizeZone m.name := by
    simpa using List.find?_some (getZone_eq_ok_iff.mp read)
  obtain ⟨cur, stored⟩ := getZone_updateZone updated
  have place : normalizeZone old.name = normalizeZone m.name := by rw [named, normal]
  rw [← Except.ok.inj same]
  refine ⟨_, (getZone_congr place).symm.trans stored, fun f => ?_⟩
  cases f with
  | primaryNS => exact orString_eq ..
  | adminEmail => exact orString_eq ..
  | refresh => exact orInt_eq ..
  | retry => exact orInt_eq ..
  | expire => exact orInt_eq ..
  | minTTL => exact orInt_eq ..

/-! ## Interleavings -/

/-- The database, the requests that have read, with what they read from, and those that have
succeeded. -/
structure Updates where
  db : Database
  reads : List (ZoneRequest × Database)
  done : List ZoneRequest

/-- A step of any number of `UpdateZone` calls on a zone, where a write may take place only
as `allowed`. A call that fails, early or late, changes nothing. -/
inductive Updates.Step (zone : Bytes) (allowed : ZoneRequest → Database → Database → Prop) :
    Updates → Updates → Prop where
  | read {s : Updates} (m : ZoneRequest) (here : normalizeZone m.name = zone) :
      Step zone allowed s { s with reads := (m, s.db) :: s.reads }
  | write {seen db : Database} {before after : List (ZoneRequest × Database)}
      {done : List ZoneRequest} {m : ZoneRequest} {now : Int} {reply : Reply Zone}
      (meets : allowed m seen db) (written : updateZone seen db now m = .ok reply) :
      Step zone allowed ⟨db, before ++ (m, seen) :: after, done⟩
        ⟨reply.effect.db, before ++ after, m :: done⟩
  | fail {seen db : Database} {before after : List (ZoneRequest × Database)}
      {done : List ZoneRequest} {m : ZoneRequest} :
      Step zone allowed ⟨db, before ++ (m, seen) :: after, done⟩ ⟨db, before ++ after, done⟩

/-- The settings that the request does not give are as they were when it read them. -/
def Unchanged (m : ZoneRequest) (seen db : Database) : Prop :=
  ∀ (f : Field) (old cur : Zone), seen.getZone m.name = .ok old → db.getZone m.name = .ok cur →
    f.asked m = none → f.value cur = f.value old

/-- Every setting is one that a request gave, or the first if none gave one. -/
def Explained (first : Zone) (done : List ZoneRequest) (z : Zone) : Prop :=
  ∀ f : Field, (∃ m ∈ done, f.asked m = some (f.value z)) ∨
    ((∀ m ∈ done, f.asked m = none) ∧ f.value z = f.value first)

/-- A request that finds the settings it does not give unchanged adds its own. -/
theorem Explained.cons {first cur new : Zone} {done : List ZoneRequest} {m : ZoneRequest}
    (explained : Explained first done cur)
    (given : ∀ f : Field, f.value new = (f.asked m).getD (f.value cur)) :
    Explained first (m :: done) new := by
  intro f
  cases asks : f.asked m with
  | some v =>
      refine .inl ⟨m, List.mem_cons_self, ?_⟩
      rw [given f, asks]
      rfl
  | none =>
      have kept : f.value new = f.value cur := by rw [given f, asks]; rfl
      rw [kept]
      refine (explained f).imp (fun ⟨m', member, gave⟩ => ⟨m', List.mem_cons_of_mem _ member, gave⟩)
        fun ⟨nobody, same⟩ => ⟨fun m' member => ?_, same⟩
      rcases List.mem_cons.mp member with rfl | member
      · exact asks
      · exact nobody m' member

variable {zone : Bytes} {first : Zone} {s s' : Updates}

/-- What a run keeps while no request writes back a setting that has changed. -/
structure Updates.Inv (zone : Bytes) (first : Zone) (s : Updates) : Prop where
  explained : ∃ z, s.db.getZone zone = .ok z ∧ Explained first s.done z
  reads : ∀ m seen, (m, seen) ∈ s.reads →
    normalizeZone m.name = zone ∧ ∃ old, seen.getZone zone = .ok old

theorem Updates.Inv.step (normal : normalizeZone zone = zone) (inv : Updates.Inv zone first s)
    (step : Updates.Step zone Unchanged s s') : Updates.Inv zone first s' := by
  obtain ⟨⟨cur, stored, explained⟩, reads⟩ := inv
  -- the requests that are left have read what they had
  have rest : ∀ {before after : List (ZoneRequest × Database)} {r : ZoneRequest × Database},
      (∀ m seen, (m, seen) ∈ before ++ r :: after →
        normalizeZone m.name = zone ∧ ∃ old, seen.getZone zone = .ok old) →
      ∀ m seen, (m, seen) ∈ before ++ after →
        normalizeZone m.name = zone ∧ ∃ old, seen.getZone zone = .ok old := by
    intro before after r all m seen member
    refine all m seen ?_
    rw [List.mem_append, List.mem_cons]
    exact (List.mem_append.mp member).imp_right .inr
  cases step with
  | read m here =>
      refine ⟨⟨cur, stored, explained⟩, fun m' seen member => ?_⟩
      rcases List.mem_cons.mp member with same | old
      · cases same
        exact ⟨here, cur, stored⟩
      · exact reads m' seen old
  | @write seen db before after done m now reply meets written =>
      refine ⟨?_, rest reads⟩
      obtain ⟨here, old, read⟩ := reads m seen List.mem_append_cons_self
      have same : normalizeZone m.name = normalizeZone zone := here.trans normal.symm
      rw [← getZone_congr same] at read stored
      obtain ⟨new, found, given⟩ := value_updateZone (by rw [here, normal]) written read
      rw [getZone_congr same] at found
      refine ⟨new, found, explained.cons fun f => ?_⟩
      rw [given f]
      cases asks : f.asked m with
      | some v => rfl
      | none => exact (meets f old cur read stored asks).symm
  | fail => exact ⟨⟨cur, stored, explained⟩, rest reads⟩

/-- **No update is lost while requests find the settings they do not give unchanged.** -/
theorem explained_of_run {db : Database} (valid : validateName zone = .ok ())
    (stored : db.getZone zone = .ok first)
    (run : Relation.ReflTransGen (Updates.Step zone Unchanged) ⟨db, [], []⟩ s) :
    ∃ z, s.db.getZone zone = .ok z ∧ Explained first s.done z := by
  have normal : normalizeZone zone = zone := (normalizeZone_of_valid valid List.suffix_rfl).1
  have start : Updates.Inv zone first ⟨db, [], []⟩ :=
    ⟨⟨first, stored, fun f => .inr ⟨nofun, rfl⟩⟩, nofun⟩
  have inv : Updates.Inv zone first s := by
    induction run with
    | refl => exact start
    | tail _ step ih => exact ih.step normal step
  exact inv.explained

/-! ## Two requests -/

def soaDB : Database := .ofZone (ascii "a")

/-- One request gives the refresh interval of the zone, and the other its retry interval. -/
def refreshRequest : ZoneRequest := { name := ascii "a", refresh := 7200 }

def retryRequest : ZoneRequest := { name := ascii "a", retry := 600 }

theorem normalizeZone_soaZone : normalizeZone (ascii "a") = ascii "a" := by decide +kernel

/-- **Both requests read, then both write, and the first is lost.** -/
theorem lostUpdate : ∃ s, Relation.ReflTransGen (Updates.Step (ascii "a") fun _ _ _ => True)
      ⟨soaDB, [], []⟩ s ∧
    s.reads = [] ∧ s.done = [retryRequest, refreshRequest] ∧
      ∃ z, s.db.getZone (ascii "a") = .ok z ∧ z.refresh = (Zone.plain (ascii "a")).refresh ∧
        ¬ Explained (Zone.plain (ascii "a")) s.done z := by
  obtain ⟨first, written⟩ : ∃ reply, updateZone soaDB soaDB 2 refreshRequest = .ok reply :=
    ⟨_, rfl⟩
  obtain ⟨second, written', zones⟩ : ∃ reply,
      updateZone soaDB first.effect.db 2 retryRequest = .ok reply ∧
        reply.effect.db.getZone (ascii "a") =
          .ok { Zone.plain (ascii "a") with serial := 3, retry := 600 } := by
    cases written
    exact ⟨_, rfl, by decide +kernel⟩
  refine ⟨⟨second.effect.db, [], [retryRequest, refreshRequest]⟩, ?_, rfl, rfl, _, zones, rfl, ?_⟩
  · exact .tail (.tail (.tail (.single (.read refreshRequest normalizeZone_soaZone))
      (.read retryRequest normalizeZone_soaZone))
      (@Updates.Step.write _ _ soaDB soaDB [(retryRequest, soaDB)] [] [] _ 2 first trivial written))
      (@Updates.Step.write _ _ soaDB _ [] [] [refreshRequest] _ 2 second trivial written')
  · intro explained
    have lost := explained .refresh
    simp [Field.asked, Field.ofInt, Field.value, retryRequest, refreshRequest, Zone.plain] at lost

/-- One after the other, they leave both changes. -/
theorem explained_of_run_twoRequests : ∃ s,
    Relation.ReflTransGen (Updates.Step (ascii "a") Unchanged) ⟨soaDB, [], []⟩ s ∧
      s.done = [retryRequest, refreshRequest] ∧
        ∃ z, s.db.getZone (ascii "a") = .ok z ∧ Explained (Zone.plain (ascii "a")) s.done z := by
  obtain ⟨first, written⟩ : ∃ reply, updateZone soaDB soaDB 2 refreshRequest = .ok reply :=
    ⟨_, rfl⟩
  obtain ⟨second, written'⟩ : ∃ reply,
      updateZone first.effect.db first.effect.db 2 retryRequest = .ok reply := by
    cases written
    exact ⟨_, rfl⟩
  have unchanged : ∀ (db : Database) (m : ZoneRequest), Unchanged m db db := by
    intro db m f old cur read stored _
    rw [Except.ok.inj (read.symm.trans stored)]
  have run : Relation.ReflTransGen (Updates.Step (ascii "a") Unchanged) ⟨soaDB, [], []⟩
      ⟨second.effect.db, [], [retryRequest, refreshRequest]⟩ :=
    .tail (.tail (.tail (.single (.read refreshRequest normalizeZone_soaZone))
      (@Updates.Step.write _ _ soaDB soaDB [] [] [] _ 2 first (unchanged _ _) written))
      (.read retryRequest normalizeZone_soaZone))
      (@Updates.Step.write _ _ _ _ [] [] [refreshRequest] _ 2 second (unchanged _ _) written')
  exact ⟨_, run, rfl, explained_of_run (by decide +kernel) (by decide +kernel) run⟩

end ShardDNS.API

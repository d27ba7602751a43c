import ShardDNS.DNS.Names
import ShardDNS.Store.Coherence

/-!
# The write calls of the API

Every write call normalises what it is given, checks it, hands it to the store, which
normalises it again, and notifies of the zone and name it has. A call that fails changes
nothing and notifies of nothing.

What is notified is what the rows that changed have in their columns, if the two
normalisations agree (`namesChanges_iff`). For the calls that validate the name in
between they do. Deleting does not validate, and a zone given with two dots at its end,
say, is deleted under a name that is not the one notified (`deleteZone_misnamed`).
-/

set_option autoImplicit false

namespace ShardDNS.API

open Go DNS Store

/-! ## Errors -/

inductive Code where
  | canceled
  | invalidArgument
  | deadlineExceeded
  | notFound
  | alreadyExists
  | failedPrecondition
  | internal
  deriving DecidableEq, Repr

/-- The error a connect error wraps. -/
inductive Cause where
  | text (message : Bytes)
  | name (fault : NameFault)
  | packName (e : PackNameError)
  | rdata (e : RDataError)
  | store (e : StoreError)
  deriving DecidableEq, Repr

structure ConnectError where
  code : Code
  cause : Cause
  deriving DecidableEq, Repr

def invalidArgument (cause : Cause) : ConnectError := { code := .invalidArgument, cause := cause }

/-- `toError`. -/
def toError (op : Bytes) (conflictCode : Code) : StoreError → ConnectError
  | .notFound => { code := .notFound, cause := .text (op ++ ascii ": not found") }
  | .conflict why => { code := conflictCode, cause := .store (.conflict why) }
  | .canceled => { code := .canceled, cause := .store .canceled }
  | .deadlineExceeded => { code := .deadlineExceeded, cause := .store .deadlineExceeded }
  | _ => { code := .internal, cause := .text (op ++ ascii " failed") }

/-! ## Requests -/

/-- `CreateZoneRequest` and `UpdateZoneRequest`. -/
structure ZoneRequest where
  name : Bytes
  primaryNS : Bytes := []
  adminEmail : Bytes := []
  refresh : Int32 := 0
  retry : Int32 := 0
  expire : Int32 := 0
  minimumTTL : Int32 := 0

structure CreateRecordRequest where
  zone : Bytes
  name : Bytes
  type : Bytes
  ttl : Int32 := 0
  rdata : Bytes

structure DeleteRecordRequest where
  zone : Bytes
  name : Bytes
  type : Bytes
  rdata : Bytes

/-- What `notify` is called with. -/
structure Notification where
  kind : ChangeKind
  zone : Bytes
  name : Bytes
  deriving DecidableEq, Repr

/-- The operations that the notification makes on the caches of its own instance. -/
def Notification.ops (n : Notification) : List CacheOp := (notify () n.kind n.zone n.name).ops

/-- What a call that succeeds has done: the write with its result, and the notification. -/
structure Reply (α : Type) where
  effect : Effect α
  event : Notification

/-! ## The calls -/

def orString (v default : Bytes) : Bytes := if v = [] then default else v

def orInt (v default : Int32) : Int32 := if v = 0 then default else v

def defaultTTL : Int32 := 300

def maxTTL : Int32 := 2147483647

/-- The byte `@`. -/
def atSign : UInt8 := 64

/-- `validateSOA`. -/
def validateSOA (z : Zone) : Except ConnectError Unit := do
  let _ ← (packName [] (toLower z.primaryNS)).mapError fun e => invalidArgument (.packName e)
  let _ ← (packName [] (toLower (replaceFirst z.adminEmail atSign dot))).mapError
    fun e => invalidArgument (.packName e)
  if z.refresh < 0 ∨ z.retry < 0 ∨ z.expire < 0 ∨ z.minTTL < 0 then
    .error (invalidArgument (.text (ascii "SOA timers must not be negative")))
  else .ok ()

/-- `CreateZone`. The store gives the zone its serial. -/
def createZone (db : Database) (now : Int) (m : ZoneRequest) :
    Except ConnectError (Reply Zone) := do
  let name := normalizeZone m.name
  (validateName name).mapError fun e => invalidArgument (.name e)
  let z : Zone :=
    { name := name
      primaryNS := orString m.primaryNS (ascii "ns1." ++ name ++ ascii ".")
      adminEmail := orString m.adminEmail (ascii "hostmaster." ++ name ++ ascii ".")
      serial := 0
      refresh := orInt m.refresh 3600, retry := orInt m.retry 900
      expire := orInt m.expire 604800, minTTL := orInt m.minimumTTL 300 }
  validateSOA z
  let effect ← (db.createZone now z).mapError (toError (ascii "create zone") .alreadyExists)
  .ok { effect := effect, event := ⟨.zone, effect.value.name, []⟩ }

/-- `UpdateZone`, with the database as it is read and as it is when it is written. -/
def updateZone (seen db : Database) (now : Int) (m : ZoneRequest) :
    Except ConnectError (Reply Zone) := do
  let z ← (seen.getZone m.name).mapError (toError (ascii "update zone") .internal)
  let z : Zone :=
    { z with
      primaryNS := orString m.primaryNS z.primaryNS
      adminEmail := orString m.adminEmail z.adminEmail
      refresh := orInt m.refresh z.refresh, retry := orInt m.retry z.retry
      expire := orInt m.expire z.expire, minTTL := orInt m.minimumTTL z.minTTL }
  validateSOA z
  let effect ← (db.updateZone now z).mapError (toError (ascii "update zone") .internal)
  .ok { effect := effect, event := ⟨.zone, effect.value.name, []⟩ }

/-- `DeleteZone`. -/
def deleteZone (db : Database) (name : Bytes) : Except ConnectError (Reply Unit) := do
  let name := normalizeZone name
  let effect ← (db.deleteZone name).mapError (toError (ascii "delete zone") .internal)
  .ok { effect := effect, event := ⟨.zone, name, []⟩ }

/-- `CreateRecord`. -/
def createRecord (db : Database) (md5 : Bytes → Bytes) (encode : Option Encoder) (now : Int)
    (m : CreateRecordRequest) : Except ConnectError (Reply Record) := do
  let zone := normalizeZone m.zone
  if zone = [] ∨ m.name = [] ∨ m.type = [] then
    .error (invalidArgument (.text (ascii "zone, name and type are required")))
  else
    let rtype := normalizeType m.type
    let code := typeCode rtype
    if rtype = ascii "SOA" then
      .error (invalidArgument (.text (ascii "SOA is derived from the zone; use UpdateZone")))
    else if !supportedType code then
      .error (invalidArgument (.text (ascii "unsupported record type " ++ rtype)))
    else
      let name := normalizeName zone m.name
      (validateName name).mapError fun e => invalidArgument (.name e)
      let rdata := trimSpace m.rdata
      let _ ← (buildRData code rdata).mapError fun e => invalidArgument (.rdata e)
      let ttl := if m.ttl = 0 then defaultTTL else m.ttl
      if ttl < 0 ∨ maxTTL < ttl then
        .error (invalidArgument (.text (ascii "ttl out of range")))
      else
        let r : Record := { zone := zone, name := name, type := rtype, ttl := ttl, rdata := rdata }
        let effect ← (db.createRecord md5 encode now r).mapError
          (toError (ascii "create record") .failedPrecondition)
        .ok { effect := effect, event := ⟨.record, zone, name⟩ }

/-- `DeleteRecord`. -/
def deleteRecord (db : Database) (md5 : Bytes → Bytes) (now : Int) (m : DeleteRecordRequest) :
    Except ConnectError (Reply Unit) := do
  let zone := normalizeZone m.zone
  let name := normalizeName zone m.name
  let effect ← (db.deleteRecord md5 now zone name m.type (trimSpace m.rdata)).mapError
    (toError (ascii "delete record") .internal)
  .ok { effect := effect, event := ⟨.record, zone, name⟩ }

/-! ## Writes and what they notify of -/

/-- A write call. -/
inductive Request where
  | createZone (m : ZoneRequest)
  | updateZone (m : ZoneRequest)
  | deleteZone (name : Bytes)
  | createRecord (m : CreateRecordRequest)
  | deleteRecord (m : DeleteRecordRequest)

/-- The rows a call has inserted, updated or deleted, and what it notifies of. -/
structure Outcome where
  zones : List Zone
  records : List RecordRow
  event : Notification

def Reply.outcome {α : Type} (reply : Reply α) : Outcome :=
  { zones := reply.effect.zones, records := reply.effect.records, event := reply.event }

def write (seen db : Database) (md5 : Bytes → Bytes) (encode : Option Encoder) (now : Int) :
    Request → Except ConnectError Outcome
  | .createZone m => (createZone db now m).map Reply.outcome
  | .updateZone m => (updateZone seen db now m).map Reply.outcome
  | .deleteZone name => (deleteZone db name).map Reply.outcome
  | .createRecord m => (createRecord db md5 encode now m).map Reply.outcome
  | .deleteRecord m => (deleteRecord db md5 now m).map Reply.outcome

/-- The notification names what changed: it has the zone, and for records the name, of
every row, and the invalidation removes the keys of their names and of those above. -/
structure Outcome.NamesChanges (out : Outcome) (cfg : Configs) : Prop where
  zones : ∀ z ∈ out.zones, z.name = out.event.zone
  records : ∀ row ∈ out.records,
    row.zone = out.event.zone ∧ (out.event.kind ≠ .zone → row.name = out.event.name)
  removed : ∀ row ∈ out.records, ∀ k : NameKey, k.zone = row.zone →
    (k.name = row.name ∨ k.name ∈ LabelTree.ancestors dot row.name) →
    ∃ op ∈ out.event.ops, op.Removes cfg (.name k)

/-- The store's normalisation agrees with the API's: the zone to delete has nothing left
to trim, nor have the zone and the name of the record to delete. -/
def Request.Agrees : Request → Prop
  | .deleteZone name => Settled (normalizeZone name)
  | .deleteRecord m => Stable m.zone m.name
  | _ => True

variable {seen db : Database} {md5 : Bytes → Bytes} {encode : Option Encoder} {now : Int}
  {cfg : Configs}

/-- The keys are removed once zone and name are those of the rows. -/
theorem namesChanges_of_rows {out : Outcome} (zones : ∀ z ∈ out.zones, z.name = out.event.zone)
    (records : ∀ row ∈ out.records,
      row.zone = out.event.zone ∧ (out.event.kind ≠ .zone → row.name = out.event.name)) :
    out.NamesChanges cfg := by
  refine ⟨zones, records, fun row member k sameZone above => ?_⟩
  obtain ⟨zone, name⟩ := records row member
  have covers : Covers out.event.zone (if out.event.kind = .zone then [] else out.event.name)
      (.name k) := by
    refine ⟨sameZone.trans zone, ?_⟩
    split
    · exact .inl rfl
    · rename_i other
      rw [← name other]
      exact .inr above
  exact purges_script_iff.mp (guards_invalidate covers).purges

/-- A call whose rows are all those of one zone names them if that is the zone notified. -/
theorem namesChanges_zone {effect : Effect Zone} (zones : effect.zones = [effect.value])
    (records : effect.records = []) :
    Outcome.NamesChanges ⟨effect.zones, effect.records, ⟨.zone, effect.value.name, []⟩⟩ cfg := by
  rw [zones, records]
  refine namesChanges_of_rows (fun z member => ?_) nofun
  rw [List.mem_singleton.mp member]

theorem createZone_eq_ok {m : ZoneRequest} {reply : Reply Zone}
    (done : createZone db now m = .ok reply) :
    ∃ z, db.createZone now z = .ok reply.effect ∧
      reply.event = ⟨.zone, reply.effect.value.name, []⟩ := by
  simp only [createZone, bind_eq_ok, mapError_eq_ok] at done
  obtain ⟨-, -, -, -, effect, created, same⟩ := done
  cases same
  exact ⟨_, created, rfl⟩

theorem updateZone_eq_ok {m : ZoneRequest} {reply : Reply Zone}
    (done : updateZone seen db now m = .ok reply) :
    ∃ z, db.updateZone now z = .ok reply.effect ∧
      reply.event = ⟨.zone, reply.effect.value.name, []⟩ := by
  simp only [updateZone, bind_eq_ok, mapError_eq_ok] at done
  obtain ⟨z, -, ⟨⟩, -, effect, updated, same⟩ := done
  cases same
  exact ⟨_, updated, rfl⟩

theorem deleteZone_eq_ok {name : Bytes} {reply : Reply Unit}
    (done : deleteZone db name = .ok reply) :
    db.deleteZone (normalizeZone name) = .ok reply.effect ∧
      reply.event = ⟨.zone, normalizeZone name, []⟩ := by
  simp only [deleteZone, bind_eq_ok, mapError_eq_ok] at done
  obtain ⟨effect, deleted, same⟩ := done
  cases same
  exact ⟨deleted, rfl⟩

/-- The record a request is for. -/
def CreateRecordRequest.record (m : CreateRecordRequest) : Record :=
  { zone := normalizeZone m.zone, name := normalizeName (normalizeZone m.zone) m.name
    type := normalizeType m.type, ttl := if m.ttl = 0 then defaultTTL else m.ttl
    rdata := trimSpace m.rdata }

/-- What `CreateRecord` checks before it turns to the store. -/
structure CreateRecordRequest.Valid (m : CreateRecordRequest) : Prop where
  zone : m.record.zone ≠ []
  name : validateName m.record.name = .ok ()
  supported : supportedType (typeCode m.record.type) = true
  encodes : ∃ wire, buildRData (typeCode m.record.type) m.record.rdata = .ok wire

theorem createRecord_eq_ok {m : CreateRecordRequest} {reply : Reply Record}
    (done : createRecord db md5 encode now m = .ok reply) :
    m.Valid ∧ db.createRecord md5 encode now m.record = .ok reply.effect ∧
      reply.event = ⟨.record, m.record.zone, m.record.name⟩ := by
  unfold createRecord at done
  dsimp only at done
  split at done
  · cases done
  · rename_i required
    split at done
    · cases done
    · split at done
      · cases done
      · rename_i unsupported
        simp only [bind_eq_ok, mapError_eq_ok] at done
        obtain ⟨⟨⟩, valid, wire, built, done⟩ := done
        generalize given : (if m.ttl = 0 then defaultTTL else m.ttl) = ttl at done
        split at done
        · cases done
        · simp only [bind_eq_ok, mapError_eq_ok] at done
          obtain ⟨effect, created, same⟩ := done
          subst given
          rw [← Except.ok.inj same]
          have supported : supportedType (typeCode (normalizeType m.type)) = true := by
            simpa using unsupported
          exact ⟨⟨fun empty => required (.inl empty), valid, supported, wire, built⟩, created, rfl⟩

/-- A valid record with a TTL in range is the store's to accept. -/
theorem createRecord_of_valid {m : CreateRecordRequest} {effect : Effect Record} (valid : m.Valid)
    (named : m.name ≠ []) (typed : m.type ≠ [])
    (inRange : ¬ (m.record.ttl < 0 ∨ maxTTL < m.record.ttl))
    (created : db.createRecord md5 encode now m.record = .ok effect) :
    createRecord db md5 encode now m =
      .ok { effect := effect, event := ⟨.record, m.record.zone, m.record.name⟩ } := by
  have required : ¬ (normalizeZone m.zone = [] ∨ m.name = [] ∨ m.type = []) := by
    rintro (zone | name | type)
    · exact valid.zone zone
    · exact named name
    · exact typed type
  have known : supportedType (typeCode (normalizeType m.type)) = true := valid.supported
  have notSOA : normalizeType m.type ≠ ascii "SOA" := by
    intro soa
    rw [soa] at known
    exact absurd known (by decide +kernel)
  have supported : ¬ (!supportedType (typeCode (normalizeType m.type))) = true := by
    rw [known]
    decide
  obtain ⟨wire, built⟩ := valid.encodes
  have name : validateName (normalizeName (normalizeZone m.zone) m.name) = .ok () := valid.name
  rw [CreateRecordRequest.record] at built inRange created
  dsimp only at built inRange
  unfold createRecord
  simp only [if_neg required, if_neg notSOA, if_neg supported, name, built, if_neg inRange, created,
    Except.mapError, ok_bind]
  rfl

theorem deleteRecord_eq_ok {m : DeleteRecordRequest} {reply : Reply Unit}
    (done : deleteRecord db md5 now m = .ok reply) :
    db.deleteRecord md5 now (normalizeZone m.zone) (normalizeName (normalizeZone m.zone) m.name)
        m.type (trimSpace m.rdata) = .ok reply.effect ∧
      reply.event = ⟨.record, normalizeZone m.zone,
        normalizeName (normalizeZone m.zone) m.name⟩ := by
  simp only [deleteRecord, bind_eq_ok, mapError_eq_ok] at done
  obtain ⟨effect, deleted, same⟩ := done
  cases same
  exact ⟨deleted, rfl⟩

/-- What is created is at the place notified: the name was validated, so it and its zone are
normal. -/
theorem CreateRecordRequest.Valid.normal {m : CreateRecordRequest} (valid : m.Valid) :
    normalizeZone m.record.zone = m.record.zone ∧
      normalizeName m.record.zone m.record.name = m.record.name := by
  obtain ⟨normal, settled⟩ := normalizeZone_of_valid valid.name (suffix_normalizeName _ _)
  exact ⟨normal, normalizeName_normalizeName valid.zone normal settled m.name⟩

/-- **A write call notifies of the rows it changed exactly when the two normalisations
agree.** -/
theorem namesChanges_iff {req : Request} {out : Outcome}
    (written : write seen db md5 encode now req = .ok out) :
    out.NamesChanges cfg ↔ req.Agrees := by
  cases req with
  | createZone m =>
      obtain ⟨reply, done, rfl⟩ := map_eq_ok.mp written
      obtain ⟨z, created, event⟩ := createZone_eq_ok done
      obtain ⟨zones, records, -⟩ := Database.rows_createZone created
      refine iff_of_true ?_ trivial
      rw [Reply.outcome, event]
      exact namesChanges_zone zones records
  | updateZone m =>
      obtain ⟨reply, done, rfl⟩ := map_eq_ok.mp written
      obtain ⟨z, updated, event⟩ := updateZone_eq_ok done
      obtain ⟨zones, records, -⟩ := Database.rows_updateZone updated
      refine iff_of_true ?_ trivial
      rw [Reply.outcome, event]
      exact namesChanges_zone zones records
  | deleteZone name =>
      obtain ⟨reply, done, rfl⟩ := map_eq_ok.mp written
      obtain ⟨deleted, event⟩ := deleteZone_eq_ok done
      obtain ⟨nonempty, zones, records⟩ := Database.rows_deleteZone deleted
      rw [Request.Agrees, ← normalizeZone_normalizeZone_iff, Reply.outcome, event]
      constructor
      · intro named
        obtain ⟨z, member⟩ := List.exists_mem_of_ne_nil _ nonempty
        exact (zones z member).symm.trans (named.zones z member)
      · intro same
        rw [same] at zones records
        exact namesChanges_of_rows zones fun row member =>
          ⟨records row member, fun other => absurd rfl other⟩
  | createRecord m =>
      obtain ⟨reply, done, rfl⟩ := map_eq_ok.mp written
      obtain ⟨valid, created, event⟩ := createRecord_eq_ok done
      obtain ⟨zone, name⟩ := valid.normal
      obtain ⟨zones, records⟩ := Database.rows_createRecord created
      rw [zone, name] at records
      rw [zone] at zones
      refine iff_of_true ?_ trivial
      rw [Reply.outcome, event]
      exact namesChanges_of_rows zones fun row member =>
        ⟨(records row member).1, fun _ => (records row member).2⟩
  | deleteRecord m =>
      obtain ⟨reply, done, rfl⟩ := map_eq_ok.mp written
      obtain ⟨deleted, event⟩ := deleteRecord_eq_ok done
      obtain ⟨nonempty, zones, records⟩ := Database.rows_deleteRecord deleted
      rw [Request.Agrees, ← normalize_twice_iff, Reply.outcome, event]
      constructor
      · intro named
        obtain ⟨row, member⟩ := List.exists_mem_of_ne_nil _ nonempty
        obtain ⟨zone, name⟩ := named.records row member
        exact ⟨(records row member).1.symm.trans zone,
          (records row member).2.symm.trans (name nofun)⟩
      · rintro ⟨zone, name⟩
        rw [name, zone] at records
        rw [zone] at zones
        exact namesChanges_of_rows zones fun row member =>
          ⟨(records row member).1, fun _ => (records row member).2⟩

/-- A zone with a record. -/
def exampleDB : Database :=
  (Database.ofZone (ascii "example.com")).insertRecord (ascii "example.com")
    (ascii "www.example.com") (ascii "A") 300 (ascii "192.0.2.1")
    (by simp [Database.ofZone, Zone.plain])

/-- **A zone is deleted under a name that is not notified.** One dot is trimmed before the
zone is handed on and another by the store. -/
theorem deleteZone_misnamed :
    ∃ out,
      write exampleDB exampleDB id none 0 (.deleteZone (ascii "example.com..")) = .ok out ∧
      out.zones = [Zone.plain (ascii "example.com")] ∧
      out.records.map RecordRow.zone = [ascii "example.com"] ∧
      out.event = ⟨.zone, ascii "example.com.", []⟩ ∧
      ¬ out.NamesChanges (.new 64 0 Cache.firstShard Cache.firstShard) := by
  refine ⟨_, rfl, by decide +kernel, by decide +kernel, by decide +kernel, fun named => ?_⟩
  have same := named.zones (Zone.plain (ascii "example.com")) (by decide +kernel)
  exact absurd same (by decide +kernel)

/-- A zone given with one dot at its end is deleted under the name notified. -/
theorem namesChanges_iff_deleteZone :
    ∃ out,
      write exampleDB exampleDB id none 0 (.deleteZone (ascii "Example.com.")) = .ok out ∧
      (out.NamesChanges (.new 64 0 Cache.firstShard Cache.firstShard) ↔
        (Request.deleteZone (ascii "Example.com.")).Agrees) ∧
      (Request.deleteZone (ascii "Example.com.")).Agrees := by
  have settled : Settled (normalizeZone (ascii "Example.com.")) := by decide +kernel
  obtain ⟨out, written⟩ : ∃ out,
      write exampleDB exampleDB id none 0 (.deleteZone (ascii "Example.com.")) = .ok out :=
    ⟨_, rfl⟩
  exact ⟨out, written, namesChanges_iff written, settled⟩

end ShardDNS.API

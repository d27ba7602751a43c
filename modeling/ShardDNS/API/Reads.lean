import ShardDNS.API.Served

/-!
# Reading back

What the API reads back is what the calls say. After any interleaving of write calls, `GetRecords`
returns each record once that the calls leave in the RRset, with the TTL given last, and `GetZone`
finds a zone if it was created and not deleted since, with the settings given last
(`readsBack_of_run`).

The settings of a zone are all of a reply to `GetZone` but its serial, which `zoneToProto` copies
as well.
-/

set_option autoImplicit false

namespace ShardDNS.API

open Go DNS Store History

/-- `GetRecordsRequest`. -/
structure GetRecordsRequest where
  zone : Bytes
  name : Bytes
  type : Bytes

/-- A `Record` of the protocol. -/
structure RecordMessage where
  zone : Bytes
  name : Bytes
  type : Bytes
  ttl : Int32
  rdata : Bytes
  deriving DecidableEq, Repr

def recordToProto (r : Record) : RecordMessage :=
  { zone := r.zone, name := r.name, type := r.type, ttl := r.ttl, rdata := r.rdata }

/-- `GetRecords`. -/
def getRecords (encode : Option Encoder) (db : Database) (m : GetRecordsRequest) :
    List RecordMessage :=
  (db.getRecords encode m.zone m.name m.type).map recordToProto

/-- `GetZone`. -/
def getZone (db : Database) (name : Bytes) : Except ConnectError Zone :=
  (db.getZone name).mapError (toError (ascii "get zone") .internal)

/-! ## What the replies say -/

/-- Any key of the RRset that is asked for. -/
def GetRecordsRequest.key (md5 : Bytes → Bytes) (m : GetRecordsRequest) : RecordKey :=
  keyOf md5 m.zone m.name m.type []

/-- What is returned for a record that the calls leave. -/
def ReturnedFor (md5 : Bytes → Bytes) (calls : List WriteCall) (m : GetRecordsRequest)
    (reply : RecordMessage) : Prop :=
  ∃ r ttl, Live md5 calls r ∧ SameRRset (r.key md5) (m.key md5) ∧
    LastTTL md5 calls (r.key md5) ttl ∧
    reply =
      { zone := (r.key md5).zone, name := (r.key md5).name, type := (r.key md5).type
        ttl := ttl, rdata := r.rdata }

/-- The replies say what the calls say. -/
structure ReadsBack (md5 : Bytes → Bytes) (calls : List WriteCall) (encode : Option Encoder)
    (db : Database) : Prop where
  records : ∀ m reply, reply ∈ getRecords encode db m ↔ ReturnedFor md5 calls m reply
  once : ∀ m, (getRecords encode db m).Nodup
  missing : ∀ name, ¬ Since (CreatesZone (normalizeZone name)) (fun call =>
    call.drops = some (normalizeZone name)) calls ↔
    getZone db name = .error { code := .notFound, cause := .text (ascii "get zone: not found") }
  settings : ∀ name row, getZone db name = .ok row →
    ∃ z, Since (fun call => call = .createZone z ∨ call = .updateZone z)
      (SetsZone (normalizeZone name)) calls ∧
      normalizeZone z.name = normalizeZone name ∧ row.settings = z.settings

section Reads

variable {md5 : Bytes → Bytes} {encode : Option Encoder} {calls : List WriteCall} {t : Tables}
  {db : Database}

theorem recordToProto_scanRecord (row : RecordRow) :
    recordToProto (scanRecord encode row) =
      { zone := row.zone, name := row.name, type := row.type, ttl := row.ttl,
        rdata := row.rdata } := by
  obtain ⟨wire, wireErr, scanned⟩ := scanRecord_eq encode row
  rw [scanned]
  rfl

/-- The replies are the rows of the RRset, in some order. -/
theorem getRecords_perm (md5 : Bytes → Bytes) (m : GetRecordsRequest) :
    (getRecords encode db m).Perm
      ((db.records.filter fun row => SameRRset (row.key md5) (m.key md5)).map
      fun row => recordToProto (scanRecord encode row)) := by
  rw [getRecords, Database.getRecords, List.map_map]
  exact (List.perm_insertionSort _ _).map _

theorem mem_getRecords_iff (md5 : Bytes → Bytes) {m : GetRecordsRequest} {reply : RecordMessage} :
    reply ∈ getRecords encode db m ↔ ∃ row ∈ db.records, SameRRset (row.key md5) (m.key md5) ∧
      reply =
        { zone := row.zone, name := row.name, type := row.type, ttl := row.ttl
          rdata := row.rdata } := by
  rw [(getRecords_perm md5 m).mem_iff, List.mem_map]
  constructor
  · rintro ⟨row, selected, rfl⟩
    obtain ⟨stored, rrset⟩ := List.mem_filter.mp selected
    exact ⟨row, stored, of_decide_eq_true rrset, recordToProto_scanRecord row⟩
  · rintro ⟨row, stored, rrset, rfl⟩
    exact ⟨row, List.mem_filter.mpr ⟨stored, decide_eq_true rrset⟩, recordToProto_scanRecord row⟩

/-- A row can be told from its reply, since the index keeps the texts apart. -/
theorem nodup_getRecords (indexed : db.Indexed md5) (m : GetRecordsRequest) :
    (getRecords encode db m).Nodup := by
  rw [(getRecords_perm md5 m).nodup_iff]
  apply List.Nodup.of_map fun reply : RecordMessage =>
    RecordKey.mk reply.zone reply.name reply.type (md5 reply.rdata)
  rw [List.map_map]
  have keys : (fun reply : RecordMessage =>
      RecordKey.mk reply.zone reply.name reply.type (md5 reply.rdata)) ∘
      (fun row => recordToProto (scanRecord encode row)) = RecordRow.key md5 := by
    funext row
    rw [Function.comp_apply, recordToProto_scanRecord]
    rfl
  rw [keys]
  exact indexed.sublist (List.filter_sublist.map _)

theorem returnedFor_iff (mirrors : Mirrors md5 db t) (journaled : Journaled md5 calls t)
    (apart : NoCollision md5 calls) (m : GetRecordsRequest) (reply : RecordMessage) :
    reply ∈ getRecords encode db m ↔ ReturnedFor md5 calls m reply := by
  rw [mem_getRecords_iff md5]
  constructor
  · rintro ⟨row, stored, rrset, rfl⟩
    obtain ⟨v, there, ttl, text⟩ := mirrors.row stored
    obtain ⟨r, live, key, given, last⟩ := exists_live journaled there
    refine ⟨r, row.ttl, live, ?_, ?_, ?_⟩
    · rw [key]
      exact rrset
    · rw [key, ← ttl]
      exact last
    · rw [key, given, text]
      rfl
  · rintro ⟨r, ttl, live, rrset, last, rfl⟩
    obtain ⟨v, stored, text, last'⟩ := live.stored journaled apart
    obtain ⟨row, member, key, ttl', text'⟩ := mirrors.exists_row stored
    rw [← key] at rrset
    refine ⟨row, member, rrset, ?_⟩
    rw [← key, ttl', text', text, last.unique last']
    rfl

/-- A zone is found as its row is. -/
theorem getZone_eq (mirrors : Mirrors md5 db t) (name : Bytes) :
    getZone db name = match t (.zone (normalizeZone name)) with
      | some z => .ok z
      | none => .error { code := .notFound, cause := .text (ascii "get zone: not found") } := by
  have row : t (.zone (normalizeZone name)) = db.zones.find? fun z => z.name = normalizeZone name :=
    congrFun mirrors.same.symm (.zone (normalizeZone name))
  rw [row, getZone, Database.getZone]
  cases db.zones.find? fun z => decide (z.name = normalizeZone name) with
  | none => rfl
  | some z => rfl

theorem getZone_missing_iff (mirrors : Mirrors md5 db t) (name : Bytes) :
    getZone db name = .error { code := .notFound, cause := .text (ascii "get zone: not found") } ↔
      t (.zone (normalizeZone name)) = none := by
  rw [getZone_eq mirrors]
  cases t (.zone (normalizeZone name)) with
  | none => exact iff_of_true rfl rfl
  | some z => exact iff_of_false nofun nofun

theorem getZone_found (mirrors : Mirrors md5 db t) {name : Bytes} {row : Zone}
    (found : getZone db name = .ok row) :
    t (.zone (normalizeZone name)) = some row := by
  rw [getZone_eq mirrors] at found
  cases stored : t (.zone (normalizeZone name)) with
  | none =>
      rw [stored] at found
      cases found
  | some z =>
      rw [stored] at found
      exact congrArg some (Except.ok.inj found)

end Reads

/-- **What is read back is what the calls say**: after any interleaving of calls. -/
theorem readsBack_of_run {md5 : Bytes → Bytes} {labels : List Transactions.Label}
    {s : Transactions.System} {db : Database} (run : Transactions.Run md5 .start labels s)
    (mirrors : Mirrors md5 db s.tables)
    (apart : NoCollision md5 (Transactions.committed labels)) (encode : Option Encoder) :
    ReadsBack md5 (Transactions.committed labels) encode db := by
  have journaled : Journaled md5 (Transactions.committed labels) s.tables :=
    run.committed Transactions.inv_start [] (fun does journaled => journaled.concat does)
      (journaled_empty md5)
  constructor
  case records => exact returnedFor_iff mirrors journaled apart
  case once => exact nodup_getRecords mirrors.indexed
  case missing =>
    intro name
    rw [getZone_missing_iff mirrors, ← journaled.zone, not_not]
  case settings =>
    intro name row found
    exact journaled.settings _ row (getZone_found mirrors found)

theorem readsBack_of_run_alias : ∃ labels s, Transactions.Run id .start labels s ∧
    Transactions.committed labels = aliasCalls ∧ Mirrors id aliasDB s.tables ∧
      ReadsBack id aliasCalls none aliasDB ∧
      getRecords none aliasDB { zone := ascii "A.", name := ascii "W", type := ascii "cname" } =
        [{ zone := ascii "a", name := ascii "w.a", type := ascii "CNAME", ttl := 60,
           rdata := ascii "b.a" }] := by
  obtain ⟨labels, run, made⟩ := Transactions.exists_run_of_replays replays_aliasCalls
  have mirrors : Mirrors id aliasDB (aliasDB.tables id) := ⟨replays_aliasCalls.indexed, rfl⟩
  have reads := readsBack_of_run run mirrors (fun r r' _ _ key =>
    congrArg RecordKey.digest key) none
  rw [made] at reads
  exact ⟨labels, _, run, made, mirrors, reads, by decide +kernel⟩

end ShardDNS.API

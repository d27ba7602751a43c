import ShardDNS.API.Service
import ShardDNS.DNS.Canonical
import ShardDNS.DNS.Lookup
import ShardDNS.DNS.Resolution
import ShardDNS.Store.Contents

/-!
# Runs of write calls

What the database holds after any calls of the API, from empty tables. Every record in it
has been validated when it was created: its type is supported and its text can be encoded
(`stored_of_run`).

The index of the records keeps their texts apart, and one RDATA may have several texts: with an
optional dot, say, or another writing of a number. So an RRset can hold a record twice
(`dottedCalls_twice`). It does not where every accepted text is the canonical one of its RDATA
(`distinct_of_canonical`).
-/

set_option autoImplicit false

namespace ShardDNS.API

open Go DNS Store

/-! ## Calls one after the other -/

/-- The database after a call. One that fails leaves it as it is. -/
def settle {α : Type} (db : Database) : Except ConnectError (Reply α) → Database
  | .ok reply => reply.effect.db
  | .error _ => db

def after (md5 : Bytes → Bytes) (encode : Option Encoder) (db : Database) (now : Int) :
    Request → Database
  | .createZone m => settle db (createZone db now m)
  | .updateZone m => settle db (updateZone db db now m)
  | .deleteZone name => settle db (deleteZone db name)
  | .createRecord m => settle db (createRecord db md5 encode now m)
  | .deleteRecord m => settle db (deleteRecord db md5 now m)

/-- The database after calls at their times, from empty tables. -/
def run (md5 : Bytes → Bytes) (encode : Option Encoder) (calls : List (Int × Request)) : Database :=
  calls.foldl (fun db call => after md5 encode db call.1 call.2) .empty

variable {md5 : Bytes → Bytes} {encode : Option Encoder} {db : Database} {now : Int}

theorem run_append_singleton (calls : List (Int × Request)) (call : Int × Request) :
    run md5 encode (calls ++ [call]) = after md5 encode (run md5 encode calls) call.1 call.2 := by
  rw [run, List.foldl_append]
  rfl

/-- What holds at first and after every call holds after all runs. -/
theorem run_induction {P : Database → Prop} (start : P .empty)
    (kept : ∀ db now req, P db → P (after md5 encode db now req)) (calls : List (Int × Request)) :
    P (run md5 encode calls) := by
  induction calls using List.reverseRecOn with
  | nil => exact start
  | append_singleton calls call ih =>
      rw [run_append_singleton]
      exact kept _ _ _ ih

/-- What a request puts in the table. -/
def CreateRecordRequest.data (m : CreateRecordRequest) : RecordData :=
  { zone := m.record.zone, name := m.record.name, type := m.record.type, rdata := m.record.rdata }

theorem normalizeType_of_mem : ∀ entry ∈ typeCodes, normalizeType entry.1 = entry.1 := by
  decide +kernel

theorem CreateRecordRequest.Valid.mem_typeCodes {m : CreateRecordRequest} (valid : m.Valid) :
    (m.record.type, typeCode m.record.type) ∈ typeCodes :=
  mem_typeCodes_of_supported (toUpper_toUpper _) valid.supported

/-- The store normalises what is normal. -/
theorem CreateRecordRequest.Valid.data_eq {m : CreateRecordRequest} (valid : m.Valid) :
    m.record.data = m.data := by
  obtain ⟨zone, name⟩ := valid.normal
  have type := normalizeType_of_mem _ valid.mem_typeCodes
  rw [Record.data, zone, name, type]
  rfl

/-- A request is accepted: the call succeeds. -/
def Accepted (md5 : Bytes → Bytes) (encode : Option Encoder) (db : Database) (now : Int)
    (m : CreateRecordRequest) : Prop :=
  ∃ reply, createRecord db md5 encode now m = .ok reply

theorem contents_settle {α : Type} {result : Except ConnectError (Reply α)}
    (fewer : ∀ reply, result = .ok reply → reply.effect.db.contents.Sublist db.contents) :
    (settle db result).contents.Sublist db.contents := by
  cases result with
  | error e => exact .refl _
  | ok reply => exact fewer reply rfl

/-- **Every call adds the record it is for, unless the index has it, or only takes records
away.** -/
theorem contents_after (req : Request) :
    (∃ m, req = .createRecord m ∧ m.Valid ∧ Accepted md5 encode db now m ∧
      (after md5 encode db now req).contents =
        if m.data.Indexed md5 db.contents then db.contents else db.contents ++ [m.data]) ∨
    ((∀ m, req = .createRecord m → ¬ Accepted md5 encode db now m) ∧
      (after md5 encode db now req).contents.Sublist db.contents) := by
  cases req with
  | createZone m =>
      refine .inr ⟨nofun, contents_settle fun reply done => ?_⟩
      obtain ⟨z, created, -⟩ := createZone_eq_ok done
      rw [Database.contents_createZone created]
  | updateZone m =>
      refine .inr ⟨nofun, contents_settle fun reply done => ?_⟩
      obtain ⟨z, updated, -⟩ := updateZone_eq_ok done
      rw [Database.contents_updateZone updated]
  | deleteZone name =>
      exact .inr ⟨nofun, contents_settle fun reply done =>
        Database.contents_deleteZone (deleteZone_eq_ok done).1⟩
  | createRecord m =>
      cases done : createRecord db md5 encode now m with
      | error e =>
          refine .inr ⟨?_, by rw [after, done, settle]⟩
          rintro _ ⟨⟩ ⟨reply, accepted⟩
          rw [done] at accepted
          cases accepted
      | ok reply =>
          obtain ⟨valid, created, -⟩ := createRecord_eq_ok done
          refine .inl ⟨m, rfl, valid, ⟨reply, done⟩, ?_⟩
          rw [after, done, settle, Database.contents_createRecord created, valid.data_eq]
  | deleteRecord m =>
      exact .inr ⟨nofun, contents_settle fun reply done =>
        Database.contents_deleteRecord (deleteRecord_eq_ok done).1⟩

/-! ## What is stored -/

/-- What `CreateRecord` has seen to. -/
structure Stored (d : RecordData) : Prop where
  mnemonic : (d.type, typeCode d.type) ∈ typeCodes
  supported : supportedType (typeCode d.type) = true
  encodes : ∃ wire, buildRData (typeCode d.type) d.rdata = .ok wire

/-- **Every record has a supported type and can be encoded.** -/
theorem stored_of_run (calls : List (Int × Request)) :
    ∀ d ∈ (run md5 encode calls).contents, Stored d := by
  refine run_induction (P := fun db => ∀ d ∈ db.contents, Stored d) nofun
    (fun db now req holds d member => ?_) calls
  obtain ⟨m, -, valid, -, added⟩ | ⟨-, fewer⟩ := @contents_after md5 encode db now req
  · rw [added] at member
    split at member
    · exact holds d member
    · rcases List.mem_append.mp member with old | new
      · exact holds d old
      · rw [List.mem_singleton.mp new]
        exact ⟨valid.mem_typeCodes, valid.supported, valid.encodes⟩
  · exact holds d (fewer.subset member)

/-- The RDATA that is sent for a text: what `BuildRData` makes of it, and where the store has
encoded it also the bytes returned beside an error. -/
def sentRData (enc : Option Encoder) (type : UInt16) (text : Bytes) : Option Bytes :=
  match buildRData type text with
  | .ok wire => some wire
  | .error e => if enc.isSome then e.left else none

theorem sentRData_of_ok {enc : Option Encoder} {type : UInt16} {text wire : Bytes}
    (built : buildRData type text = .ok wire) : sentRData enc type text = some wire := by
  rw [sentRData, built]

/-- The RDATA that the handler sends for a row. -/
theorem wireOf_scanRecord {enc : Option Encoder} (daemon : enc = none ∨ enc = some daemonEncoder)
    (row : RecordRow) :
    wireOf (scanRecord enc row) = sentRData enc (typeCode row.type) row.rdata := by
  unfold sentRData
  rcases daemon with rfl | rfl
  · cases built : buildRData (typeCode row.type) row.rdata with
    | ok wire => simp only [scanRecord, wireOf, built, Except.toOption]
    | error e =>
        simp only [scanRecord, wireOf, built, Except.toOption]
        rfl
  · cases built : buildRData (typeCode row.type) row.rdata with
    | ok wire => simp only [scanRecord, wireOf, daemonEncoder, built]
    | error e =>
        simp only [scanRecord, wireOf, daemonEncoder, built, Option.isSome_some, if_true]
        cases e.left <;> rfl

/-! ## Records and their RDATA -/

/-- A record as it is sent. -/
def onWire (d : RecordData) : Bytes × Bytes × Bytes × Except RDataError Bytes :=
  (d.zone, d.name, d.type, buildRData (typeCode d.type) d.rdata)

/-- No RRset holds a record twice: no two records have the same zone, name, type and RDATA,
and no RRset that is sent holds a record twice. -/
structure Distinct (db : Database) : Prop where
  records : (db.contents.map onWire).Nodup
  answers : ∀ (h : Handler) (i : Nat) (enc : Option Encoder) (zone name owner : Bytes)
    (qtype : UInt16), enc = none ∨ enc = some daemonEncoder →
      (h.appendSet i [] owner (typedAt db enc zone name qtype)).Nodup

/-- Two rows of an RRset that are sent as one record are one record. -/
theorem onWire_eq_of_rrOf {enc : Option Encoder} (daemon : enc = none ∨ enc = some daemonEncoder)
    {a b : RecordRow} (first : Stored a.data) (second : Stored b.data) (zone : a.zone = b.zone)
    (name : a.name = b.name) {owner : Bytes} {rr : RR}
    (sent : rrOf owner (scanRecord enc a) = some rr)
    (sent' : rrOf owner (scanRecord enc b) = some rr) : onWire a.data = onWire b.data := by
  have read : ∀ row : RecordRow, Stored row.data → rrOf owner (scanRecord enc row) = some rr →
      rr.type = typeCode row.type ∧ buildRData (typeCode row.type) row.rdata = .ok rr.rdata := by
    intro row stored sent
    obtain ⟨wire, built⟩ : ∃ wire, buildRData (typeCode row.type) row.rdata = .ok wire :=
      stored.encodes
    unfold rrOf at sent
    dsimp only at sent
    rw [wireOf_scanRecord daemon, sentRData_of_ok built, type_scanRecord] at sent
    dsimp only at sent
    split at sent
    · cases sent
    · cases sent
      exact ⟨rfl, built⟩
  obtain ⟨code, wire⟩ := read a first sent
  obtain ⟨code', wire'⟩ := read b second sent'
  have type : a.type = b.type := mnemonic_unique _ first.mnemonic _ second.mnemonic first.supported
    (code.symm.trans code')
  change (a.zone, a.name, a.type, buildRData (typeCode a.type) a.rdata) =
    (b.zone, b.name, b.type, buildRData (typeCode b.type) b.rdata)
  rw [zone, name, wire, wire', type]

/-- **Where no two records are the same on the wire, no RRset is sent with one twice.** -/
theorem distinct_of_nodup (stored : ∀ d ∈ db.contents, Stored d)
    (records : (db.contents.map onWire).Nodup) : Distinct db := by
  refine ⟨records, fun h i enc zone name owner qtype daemon => ?_⟩
  obtain ⟨start, appended⟩ := h.appendSet_eq i [] owner (typedAt db enc zone name qtype)
  rw [appended, List.nil_append]
  -- the records apart in the table are apart in the RRset, in any order
  have apart : (typedAt db enc zone name qtype).Pairwise fun r r' =>
      ∀ rr, rrOf owner r = some rr → rrOf owner r' ≠ some rr := by
    have rows : (db.selectAt zone name).Pairwise fun a b => onWire a.data ≠ onWire b.data := by
      rw [Database.contents, List.map_map, List.Nodup, List.pairwise_map] at records
      exact records.filter _
    refine List.Pairwise.filter _ (List.pairwise_map.mpr (rows.imp_of_mem ?_))
    intro a b first second other rr sent sent'
    obtain ⟨inTable, sameZone, sameName⟩ := Database.mem_selectAt.mp first
    obtain ⟨inTable', sameZone', sameName'⟩ := Database.mem_selectAt.mp second
    exact other (onWire_eq_of_rrOf daemon (stored _ (List.mem_map_of_mem inTable))
      (stored _ (List.mem_map_of_mem inTable')) (sameZone.trans sameZone'.symm)
      (sameName.trans sameName'.symm) sent sent')
  have turned : ((typedAt db enc zone name qtype).rotate start).Pairwise fun r r' =>
      ∀ rr, rrOf owner r = some rr → rrOf owner r' ≠ some rr :=
    (List.Perm.pairwise_iff (fun other rr sent sent' => other rr sent' sent)
      (List.rotate_perm _ start)).mpr apart
  refine List.Pairwise.filterMap (rrOf owner) (fun r r' other rr sent rr' sent' => ?_) turned
  rintro rfl
  exact other rr sent sent'

/-! ## Canonical texts -/

/-- The record has the canonical text of its RDATA. -/
structure Spelled (d : RecordData) : Prop where
  trimmed : trimSpace d.rdata = d.rdata
  canonical : Canonical (typeCode d.type) d.rdata

/-- **Records with canonical texts are told by what is sent.** -/
theorem Spelled.eq_of_onWire {d d' : RecordData} (spelled : Spelled d) (spelled' : Spelled d')
    (stored : Stored d) (same : onWire d = onWire d') : d = d' := by
  obtain ⟨zone, name, type, rdata⟩ := d
  obtain ⟨zone', name', type', rdata'⟩ := d'
  obtain ⟨wire, built⟩ := stored.encodes
  simp only [onWire, Prod.mk.injEq] at same
  obtain ⟨rfl, rfl, rfl, rdatas⟩ := same
  have text : rdata = rdata' := eq_of_canonical spelled.canonical spelled'.canonical spelled.trimmed
    spelled'.trimmed built (rdatas.symm.trans built)
  rw [text]

/-- The request gives a canonical text. -/
def CreateRecordRequest.Canonical (m : CreateRecordRequest) : Prop :=
  DNS.Canonical (typeCode m.record.type) m.record.rdata

/-- A call with a canonical text keeps records with canonical texts apart. -/
theorem spelled_after (req : Request) (stored : ∀ d ∈ db.contents, Stored d)
    (spelled : ∀ d ∈ db.contents, Spelled d) (records : (db.contents.map onWire).Nodup)
    (canonical : ∀ m, req = .createRecord m → Accepted md5 encode db now m → m.Canonical) :
    (∀ d ∈ (after md5 encode db now req).contents, Spelled d) ∧
      ((after md5 encode db now req).contents.map onWire).Nodup := by
  obtain ⟨m, rfl, -, accepted, added⟩ | ⟨-, fewer⟩ := @contents_after md5 encode db now req
  · have text : Spelled m.data := ⟨trimSpace_eq_self (not_startsWithSpace_trimSpace _)
      (not_endsWithSpace_trimSpace _), canonical m rfl accepted⟩
    rw [added]
    split
    · exact ⟨spelled, records⟩
    · rename_i new
      constructor
      · intro d member
        rcases List.mem_append.mp member with old | last
        · exact spelled d old
        · rw [List.mem_singleton.mp last]
          exact text
      · rw [List.map_append, List.map_singleton, List.nodup_append_comm, List.singleton_append,
          List.nodup_cons]
        refine ⟨fun sent => new ?_, records⟩
        -- a record sent alike has the same text, and the index has it
        obtain ⟨d, member, same⟩ := List.mem_map.mp sent
        obtain rfl := (spelled d member).eq_of_onWire text (stored d member) same
        exact ⟨_, member, rfl, rfl, rfl, rfl⟩
  · exact ⟨fun d member => spelled d (fewer.subset member), records.sublist (fewer.map _)⟩

/-- **RRsets hold no record twice, throughout a run in which every accepted text is
canonical.** -/
theorem distinct_of_canonical (md5 : Bytes → Bytes) (encode : Option Encoder)
    (calls : List (Int × Request))
    (canonical : ∀ made now m, made ++ [(now, .createRecord m)] <+: calls →
      Accepted md5 encode (run md5 encode made) now m → m.Canonical) :
    ∀ made, made <+: calls → Distinct (run md5 encode made) := by
  intro made front
  have apart : (∀ d ∈ (run md5 encode made).contents, Spelled d) ∧
      ((run md5 encode made).contents.map onWire).Nodup := by
    induction made using List.reverseRecOn with
    | nil => exact ⟨nofun, List.nodup_nil⟩
    | append_singleton made call ih =>
        obtain ⟨spelled, records⟩ := ih ((List.prefix_append _ _).trans front)
        rw [run_append_singleton]
        refine spelled_after call.2 (stored_of_run made) spelled records fun m same accepted =>
          canonical made call.1 m ?_ accepted
        rw [← same]
        exact front
  exact distinct_of_nodup (stored_of_run made) apart.2

/-- A zone, and one name server for it, spelt with and without a dot at its end. -/
def dottedCalls : List (Int × Request) :=
  [(1, .createZone { name := ascii "a" }),
   (2, .createRecord
     { zone := ascii "a", name := ascii "@", type := ascii "NS", rdata := ascii "ns.b" }),
   (3, .createRecord
     { zone := ascii "a", name := ascii "@", type := ascii "NS", rdata := ascii "ns.b." })]

/-- The record both spellings are. -/
def serverRR : RR :=
  { name := ascii "a", type := typeNS, cls := classIN, ttl := 300,
    rdata := [2, 110, 115, 1, 98, 0] }

/-- **Both are accepted, and the zone has its name server twice.** -/
theorem dottedCalls_twice :
    (run id none dottedCalls).contents =
        [⟨ascii "a", ascii "a", ascii "NS", ascii "ns.b"⟩,
          ⟨ascii "a", ascii "a", ascii "NS", ascii "ns.b."⟩] ∧
      buildRData typeNS (ascii "ns.b") = buildRData typeNS (ascii "ns.b.") ∧
      ((Handler.serving (run id none dottedCalls) none fun _ => 0).handle
        { questions := [{ name := ascii "a", type := typeNS, cls := classIN }] }).answers =
          [serverRR, serverRR] ∧
      ¬ Distinct (run id none dottedCalls) := by
  have contents : (run id none dottedCalls).contents =
      [⟨ascii "a", ascii "a", ascii "NS", ascii "ns.b"⟩,
        ⟨ascii "a", ascii "a", ascii "NS", ascii "ns.b."⟩] := by decide +kernel
  have same : buildRData typeNS (ascii "ns.b") = buildRData typeNS (ascii "ns.b.") := by
    decide +kernel
  refine ⟨contents, same, by decide +kernel, fun distinct => ?_⟩
  have code : typeCode (ascii "NS") = typeNS := by decide +kernel
  have records := distinct.records
  rw [contents] at records
  simp [onWire, code, same] at records

/-- A zone, and two name servers for it, each with its final dot. -/
def plainCalls : List (Int × Request) :=
  [(1, .createZone { name := ascii "a" }),
   (2, .createRecord
     { zone := ascii "a", name := ascii "@", type := ascii "NS", rdata := ascii "ns.b." }),
   (3, .createRecord
     { zone := ascii "a", name := ascii "@", type := ascii "NS", rdata := ascii "ns.c." })]

theorem distinct_of_canonical_servers :
    (run id none plainCalls).contents.length = 2 ∧ Distinct (run id none plainCalls) := by
  refine ⟨by decide +kernel, distinct_of_canonical id none plainCalls ?_ plainCalls
    (List.prefix_refl _)⟩
  intro made now m front _
  have member : (now, Request.createRecord m) ∈ plainCalls := front.subset (by simp)
  simp only [plainCalls, List.mem_cons, Prod.mk.injEq, reduceCtorEq, and_false, false_or,
    Request.createRecord.injEq, List.not_mem_nil, or_false] at member
  rcases member with ⟨-, rfl⟩ | ⟨-, rfl⟩
  · exact canonical_of_name (by decide +kernel) (by decide +kernel)
  · exact canonical_of_name (by decide +kernel) (by decide +kernel)

end ShardDNS.API

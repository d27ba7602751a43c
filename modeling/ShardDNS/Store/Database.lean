import ShardDNS.DNS.RData
import ShardDNS.Store.Names
import Mathlib.Data.List.MinMax
import Mathlib.Data.List.Sort
import Mathlib.Data.List.TakeWhile

/-!
# The database and what is read from it

Two tables hold the zones and their records. The keys of the schema are part of
a `Database`: zone names are unique, every record belongs to a stored zone,
record ids are unique, and the reversed-name column is the reverse of the name.

`lookupName` answers with the records of a name or, when it has none, with
whether any record lies below it. The second query is a range of the
reversed-name column; it finds exactly the descendants (`existsBelow_iff`).
`findZone` takes the longest stored zone among a name and its ancestors
(`findZone_eq_ok_iff`).
-/

set_option autoImplicit false

namespace ShardDNS.Store

open Go LabelTree DNS

/-! ## Rows -/

structure Zone where
  name : Bytes
  primaryNS : Bytes
  adminEmail : Bytes
  serial : Int
  refresh : Int32
  retry : Int32
  expire : Int32
  minTTL : Int32
  deriving DecidableEq, Repr

/-- A zone of which nothing but the name was given. -/
def Zone.plain (name : Bytes) : Zone :=
  { name := name, primaryNS := ascii "ns1." ++ name ++ ascii "."
    adminEmail := ascii "hostmaster." ++ name ++ ascii ".", serial := 1, refresh := 3600
    retry := 900, expire := 604800, minTTL := 300 }

/-- A record as the resolver hands it on: its row, and its RDATA or the error that
encoding it met. -/
structure Record where
  id : Nat := 0
  zone : Bytes
  name : Bytes
  type : Bytes
  ttl : Int32
  rdata : Bytes
  wire : Option Bytes := none
  wireErr : Option RDataError := none
  deriving DecidableEq, Repr

structure NameSet where
  records : List Record := []
  hasChildren : Bool := false
  deriving DecidableEq, Repr

/-- `NameSet.Exists`. -/
def NameSet.exists (n : NameSet) : Bool := 0 < n.records.length || n.hasChildren

/-- Why a write is refused with `ErrConflict`. -/
inductive Conflict where
  | cnameAtApex
  | cnameCoexists (name : Bytes)
  | hasCNAME (name : Bytes)
  | zoneExists (name : Bytes)
  deriving DecidableEq, Repr

inductive StoreError where
  | notFound
  | conflict (why : Conflict)
  | zoneNameRequired
  | canceled
  | deadlineExceeded
  | database
  deriving DecidableEq, Repr

/-- What the DNS side asks of a store, as it stands while one request is handled. -/
structure Resolver where
  findZone : Bytes → Except StoreError Zone
  lookupName : Bytes → Bytes → Except StoreError NameSet

/-- Encodes RDATA from the type and the text of a record. As in the source both an error and
bytes may come back, and no bytes at all are nil. -/
abbrev Encoder := Bytes → Bytes → Option Bytes × Option RDataError

/-- The encoder the daemon opens its store with. -/
def daemonEncoder : Encoder := fun rtype rdata =>
  match buildRData (typeCode rtype) rdata with
  | .ok wire => (some wire, none)
  | .error e => (e.left, some e)

/-- A row of the table `records`. -/
structure RecordRow where
  id : Nat
  zone : Bytes
  name : Bytes
  nameRev : Bytes
  type : Bytes
  ttl : Int32
  rdata : Bytes
  reversed : nameRev = reverseName name
  deriving DecidableEq, Repr

/-- The two tables, with the keys of the schema. -/
structure Database where
  zones : List Zone
  records : List RecordRow
  nextID : Nat
  zoneKey : (zones.map Zone.name).Nodup
  foreignKey : ∀ row ∈ records, row.zone ∈ zones.map Zone.name
  idKey : (records.map RecordRow.id).Nodup
  idBound : ∀ row ∈ records, row.id < nextID

/-- Empty tables. -/
def Database.empty : Database :=
  { zones := [], records := [], nextID := 1, zoneKey := by simp, foreignKey := by simp
    idKey := by simp, idBound := by simp }

/-- A database with a zone and no records. -/
def Database.ofZone (name : Bytes) : Database :=
  { Database.empty with
    zones := [.plain name], zoneKey := by simp, foreignKey := by simp [Database.empty] }

/-! ## Reading records -/

/-- `scanRecord`: a row, encoded when the store has an encoder. -/
def scanRecord (encode : Option Encoder) (row : RecordRow) : Record :=
  let r : Record :=
    { id := row.id, zone := row.zone, name := row.name, type := row.type, ttl := row.ttl
      rdata := row.rdata }
  match encode with
  | none => r
  | some encode =>
      let (wire, wireErr) := encode row.type row.rdata
      { r with wire := wire, wireErr := wireErr }

/-- A row is scanned as it is, with the outcome of its encoding. -/
theorem scanRecord_eq (encode : Option Encoder) (row : RecordRow) :
    ∃ wire wireErr, scanRecord encode row =
      { id := row.id, zone := row.zone, name := row.name, type := row.type, ttl := row.ttl
        rdata := row.rdata, wire := wire, wireErr := wireErr } := by
  unfold scanRecord
  dsimp only
  split
  · exact ⟨none, none, rfl⟩
  · exact ⟨_, _, rfl⟩

theorem type_scanRecord (encode : Option Encoder) (row : RecordRow) :
    (scanRecord encode row).type = row.type := by
  obtain ⟨wire, wireErr, scanned⟩ := scanRecord_eq encode row
  rw [scanned]

theorem ttl_scanRecord (encode : Option Encoder) (row : RecordRow) :
    (scanRecord encode row).ttl = row.ttl := by
  obtain ⟨wire, wireErr, scanned⟩ := scanRecord_eq encode row
  rw [scanned]

theorem id_scanRecord (encode : Option Encoder) (row : RecordRow) :
    (scanRecord encode row).id = row.id := by
  obtain ⟨wire, wireErr, scanned⟩ := scanRecord_eq encode row
  rw [scanned]

namespace Database

/-- `SELECT … FROM records WHERE zone = $1 AND name = $2`. -/
def selectAt (db : Database) (zone name : Bytes) : List RecordRow :=
  db.records.filter fun row => row.zone = zone ∧ row.name = name

/-- `SELECT EXISTS (… WHERE zone = $1 AND name_rev >= $2 AND name_rev < $3)`. -/
def existsRange (db : Database) (zone low high : Bytes) : Bool :=
  db.records.any fun row => row.zone = zone ∧ ¬ row.nameRev < low ∧ row.nameRev < high

/-- The second query of `LookupName`. -/
def existsBelow (db : Database) (zone name : Bytes) : Bool :=
  let front := reverseName name ++ ascii "."
  db.existsRange zone front (front.take (front.length - 1) ++ ascii "/")

/-- `LookupName`. -/
def lookupName (db : Database) (encode : Option Encoder) (zone name : Bytes) : NameSet :=
  let records := (db.selectAt zone name).map (scanRecord encode)
  if 0 < records.length then { records := records }
  else { records := records, hasChildren := db.existsBelow zone name }

/-- `GetRecords`. -/
def getRecords (db : Database) (encode : Option Encoder) (zone name rtype : Bytes) : List Record :=
  let zone := normalizeZone zone
  let rows := db.records.filter fun row =>
    row.zone = zone ∧ row.name = normalizeName zone name ∧ row.type = normalizeType rtype
  (rows.insertionSort fun a b => a.id ≤ b.id).map (scanRecord encode)

/-! ## Reading zones -/

/-- The loop of `FindZone` over a name and its ancestors. -/
def candidatesLoop : Nat → Bytes → List Bytes
  | 0, _ => []
  | fuel + 1, name =>
      if name = [] then []
      else
        name ::
          match indexByte name dot with
          | none => []
          | some i => candidatesLoop fuel (name.drop (i + 1))

def candidates (qname : Bytes) : List Bytes := candidatesLoop (qname.length + 1) qname

/-- `SELECT … WHERE name = ANY($1) ORDER BY length(name) DESC LIMIT 1`. The names
selected are ends of one name, so their order by bytes is that by characters. -/
def selectLongest (db : Database) (names : List Bytes) : Option Zone :=
  (db.zones.filter fun z => names.contains z.name).argmax fun z => z.name.length

/-- `FindZone`. -/
def findZone (db : Database) (qname : Bytes) : Except StoreError Zone :=
  let names := candidates (normalizeZone qname)
  if names.length = 0 then .error .notFound
  else
    match db.selectLongest names with
    | some z => .ok z
    | none => .error .notFound

/-- `GetZone`. -/
def getZone (db : Database) (name : Bytes) : Except StoreError Zone :=
  match db.zones.find? fun z => z.name = normalizeZone name with
  | some z => .ok z
  | none => .error .notFound

/-- The resolver over the database itself. -/
def resolver (db : Database) (encode : Option Encoder) : Resolver :=
  { findZone := db.findZone
    lookupName := fun zone name => .ok (db.lookupName encode zone name) }

/-! ## Owners and descendants -/

/-- A record of the zone has this name. -/
def Owns (db : Database) (zone name : Bytes) : Prop :=
  ∃ row ∈ db.records, row.zone = zone ∧ row.name = name

/-- A record of the zone lies below this name. -/
def HasDescendant (db : Database) (zone name : Bytes) : Prop :=
  ∃ row ∈ db.records, row.zone = zone ∧ name ∈ ancestors dot row.name

/-- The name exists in the zone: it owns records or has descendants that do. -/
def NameExists (db : Database) (zone name : Bytes) : Prop :=
  db.Owns zone name ∨ db.HasDescendant zone name

instance (db : Database) (zone name : Bytes) : Decidable (db.Owns zone name) :=
  inferInstanceAs (Decidable (∃ row ∈ db.records, _))

instance (db : Database) (zone name : Bytes) : Decidable (db.HasDescendant zone name) :=
  inferInstanceAs (Decidable (∃ row ∈ db.records, _))

instance (db : Database) (zone name : Bytes) : Decidable (db.NameExists zone name) :=
  inferInstanceAs (Decidable (_ ∨ _))

variable {name zone : Bytes} {db : Database} {encode : Option Encoder}

/-- An existing name makes its ancestors exist. -/
theorem NameExists.of_mem_ancestors {ancestor : Bytes} (found : db.NameExists zone name)
    (member : ancestor ∈ ancestors dot name) : db.HasDescendant zone ancestor := by
  rcases found with ⟨row, stored, sameZone, rfl⟩ | ⟨row, stored, sameZone, lower⟩
  · exact ⟨row, stored, sameZone, member⟩
  · exact ⟨row, stored, sameZone, ancestors_trans member lower⟩

/-- The byte after `.` is `/`. -/
theorem dot_adjacent (x : UInt8) : (¬ x < dot ∧ x < 47) ↔ x = dot := by
  rw [UInt8.lt_iff_toNat_lt, UInt8.lt_iff_toNat_lt, ← UInt8.toNat_inj]
  simp only [dot, UInt8.reduceToNat]
  omega

/-- **The range of reversed names holds exactly the descendants.** -/
theorem existsBelow_iff (db : Database) (zone name : Bytes) :
    db.existsBelow zone name = true ↔ db.HasDescendant zone name := by
  have upper : (reverseName name ++ ascii ".").take ((reverseName name ++ ascii ".").length - 1) =
      reverseName name := by
    simp [ascii]
  simp only [existsBelow, upper, existsRange, List.any_eq_true, decide_eq_true_eq]
  refine exists_congr fun row => and_congr_right fun _ => and_congr_right fun _ => ?_
  rw [row.reversed]
  exact reverseLabels_range_iff dot_adjacent row.name name

theorem mem_selectAt {row : RecordRow} :
    row ∈ db.selectAt zone name ↔ row ∈ db.records ∧ row.zone = zone ∧ row.name = name := by
  simp [selectAt]

theorem selectAt_ne_nil_iff : db.selectAt zone name ≠ [] ↔ db.Owns zone name := by
  rw [Ne, List.eq_nil_iff_forall_not_mem, not_forall]
  simp only [not_not, mem_selectAt, Owns]

/-- The records of a name, as the resolver hands them on. -/
def recordsAt (db : Database) (encode : Option Encoder) (zone name : Bytes) : List Record :=
  (db.selectAt zone name).map (scanRecord encode)

theorem recordsAt_eq_nil_iff : db.recordsAt encode zone name = [] ↔ ¬ db.Owns zone name := by
  rw [recordsAt, List.map_eq_nil_iff, ← selectAt_ne_nil_iff, not_not]

@[simp] theorem records_lookupName (db : Database) (encode : Option Encoder) (zone name : Bytes) :
    (db.lookupName encode zone name).records = db.recordsAt encode zone name := by
  rw [lookupName, recordsAt, apply_ite NameSet.records, ite_self]

/-- The flag of a name without records tells its descendants. -/
theorem hasChildren_lookupName (bare : ¬ db.Owns zone name) :
    (db.lookupName encode zone name).hasChildren = true ↔ db.HasDescendant zone name := by
  have empty : (db.selectAt zone name).map (scanRecord encode) = [] :=
    recordsAt_eq_nil_iff.mpr bare
  rw [← existsBelow_iff, lookupName]
  simp [empty]

/-- **The test for descendants by a range of reversed names is exact.** The flag that a
lookup returns with no records tells whether the zone has a record at a name that ends
in a dot and the name asked for; and for any two names, the one reversed lies in the
range of the other if and only if it is a proper descendant of it: it ends in a dot and
the other, and the labels of the other are a proper end of its labels. -/
theorem hasChildren_iff_range :
    (∀ (db : Database) (encode : Option Encoder) (zone name : Bytes),
      (db.lookupName encode zone name).records = [] →
        ((db.lookupName encode zone name).hasChildren = true ↔
          ∃ row ∈ db.records, row.zone = zone ∧ ascii "." ++ name <:+ row.name)) ∧
    ∀ s n : Bytes,
      ((reverseName n ++ ascii "." ≤ reverseName s ∧ reverseName s < reverseName n ++ ascii "/") ↔
        ascii "." ++ n <:+ s) ∧
      (ascii "." ++ n <:+ s ↔ ∃ front, front ≠ [] ∧ labels dot s = front ++ labels dot n) := by
  refine ⟨?_, fun s n => ⟨?_, ?_⟩⟩
  · intro db encode zone name empty
    rw [records_lookupName, recordsAt_eq_nil_iff] at empty
    rw [hasChildren_lookupName empty]
    simp only [HasDescendant, mem_ancestors_iff_suffix]
  · rw [← mem_ancestors_iff_suffix]
    exact reverseLabels_range_iff dot_adjacent s n
  · rw [← mem_ancestors_iff_suffix]
    exact mem_ancestors_iff_labels

theorem exists_lookupName :
    (db.lookupName encode zone name).exists = true ↔ db.NameExists zone name := by
  by_cases bare : db.Owns zone name
  · have stored : db.recordsAt encode zone name ≠ [] := fun empty =>
      recordsAt_eq_nil_iff.mp empty bare
    simp [NameSet.exists, List.length_pos_iff, stored, NameExists, bare]
  · have empty : db.recordsAt encode zone name = [] := recordsAt_eq_nil_iff.mpr bare
    rw [NameSet.exists, Bool.or_eq_true, hasChildren_lookupName bare]
    simp [empty, NameExists, bare]

/-! ## The zone of a name -/

/-- The candidates are the name and its ancestors up to the first empty one. -/
theorem candidates_eq (qname : Bytes) :
    candidates qname = (qname :: ancestors dot qname).takeWhile fun name => decide (name ≠ []) := by
  suffices loop : ∀ (fuel : Nat) (name : Bytes), name.length < fuel →
      candidatesLoop fuel name =
        (name :: ancestors dot name).takeWhile fun name => decide (name ≠ []) from
    loop _ _ (Nat.lt_succ_self _)
  intro fuel
  induction fuel with
  | zero => simp
  | succ fuel ih =>
      intro name enough
      by_cases empty : name = []
      · simp [candidatesLoop, empty]
      · rw [candidatesLoop, if_neg empty, List.takeWhile_cons_of_pos (by simpa using empty)]
        cases cut : indexByte name dot with
        | none => simp [ancestors_of_indexByte_none cut]
        | some i =>
            have shorter : (name.drop (i + 1)).length < fuel := by
              have := List.length_pos_iff.mpr empty
              rw [List.length_drop]
              omega
            simp only [ancestors_of_indexByte_some cut, ih _ shorter]

theorem mem_chain_of_mem_candidates {qname : Bytes} (member : name ∈ candidates qname) :
    name ∈ qname :: ancestors dot qname ∧ name ≠ [] := by
  rw [candidates_eq] at member
  exact ⟨(List.takeWhile_prefix _).subset member, by simpa using List.mem_takeWhile_imp member⟩

/-- Zone names are unique. -/
theorem zone_unique {z w : Zone} (first : z ∈ db.zones) (second : w ∈ db.zones)
    (same : z.name = w.name) : z = w :=
  List.inj_on_of_nodup_map db.zoneKey first second same

/-- The only error of `FindZone` here. -/
theorem eq_notFound_of_findZone {qname : Bytes} {e : StoreError}
    (failed : db.findZone qname = .error e) : e = .notFound := by
  unfold findZone at failed
  dsimp only at failed
  split at failed
  · cases failed
    rfl
  · split at failed
    · cases failed
    · cases failed
      rfl

/-- **The zone found is the longest stored candidate.** -/
theorem findZone_eq_ok_iff {qname : Bytes} {z : Zone} :
    db.findZone qname = .ok z ↔
      z ∈ db.zones ∧ z.name ∈ candidates (normalizeZone qname) ∧
        ∀ w ∈ db.zones, w.name ∈ candidates (normalizeZone qname) →
          w.name.length ≤ z.name.length := by
  have selected : db.findZone qname = .ok z ↔
      db.selectLongest (candidates (normalizeZone qname)) = some z := by
    unfold findZone
    generalize candidates (normalizeZone qname) = names
    cases names with
    | nil => simp [selectLongest]
    | cons name names =>
        simp only [List.length_cons, Nat.add_eq_zero_iff, one_ne_zero, and_false, if_false]
        split <;> simp_all
  rw [selected, selectLongest, List.argmax_eq_some_iff]
  simp only [List.mem_filter, List.contains_iff_mem, and_imp, and_assoc]
  refine and_congr_right fun stored => and_congr_right fun candidate =>
    and_iff_left_of_imp fun longest w member also same => ?_
  -- candidates of one length are one name, and zone names are unique
  have names : w.name = z.name := ancestors_eq_of_length_eq
    (mem_chain_of_mem_candidates also).1 (mem_chain_of_mem_candidates candidate).1
    (Nat.le_antisymm (longest w member also) same)
  rw [zone_unique member stored names]

end Database

end ShardDNS.Store

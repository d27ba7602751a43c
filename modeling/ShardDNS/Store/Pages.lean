import ShardDNS.Library.Keyset
import ShardDNS.Store.Writes

/-!
# Listing by pages

`ListRecords` and `ListZones` give the rows after a key in the order of the key, the id of a
record or the name of a zone, at most a page of them, and the key of the last row as a token if
there are more. A token is text. That of a record is its id in decimal, which is read back as it
was written (`afterID_formatInt`); that of a zone is its name.

Both are pages by key (`listRecords_eq`, `listZones_eq`). They start with the empty token, which
comes before every id and every name that the writes put in the tables (`Kept`): ids are counted
from one, and a zone without a name is refused.
-/

set_option autoImplicit false

namespace ShardDNS.Store

open Go

/-- The order of texts in the database, by keys to sort by. Different texts have different
keys, and no text comes before the empty one. -/
structure Collation (κ : Type) [LinearOrder κ] where
  key : Bytes → κ
  injective : Function.Injective key
  empty : ∀ text, key [] ≤ key text

/-- The error `store: invalid page token`. -/
inductive PageError where
  | invalidPageToken
  deriving DecidableEq, Repr

/-! ## The queries -/

/-- The id a page token of `ListRecords` stands for. -/
def afterID (token : Bytes) : Except PageError Nat :=
  if token = [] then .ok 0
  else
    match parseInt token 64 with
    | none => .error .invalidPageToken
    | some id => if id < 0 then .error .invalidPageToken else .ok id.toNat

namespace Database

/-- `SELECT … FROM records WHERE zone = $1 AND id > $2 ORDER BY id LIMIT $3`. -/
def selectPage (db : Database) (zone : Bytes) (id limit : Nat) : List RecordRow :=
  ((db.records.filter fun row => row.zone = zone ∧ id < row.id).insertionSort
    fun a b => a.id ≤ b.id).take limit

/-- `ListRecords`. -/
def listRecords (db : Database) (encode : Option Encoder) (zone : Bytes) (limit : Nat)
    (token : Bytes) : Except PageError (List Record × Bytes) := do
  let id ← afterID token
  let records := (db.selectPage (normalizeZone zone) id (limit + 1)).map (scanRecord encode)
  if limit < records.length then
    let records := records.take limit
    .ok (records, (records[limit - 1]?).elim [] fun r => formatInt r.id)
  else .ok (records, [])

section Zones

variable {κ : Type} [LinearOrder κ] (collation : Collation κ)

/-- `SELECT … FROM zones WHERE name > $1 ORDER BY name LIMIT $2`. -/
def selectZones (db : Database) (name : Bytes) (limit : Nat) : List Zone :=
  ((db.zones.filter fun z => collation.key name < collation.key z.name).insertionSort
    fun a b => collation.key a.name ≤ collation.key b.name).take limit

/-- `ListZones`. -/
def listZones (db : Database) (limit : Nat) (token : Bytes) : List Zone × Bytes :=
  let zones := db.selectZones collation token (limit + 1)
  if limit < zones.length then
    let zones := zones.take limit
    (zones, (zones[limit - 1]?).elim [] Zone.name)
  else (zones, [])

end Zones

end Database

/-! ## Tokens -/

theorem formatInt_ne_nil (n : Nat) : formatInt n ≠ [] := by
  have text : formatInt n = formatUint n := if_neg (by omega)
  rw [text]
  exact (formatUint_spec n).1

/-- The id in a token is read back. -/
theorem afterID_formatInt {n : Nat} (fits : n < 2 ^ 63) : afterID (formatInt n) = .ok n := by
  rw [afterID, if_neg (formatInt_ne_nil n), parseInt_formatInt fits]
  simp only [if_neg (show ¬ (n : Int) < 0 by omega), Int.toNat_natCast]

/-! ## The queries as pages by key -/

namespace Database

/-- The records of a zone. -/
def recordsOf (db : Database) (zone : Bytes) : List RecordRow :=
  db.records.filter fun row => row.zone = zone

theorem nodup_recordsOf (db : Database) (zone : Bytes) :
    ((db.recordsOf zone).map RecordRow.id).Nodup :=
  db.idKey.sublist (List.filter_sublist.map _)

theorem selectPage_eq (db : Database) (zone : Bytes) (id limit : Nat) :
    db.selectPage zone id limit =
      (Keyset.rowsAfter RecordRow.id (db.recordsOf zone) id).take limit := by
  rw [selectPage, Keyset.rowsAfter, recordsOf, List.filter_filter]
  congr 2
  refine List.filter_congr fun row _ => ?_
  rw [Bool.decide_and, Bool.and_comm]

/-- **`ListRecords` gives a page by id.** -/
theorem listRecords_eq {db : Database} {encode : Option Encoder} {zone token : Bytes}
    {limit id : Nat} (positive : 0 < limit) (read : afterID token = .ok id) :
    db.listRecords encode zone limit token =
      .ok ((Keyset.page RecordRow.id (db.recordsOf (normalizeZone zone)) id limit).1.map
          (scanRecord encode),
        (Keyset.page RecordRow.id (db.recordsOf (normalizeZone zone)) id limit).2.elim []
          fun row => formatInt row.id) := by
  rw [listRecords, read, ok_bind, selectPage_eq, Keyset.page]
  dsimp only
  rw [List.length_map]
  split
  · rw [← List.map_take, List.getElem?_map, List.getElem?_take_of_lt (by omega)]
    cases found : ((Keyset.rowsAfter RecordRow.id (db.recordsOf (normalizeZone zone)) id).take
      (limit + 1))[limit - 1]? with
    | none => rfl
    | some row => simp [id_scanRecord]
  · rfl

section Zones

variable {κ : Type} [LinearOrder κ] {collation : Collation κ}

theorem nodup_zones (db : Database) (collation : Collation κ) :
    (db.zones.map fun z => collation.key z.name).Nodup := by
  have names := db.zoneKey.map collation.injective
  rwa [List.map_map] at names

/-- **`ListZones` gives a page by name.** -/
theorem listZones_eq {db : Database} {limit : Nat} {token : Bytes} (positive : 0 < limit) :
    db.listZones collation limit token =
      ((Keyset.page (fun z => collation.key z.name) db.zones (collation.key token) limit).1,
        (Keyset.page (fun z => collation.key z.name) db.zones (collation.key token) limit).2.elim []
          Zone.name) := by
  rw [listZones, selectZones, Keyset.page, Keyset.rowsAfter]
  dsimp only
  split
  · rw [List.getElem?_take_of_lt (by omega)]
  · rfl

end Zones

/-! ## What the writes keep -/

/-- Every zone has a name, and ids are counted from one. -/
structure Kept (db : Database) : Prop where
  named : ∀ z ∈ db.zones, z.name ≠ []
  counter : 0 < db.nextID
  counted : ∀ row ∈ db.records, 0 < row.id

variable {db : Database} {md5 : Bytes → Bytes} {encode : Option Encoder} {now : Int}

theorem kept_empty : Kept .empty := ⟨by simp [empty], by decide, by simp [empty]⟩

theorem Kept.insertZone (kept : db.Kept) {z : Zone} (fresh : z.name ∉ db.zones.map Zone.name)
    (named : z.name ≠ []) : (db.insertZone z fresh).Kept := by
  refine ⟨fun other member => ?_, kept.counter, kept.counted⟩
  rcases List.mem_append.mp member with old | new
  · exact kept.named other old
  · rwa [List.mem_singleton.mp new]

theorem Kept.updateZones (kept : db.Kept) {f : Zone → Zone} (keeps : ∀ z, (f z).name = z.name) :
    (db.updateZones f keeps).Kept := by
  refine ⟨fun z member => ?_, kept.counter, kept.counted⟩
  obtain ⟨old, stored, rfl⟩ := List.mem_map.mp member
  rw [keeps]
  exact kept.named old stored

theorem Kept.bumpZone (kept : db.Kept) (name : Bytes) : (db.bumpZone now name).Kept :=
  kept.updateZones fun z => by split <;> rfl

theorem Kept.deleteZones (kept : db.Kept) (name : Bytes) : (db.deleteZones name).Kept :=
  ⟨fun z member => kept.named z (List.mem_filter.mp member).1, kept.counter,
    fun row member => kept.counted row (List.mem_filter.mp member).1⟩

theorem Kept.updateTTL (kept : db.Kept) (selected : RecordRow → Bool) (ttl : Int32) :
    (db.updateTTL selected ttl).Kept := by
  refine ⟨kept.named, kept.counter, fun row member => ?_⟩
  obtain ⟨old, stored, rfl⟩ := List.mem_map.mp member
  have counted := kept.counted old stored
  split <;> exact counted

theorem Kept.insertRecord (kept : db.Kept) {zone name type rdata : Bytes} {ttl : Int32}
    (stored : zone ∈ db.zones.map Zone.name) :
    (db.insertRecord zone name type ttl rdata stored).Kept := by
  refine ⟨kept.named, Nat.succ_pos _, fun row member => ?_⟩
  rcases List.mem_append.mp member with old | new
  · exact kept.counted row old
  · rw [List.mem_singleton.mp new]
    exact kept.counter

theorem Kept.deleteRecords (kept : db.Kept) (selected : RecordRow → Bool) :
    (db.deleteRecords selected).Kept :=
  ⟨kept.named, kept.counter, fun row member => kept.counted row (List.mem_filter.mp member).1⟩

theorem Kept.upsertRecord (kept : db.Kept) {zone name rtype rdata : Bytes} {ttl : Int32}
    (stored : zone ∈ db.zones.map Zone.name) :
    (db.upsertRecord md5 zone name rtype ttl rdata stored).1.Kept := by
  unfold Database.upsertRecord
  split
  · rename_i old _
    have updated := kept.updateTTL (fun row => row.id = old.id) ttl
    exact ⟨updated.named, Nat.succ_pos _, updated.counted⟩
  · exact kept.insertRecord stored

theorem Kept.createZone (kept : db.Kept) {z : Zone} {effect : Effect Zone}
    (created : db.createZone now z = .ok effect) : effect.db.Kept := by
  unfold Database.createZone at created
  dsimp only at created
  split at created
  · cases created
  · rename_i named
    split at created
    · cases created
    · rename_i fresh
      cases created
      exact kept.insertZone fresh named

theorem Kept.updateZone (kept : db.Kept) {z : Zone} {effect : Effect Zone}
    (updated : db.updateZone now z = .ok effect) : effect.db.Kept := by
  unfold Database.updateZone at updated
  split at updated
  · cases updated
  · cases updated
    exact kept.updateZones fun old => by split <;> rfl

theorem Kept.deleteZone (kept : db.Kept) {name : Bytes} {effect : Effect Unit}
    (deleted : db.deleteZone name = .ok effect) : effect.db.Kept := by
  unfold Database.deleteZone at deleted
  dsimp only at deleted
  split at deleted
  · cases deleted
  · cases deleted
    exact kept.deleteZones _

theorem Kept.createRecord (kept : db.Kept) {r : Record} {effect : Effect Record}
    (created : db.createRecord md5 encode now r = .ok effect) : effect.db.Kept := by
  unfold Database.createRecord at created
  dsimp only at created
  split at created
  · rename_i stored
    split at created
    · cases created
    · cases created
      have found : normalizeZone r.zone ∈
          (db.bumpZone now (normalizeZone r.zone)).zones.map Zone.name := by
        rwa [Database.bumpZone, names_updateZones]
      exact ((kept.bumpZone _).upsertRecord found).updateTTL _ _
  · cases created

theorem Kept.deleteRecord (kept : db.Kept) {zone name rtype rdata : Bytes} {effect : Effect Unit}
    (deleted : db.deleteRecord md5 now zone name rtype rdata = .ok effect) : effect.db.Kept := by
  unfold Database.deleteRecord at deleted
  dsimp only at deleted
  split at deleted
  · cases deleted
  · cases deleted
    exact (kept.deleteRecords _).bumpZone _

end Database

end ShardDNS.Store

import ShardDNS.Store.Writes

/-!
# What the records say

The data of a record is what it says: its zone, name, type and text, without its id and its
TTL. On the data of all records, in their order, every write is simple. `CreateRecord` adds
one at the end, unless the RRset has one with the same digest; deleting leaves the others as
they are, and no other write touches any.
-/

set_option autoImplicit false

namespace ShardDNS.Store

open Go

/-- A record without its id and its TTL. -/
structure RecordData where
  zone : Bytes
  name : Bytes
  type : Bytes
  rdata : Bytes
  deriving DecidableEq, Repr

def RecordRow.data (row : RecordRow) : RecordData :=
  { zone := row.zone, name := row.name, type := row.type, rdata := row.rdata }

/-- The row that `CreateRecord` makes of a record. -/
def Record.data (r : Record) : RecordData :=
  { zone := normalizeZone r.zone, name := normalizeName (normalizeZone r.zone) r.name
    type := normalizeType r.type, rdata := r.rdata }

/-- The index `records_rrset_member` has an entry for the record. -/
def RecordData.Indexed (md5 : Bytes → Bytes) (d : RecordData) (stored : List RecordData) : Prop :=
  ∃ old ∈ stored, old.zone = d.zone ∧ old.name = d.name ∧ old.type = d.type ∧
    md5 old.rdata = md5 d.rdata

instance (md5 : Bytes → Bytes) (d : RecordData) (stored : List RecordData) :
    Decidable (d.Indexed md5 stored) :=
  inferInstanceAs (Decidable (∃ old ∈ stored, _))

namespace Database

variable {db : Database} {md5 : Bytes → Bytes} {encode : Option Encoder} {now : Int}

def contents (db : Database) : List RecordData := db.records.map RecordRow.data

theorem contents_updateTTL (db : Database) (selected : RecordRow → Bool) (ttl : Int32) :
    (db.updateTTL selected ttl).contents = db.contents := by
  rw [contents, updateTTL, List.map_map]
  refine List.map_congr_left fun row _ => ?_
  dsimp only [Function.comp]
  split <;> rfl

theorem contents_upsertRecord {zone name rtype : Bytes} {ttl : Int32} {rdata : Bytes}
    (stored : zone ∈ db.zones.map Zone.name) :
    (db.upsertRecord md5 zone name rtype ttl rdata stored).1.contents =
      if RecordData.Indexed md5 ⟨zone, name, rtype, rdata⟩ db.contents then db.contents
      else db.contents ++ [⟨zone, name, rtype, rdata⟩] := by
  unfold upsertRecord
  split
  · rename_i old found
    have hit := List.find?_some found
    rw [decide_eq_true_eq] at hit
    obtain ⟨member, sameZone, sameName⟩ := mem_selectAt.mp (List.mem_of_find?_eq_some found)
    have indexed : RecordData.Indexed md5 ⟨zone, name, rtype, rdata⟩ db.contents :=
      ⟨old.data, List.mem_map_of_mem member, sameZone, sameName, hit.1, hit.2⟩
    rw [if_pos indexed]
    exact contents_updateTTL ..
  · rename_i missing
    have fresh : ¬ RecordData.Indexed md5 ⟨zone, name, rtype, rdata⟩ db.contents := by
      rintro ⟨_, member, sameZone, sameName, sameType, digest⟩
      obtain ⟨row, inTable, rfl⟩ := List.mem_map.mp member
      have unmatched := List.find?_eq_none.mp missing row
        (mem_selectAt.mpr ⟨inTable, sameZone, sameName⟩)
      rw [decide_eq_true_eq] at unmatched
      exact unmatched ⟨sameType, digest⟩
    rw [if_neg fresh, contents, insertRecord, List.map_append]
    rfl

/-- **`CreateRecord` adds its record, unless the index has it.** -/
theorem contents_createRecord {r : Record} {effect : Effect Record}
    (created : db.createRecord md5 encode now r = .ok effect) :
    effect.db.contents =
      if r.data.Indexed md5 db.contents then db.contents else db.contents ++ [r.data] := by
  unfold createRecord at created
  dsimp only at created
  split at created
  · split at created
    · cases created
    · cases created
      rw [contents_updateTTL]
      exact contents_upsertRecord _
  · cases created

theorem contents_deleteRecord {zone name rtype rdata : Bytes} {effect : Effect Unit}
    (deleted : db.deleteRecord md5 now zone name rtype rdata = .ok effect) :
    effect.db.contents.Sublist db.contents := by
  unfold deleteRecord at deleted
  dsimp only at deleted
  split at deleted
  · cases deleted
  · cases deleted
    exact List.filter_sublist.map _

theorem contents_deleteZone {name : Bytes} {effect : Effect Unit}
    (deleted : db.deleteZone name = .ok effect) : effect.db.contents.Sublist db.contents := by
  unfold deleteZone at deleted
  dsimp only at deleted
  split at deleted
  · cases deleted
  · cases deleted
    exact List.filter_sublist.map _

theorem contents_createZone {z : Zone} {effect : Effect Zone}
    (created : db.createZone now z = .ok effect) : effect.db.contents = db.contents :=
  congrArg (List.map RecordRow.data) (rows_createZone created).2.2

theorem contents_updateZone {z : Zone} {effect : Effect Zone}
    (updated : db.updateZone now z = .ok effect) : effect.db.contents = db.contents :=
  congrArg (List.map RecordRow.data) (rows_updateZone updated).2.2

end Database

end ShardDNS.Store

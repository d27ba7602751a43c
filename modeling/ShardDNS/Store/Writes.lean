import ShardDNS.Store.Database

/-!
# Writing to the database

The store's writes, statement by statement. Each keeps the keys of the schema, which
is what it takes to build the `Database` after it, and each reports the rows its
statements inserted, updated or deleted (`Effect`). A write that fails changes
nothing: its transaction is rolled back.

Every write leaves alone what lies outside its zone and name
(`agreeOutside_createRecord`, `agreeOutside_deleteRecord`, `agreeOutside_deleteZone`),
so a lookup elsewhere reads the same as before, unless a descendant came or went
(`lookupName_of_agreeOutside`).
-/

set_option autoImplicit false

namespace ShardDNS.Store

open Go LabelTree DNS

/-! ## Statements -/

namespace Database

/-- `INSERT INTO zones`. -/
def insertZone (db : Database) (z : Zone) (fresh : z.name ∉ db.zones.map Zone.name) : Database :=
  { db with
    zones := db.zones ++ [z]
    zoneKey := by
      rw [List.map_append, List.nodup_append]
      refine ⟨db.zoneKey, by simp, fun a stored b added same => fresh ?_⟩
      rw [List.map_singleton, List.mem_singleton] at added
      rwa [← added, ← same]
    foreignKey := fun row stored => by
      rw [List.map_append]
      exact List.mem_append_left _ (db.foreignKey row stored) }

/-- `UPDATE zones`, with the name kept. -/
def updateZones (db : Database) (f : Zone → Zone) (keeps : ∀ z, (f z).name = z.name) : Database :=
  have names : (db.zones.map f).map Zone.name = db.zones.map Zone.name := by
    rw [List.map_map]
    exact List.map_congr_left fun z _ => keeps z
  { db with
    zones := db.zones.map f
    zoneKey := by rw [names]; exact db.zoneKey
    foreignKey := by rw [names]; exact db.foreignKey }

/-- `DELETE FROM zones WHERE name = $1`, with the records the foreign key cascades to. -/
def deleteZones (db : Database) (name : Bytes) : Database :=
  { db with
    zones := db.zones.filter fun z => z.name ≠ name
    records := db.records.filter fun row => row.zone ≠ name
    zoneKey := db.zoneKey.sublist (List.filter_sublist.map _)
    foreignKey := fun row kept => by
      obtain ⟨stored, other⟩ := List.mem_filter.mp kept
      obtain ⟨z, member, same⟩ := List.mem_map.mp (db.foreignKey row stored)
      exact List.mem_map.mpr ⟨z, List.mem_filter.mpr ⟨member, by rwa [same]⟩, same⟩
    idKey := db.idKey.sublist (List.filter_sublist.map _)
    idBound := fun row kept => db.idBound row (List.mem_filter.mp kept).1 }

/-- The row `INSERT INTO records` makes. -/
def newRow (db : Database) (zone name type : Bytes) (ttl : Int32) (rdata : Bytes) : RecordRow :=
  { id := db.nextID, zone := zone, name := name, nameRev := reverseName name, type := type
    ttl := ttl, rdata := rdata, reversed := rfl }

/-- `INSERT INTO records`. -/
def insertRecord (db : Database) (zone name type : Bytes) (ttl : Int32) (rdata : Bytes)
    (stored : zone ∈ db.zones.map Zone.name) : Database :=
  { db with
    records := db.records ++ [db.newRow zone name type ttl rdata]
    nextID := db.nextID + 1
    foreignKey := fun row member => by
      rcases List.mem_append.mp member with old | new
      · exact db.foreignKey row old
      · rw [List.mem_singleton.mp new]
        exact stored
    idKey := by
      rw [List.map_append, List.nodup_append]
      refine ⟨db.idKey, by simp, fun a old b new same => ?_⟩
      obtain ⟨row, member, rfl⟩ := List.mem_map.mp old
      rw [List.map_singleton, List.mem_singleton] at new
      have bound := db.idBound row member
      rw [same, new] at bound
      exact Nat.lt_irrefl _ bound
    idBound := fun row member => by
      rcases List.mem_append.mp member with old | new
      · exact Nat.lt_succ_of_lt (db.idBound row old)
      · rw [List.mem_singleton.mp new]
        exact Nat.lt_succ_self _ }

/-- `UPDATE records SET ttl = …`, for the rows selected. -/
def updateTTL (db : Database) (selected : RecordRow → Bool) (ttl : Int32) : Database :=
  have ids : (db.records.map fun row => if selected row then { row with ttl := ttl } else row).map
      RecordRow.id = db.records.map RecordRow.id := by
    rw [List.map_map]
    refine List.map_congr_left fun row _ => ?_
    dsimp only [Function.comp]
    split <;> rfl
  { db with
    records := db.records.map fun row => if selected row then { row with ttl := ttl } else row
    foreignKey := fun row member => by
      obtain ⟨old, stored, rfl⟩ := List.mem_map.mp member
      have owned := db.foreignKey old stored
      split <;> exact owned
    idKey := by rw [ids]; exact db.idKey
    idBound := fun row member => by
      obtain ⟨old, stored, rfl⟩ := List.mem_map.mp member
      have bound := db.idBound old stored
      split <;> exact bound }

/-- The identity sequence of the table moves on when an insert meets a conflict. -/
def skipID (db : Database) : Database :=
  { db with
    nextID := db.nextID + 1
    idBound := fun row stored => Nat.lt_succ_of_lt (db.idBound row stored) }

/-- `DELETE FROM records`. -/
def deleteRecords (db : Database) (selected : RecordRow → Bool) : Database :=
  { db with
    records := db.records.filter fun row => !selected row
    foreignKey := fun row kept => db.foreignKey row (List.mem_filter.mp kept).1
    idKey := db.idKey.sublist (List.filter_sublist.map _)
    idBound := fun row kept => db.idBound row (List.mem_filter.mp kept).1 }

@[simp] theorem names_updateZones (db : Database) (f : Zone → Zone)
    (keeps : ∀ z, (f z).name = z.name) :
    (db.updateZones f keeps).zones.map Zone.name = db.zones.map Zone.name := by
  rw [updateZones, List.map_map]
  exact List.map_congr_left fun z _ => keeps z

end Database

/-! ## Writes -/

/-- What a write did: the tables after it, the rows its statements inserted, updated or
deleted, and what it returns. -/
structure Effect (α : Type) where
  db : Database
  zones : List Zone
  records : List RecordRow
  value : α

/-- `bumpSerial`, at a time in seconds since the epoch. -/
def bumpSerial (now : Int) (z : Zone) : Zone := { z with serial := max (z.serial + 1) now }

namespace Database

/-- `UPDATE zones SET <bumpSerial> WHERE name = $1`. -/
def bumpZone (db : Database) (now : Int) (name : Bytes) : Database :=
  db.updateZones (fun z => if z.name = name then bumpSerial now z else z) fun z => by
    split <;> rfl

theorem records_bumpZone (db : Database) (now : Int) (name : Bytes) :
    (db.bumpZone now name).records = db.records := rfl

/-- The rows `bumpZone` updates. -/
def bumpedZones (db : Database) (now : Int) (name : Bytes) : List Zone :=
  (db.zones.filter fun z => z.name = name).map (bumpSerial now)

/-- `CreateZone`. -/
def createZone (db : Database) (now : Int) (z : Zone) : Except StoreError (Effect Zone) :=
  let name := normalizeZone z.name
  if name = [] then .error .zoneNameRequired
  else
    let row := { z with name := name, serial := now }
    if taken : row.name ∈ db.zones.map Zone.name then .error (.conflict (.zoneExists name))
    else .ok { db := db.insertZone row taken, zones := [row], records := [], value := row }

/-- The row `UpdateZone` sets. -/
def settingsOf (z : Zone) (now : Int) (old : Zone) : Zone :=
  bumpSerial now
    { old with
      primaryNS := z.primaryNS, adminEmail := z.adminEmail, refresh := z.refresh
      retry := z.retry, expire := z.expire, minTTL := z.minTTL }

/-- `UpdateZone`. -/
def updateZone (db : Database) (now : Int) (z : Zone) : Except StoreError (Effect Zone) :=
  match db.zones.find? fun old => old.name = normalizeZone z.name with
  | none => .error .notFound
  | some old =>
      .ok
        { db := db.updateZones (fun old => if old.name = normalizeZone z.name then
            settingsOf z now old else old) fun old => by split <;> rfl
          zones := [settingsOf z now old], records := [], value := settingsOf z now old }

/-- `DeleteZone`. -/
def deleteZone (db : Database) (name : Bytes) : Except StoreError (Effect Unit) :=
  let deleted := db.zones.filter fun z => z.name = normalizeZone name
  if deleted.length = 0 then .error .notFound
  else
    .ok
      { db := db.deleteZones (normalizeZone name), zones := deleted
        records := db.records.filter fun row => row.zone = normalizeZone name, value := () }

/-- The conflicts `CreateRecord` looks for. -/
def cnameConflict (db : Database) (md5 : Bytes → Bytes) (zone name rtype rdata : Bytes) :
    Option Conflict :=
  if rtype = ascii "CNAME" then
    if name = zone then some .cnameAtApex
    else if (db.selectAt zone name).any fun row =>
        row.type ≠ ascii "CNAME" ∨ md5 row.rdata ≠ md5 rdata then
      some (.cnameCoexists name)
    else none
  else if (db.selectAt zone name).any fun row => row.type = ascii "CNAME" then
    some (.hasCNAME name)
  else none

/-- `INSERT INTO records … ON CONFLICT (zone, name, type, md5(rdata)) DO UPDATE SET ttl`,
with the row it returns. -/
def upsertRecord (db : Database) (md5 : Bytes → Bytes) (zone name rtype : Bytes) (ttl : Int32)
    (rdata : Bytes) (stored : zone ∈ db.zones.map Zone.name) : Database × RecordRow :=
  match (db.selectAt zone name).find? fun row =>
      row.type = rtype ∧ md5 row.rdata = md5 rdata with
  | some old => ((db.updateTTL (fun row => row.id = old.id) ttl).skipID, { old with ttl := ttl })
  | none => (db.insertRecord zone name rtype ttl rdata stored, db.newRow zone name rtype ttl rdata)

/-- The rows of an RRset with another TTL. -/
def otherTTL (zone name rtype : Bytes) (ttl : Int32) (row : RecordRow) : Bool :=
  row.zone = zone ∧ row.name = name ∧ row.type = rtype ∧ row.ttl ≠ ttl

/-- `CreateRecord`. -/
def createRecord (db : Database) (md5 : Bytes → Bytes) (encode : Option Encoder) (now : Int)
    (r : Record) : Except StoreError (Effect Record) :=
  let zone := normalizeZone r.zone
  let name := normalizeName zone r.name
  let rtype := normalizeType r.type
  if found : zone ∈ db.zones.map Zone.name then
    match db.cnameConflict md5 zone name rtype r.rdata with
    | some why => .error (.conflict why)
    | none =>
        let (db', row) := (db.bumpZone now zone).upsertRecord md5 zone name rtype r.ttl r.rdata
          (by rw [bumpZone, names_updateZones]; exact found)
        let others := db'.records.filter (otherTTL zone name rtype r.ttl)
        .ok
          { db := db'.updateTTL (otherTTL zone name rtype r.ttl) r.ttl
            zones := db.bumpedZones now zone
            records := row :: others.map fun row => { row with ttl := r.ttl }
            value := scanRecord encode row }
  else .error .notFound

/-- `DeleteRecord`. -/
def deleteRecord (db : Database) (md5 : Bytes → Bytes) (now : Int)
    (zone name rtype rdata : Bytes) : Except StoreError (Effect Unit) :=
  let zone := normalizeZone zone
  let name := normalizeName zone name
  let selected := fun row : RecordRow =>
    decide (row.zone = zone ∧ row.name = name ∧ row.type = normalizeType rtype ∧
      md5 row.rdata = md5 rdata)
  let deleted := db.records.filter selected
  if deleted.length = 0 then .error .notFound
  else
    .ok
      { db := (db.deleteRecords selected).bumpZone now zone
        zones := db.bumpedZones now zone, records := deleted, value := () }

/-! ## The rows a write touches -/

variable {name zone : Bytes} {effect : Effect Unit} {changed : Bytes → Bytes → Prop}
  {db db' : Database}

section Rows

variable {db : Database} {md5 : Bytes → Bytes} {encode : Option Encoder} {now : Int}

theorem name_of_mem_bumpedZones {z : Zone} (member : z ∈ db.bumpedZones now name) :
    z.name = name := by
  obtain ⟨old, stored, rfl⟩ := List.mem_map.mp member
  simpa [bumpSerial] using (List.mem_filter.mp stored).2

theorem rows_createZone {z : Zone} {effect : Effect Zone}
    (created : db.createZone now z = .ok effect) :
    effect.zones = [effect.value] ∧ effect.records = [] ∧ effect.db.records = db.records := by
  unfold createZone at created
  dsimp only at created
  split at created
  · cases created
  · split at created
    · cases created
    · cases created
      exact ⟨rfl, rfl, rfl⟩

theorem rows_updateZone {z : Zone} {effect : Effect Zone}
    (updated : db.updateZone now z = .ok effect) :
    effect.zones = [effect.value] ∧ effect.records = [] ∧ effect.db.records = db.records := by
  unfold updateZone at updated
  split at updated
  · cases updated
  · cases updated
    exact ⟨rfl, rfl, rfl⟩

theorem rows_deleteZone (deleted : db.deleteZone name = .ok effect) :
    effect.zones ≠ [] ∧ (∀ z ∈ effect.zones, z.name = normalizeZone name) ∧
      ∀ row ∈ effect.records, row.zone = normalizeZone name := by
  unfold deleteZone at deleted
  dsimp only at deleted
  split at deleted
  · cases deleted
  · rename_i nonzero
    cases deleted
    refine ⟨fun empty => nonzero (congrArg List.length empty), fun z member => ?_,
      fun row member => ?_⟩
    · simpa using (List.mem_filter.mp member).2
    · simpa using (List.mem_filter.mp member).2

theorem rows_createRecord {r : Record} {effect : Effect Record}
    (created : db.createRecord md5 encode now r = .ok effect) :
    (∀ z ∈ effect.zones, z.name = normalizeZone r.zone) ∧
      ∀ row ∈ effect.records,
        row.zone = normalizeZone r.zone ∧
          row.name = normalizeName (normalizeZone r.zone) r.name := by
  unfold createRecord at created
  dsimp only at created
  split at created
  · split at created
    · cases created
    · cases created
      refine ⟨fun z member => name_of_mem_bumpedZones member, fun row member => ?_⟩
      rcases List.mem_cons.mp member with rfl | other
      · unfold upsertRecord
        split
        · rename_i old found
          exact (mem_selectAt.mp (List.mem_of_find?_eq_some found)).2
        · exact ⟨rfl, rfl⟩
      · obtain ⟨old, kept, rfl⟩ := List.mem_map.mp other
        have hit := (List.mem_filter.mp kept).2
        simp only [otherTTL, decide_eq_true_eq] at hit
        exact ⟨hit.1, hit.2.1⟩
  · cases created

theorem rows_deleteRecord {rtype rdata : Bytes}
    (deleted : db.deleteRecord md5 now zone name rtype rdata = .ok effect) :
    effect.records ≠ [] ∧ (∀ z ∈ effect.zones, z.name = normalizeZone zone) ∧
      ∀ row ∈ effect.records,
        row.zone = normalizeZone zone ∧ row.name = normalizeName (normalizeZone zone) name := by
  unfold deleteRecord at deleted
  dsimp only at deleted
  split at deleted
  · cases deleted
  · rename_i nonzero
    cases deleted
    refine ⟨fun empty => nonzero (congrArg List.length empty),
      fun z member => name_of_mem_bumpedZones member, fun row member => ?_⟩
    have hit := (List.mem_filter.mp member).2
    rw [decide_eq_true_eq] at hit
    exact ⟨hit.1, hit.2.1⟩

end Rows

/-! ## What a write leaves alone -/

/-- The records at the names outside a region are the same. -/
def AgreeOutside (changed : Bytes → Bytes → Prop) (db db' : Database) : Prop :=
  ∀ zone name, ¬ changed zone name → db'.selectAt zone name = db.selectAt zone name

theorem AgreeOutside.trans {db'' : Database} (first : AgreeOutside changed db db')
    (second : AgreeOutside changed db' db'') :
    AgreeOutside changed db db'' := fun zone name outside =>
  (second zone name outside).trans (first zone name outside)

theorem AgreeOutside.mono {changed' : Bytes → Bytes → Prop} (agree : AgreeOutside changed db db')
    (wider : ∀ zone name, changed zone name → changed' zone name) :
    AgreeOutside changed' db db' := fun zone name outside =>
  agree zone name fun inside => outside (wider zone name inside)

theorem agreeOutside_of_records (same : db'.records = db.records) :
    AgreeOutside changed db db' := fun _ _ _ => by
  rw [selectAt, selectAt, same]

theorem agreeOutside_updateTTL {selected : RecordRow → Bool} (ttl : Int32)
    (inside : ∀ row ∈ db.records, selected row = true → changed row.zone row.name) :
    AgreeOutside changed db (db.updateTTL selected ttl) := by
  intro zone name outside
  have place : ∀ row : RecordRow,
      (decide ((if selected row then { row with ttl := ttl } else row).zone = zone ∧
        (if selected row then { row with ttl := ttl } else row).name = name)) =
      decide (row.zone = zone ∧ row.name = name) := by
    intro row
    split <;> rfl
  rw [selectAt, updateTTL, List.filter_map, selectAt]
  dsimp only [Function.comp_def]
  simp only [place]
  -- a row read here is outside, so it was not selected
  conv_rhs => rw [← List.map_id (db.records.filter _)]
  refine List.map_congr_left fun row read => ?_
  obtain ⟨stored, here⟩ := List.mem_filter.mp read
  rw [decide_eq_true_eq] at here
  have unselected : selected row ≠ true := fun hit => by
    have there := inside row stored hit
    rw [here.1, here.2] at there
    exact outside there
  rw [if_neg unselected, id_eq]

theorem agreeOutside_insertRecord {type : Bytes} {ttl : Int32} {rdata : Bytes}
    (stored : zone ∈ db.zones.map Zone.name) (inside : changed zone name) :
    AgreeOutside changed db (db.insertRecord zone name type ttl rdata stored) := by
  intro zone' name' outside
  have elsewhere : ¬ (zone = zone' ∧ name = name') := by
    rintro ⟨rfl, rfl⟩
    exact outside inside
  rw [selectAt, insertRecord, List.filter_append, selectAt]
  simp [newRow, elsewhere]

theorem agreeOutside_deleteRecords {selected : RecordRow → Bool}
    (inside : ∀ row, selected row = true → changed row.zone row.name) :
    AgreeOutside changed db (db.deleteRecords selected) := by
  intro zone name outside
  rw [selectAt, deleteRecords, List.filter_filter, selectAt]
  refine List.filter_congr fun row _ => ?_
  by_cases here : row.zone = zone ∧ row.name = name
  · have unselected : selected row = false := by
      by_contra hit
      have there := inside row (by simpa using hit)
      rw [here.1, here.2] at there
      exact outside there
    simp [here, unselected]
  · simp [here]

/-- A record's place: its zone and its name. -/
def At (zone name : Bytes) : Bytes → Bytes → Prop := fun zone' name' => zone' = zone ∧ name' = name

/-- All places of a zone. -/
def InZone (zone : Bytes) : Bytes → Bytes → Prop := fun zone' _ => zone' = zone

theorem agreeOutside_upsertRecord (md5 : Bytes → Bytes) (rtype : Bytes) (ttl : Int32)
    (rdata : Bytes) (stored : zone ∈ db.zones.map Zone.name) :
    AgreeOutside (At zone name) db
      (db.upsertRecord md5 zone name rtype ttl rdata stored).1 := by
  unfold upsertRecord
  split
  · rename_i old found
    obtain ⟨member, sameZone, sameName⟩ := mem_selectAt.mp (List.mem_of_find?_eq_some found)
    refine (agreeOutside_updateTTL ttl fun row inTable same => ?_).trans
      (agreeOutside_of_records rfl)
    -- ids are unique, so the row updated is the one found
    have one : row = old := List.inj_on_of_nodup_map db.idKey inTable member (by simpa using same)
    rw [one]
    exact ⟨sameZone, sameName⟩
  · exact agreeOutside_insertRecord stored ⟨rfl, rfl⟩

theorem agreeOutside_createRecord {md5 : Bytes → Bytes} {encode : Option Encoder} {now : Int}
    {r : Record} {effect : Effect Record}
    (created : db.createRecord md5 encode now r = .ok effect) :
    AgreeOutside (At (normalizeZone r.zone) (normalizeName (normalizeZone r.zone) r.name)) db
      effect.db := by
  unfold createRecord at created
  dsimp only at created
  split at created
  · split at created
    · cases created
    · cases created
      refine ((agreeOutside_of_records (records_bumpZone ..)).trans
        (agreeOutside_upsertRecord md5 _ _ _ _)).trans (agreeOutside_updateTTL _ fun row _ hit =>
          ?_)
      simp only [otherTTL, decide_eq_true_eq] at hit
      exact ⟨hit.1, hit.2.1⟩
  · cases created

theorem agreeOutside_deleteRecord {md5 : Bytes → Bytes} {now : Int} {rtype rdata : Bytes}
    (deleted : db.deleteRecord md5 now zone name rtype rdata = .ok effect) :
    AgreeOutside (At (normalizeZone zone) (normalizeName (normalizeZone zone) name)) db
      effect.db := by
  unfold deleteRecord at deleted
  dsimp only at deleted
  split at deleted
  · cases deleted
  · cases deleted
    refine (agreeOutside_deleteRecords fun row hit => ?_).trans
      (agreeOutside_of_records (records_bumpZone ..))
    rw [decide_eq_true_eq] at hit
    exact ⟨hit.1, hit.2.1⟩

theorem agreeOutside_deleteZone (deleted : db.deleteZone name = .ok effect) :
    AgreeOutside (InZone (normalizeZone name)) db effect.db := by
  unfold deleteZone at deleted
  dsimp only at deleted
  split at deleted
  · cases deleted
  · cases deleted
    intro zone at_ outside
    rw [selectAt, deleteZones, List.filter_filter, selectAt]
    refine List.filter_congr fun row _ => ?_
    by_cases here : row.zone = zone
    · have other : row.zone ≠ normalizeZone name := fun same => outside (here.symm.trans same)
      simp [other]
    · simp [here]

theorem hasDescendant_iff_owns :
    db.HasDescendant zone name ↔ ∃ lower, db.Owns zone lower ∧ name ∈ ancestors dot lower := by
  constructor
  · rintro ⟨row, stored, sameZone, lower⟩
    exact ⟨row.name, ⟨row, stored, sameZone, rfl⟩, lower⟩
  · rintro ⟨lower, ⟨row, stored, sameZone, rfl⟩, below⟩
    exact ⟨row, stored, sameZone, below⟩

/-- **A lookup away from what changed reads the same.** Neither the name nor one of its
descendants may have changed. -/
theorem lookupName_of_agreeOutside (agree : AgreeOutside changed db db')
    (here : ¬ changed zone name)
    (below : ∀ lower, name ∈ ancestors dot lower → ¬ changed zone lower) (encode : Option Encoder) :
    db'.lookupName encode zone name = db.lookupName encode zone name := by
  have flag : db'.existsBelow zone name = db.existsBelow zone name := by
    rw [Bool.eq_iff_iff, existsBelow_iff, existsBelow_iff, hasDescendant_iff_owns,
      hasDescendant_iff_owns]
    refine exists_congr fun lower => and_congr_left fun descends => ?_
    rw [← selectAt_ne_nil_iff, ← selectAt_ne_nil_iff, agree zone lower (below lower descends)]
  rw [lookupName, lookupName, agree zone name here, flag]

end Database

end ShardDNS.Store

import ShardDNS.Library.ReadCommitted
import ShardDNS.Store.Writes

/-!
# The tables by their keys, and what a write does to them

The primary key of `zones` and the unique index of `records` make the two tables one
partial function: to the key of a row, the row. On it the statements of the store are
operations local to one zone, and `Does` says what each write call does when it succeeds,
as if it ran alone.

Runs of such calls keep three things. CNAME records stand alone and not at an apex
(`CnameExclusive`). The records of an RRset have one TTL, and it is the one the last
call to create one of them asked for (`Does.uniformTTL`, `Does.rrsetTTL_of_create`). And every
call that changes a zone raises its serial (`Does.serial_lt`).
-/

set_option autoImplicit false

namespace ShardDNS.Store

open Go ReadCommitted

/-! ## Rows and keys -/

/-- The key of a record in the index `records_rrset_member`. -/
@[ext] structure RecordKey where
  zone : Bytes
  name : Bytes
  type : Bytes
  /-- `md5(rdata)`. -/
  digest : Bytes
  deriving DecidableEq, Repr

/-- The other columns of a record. -/
structure RecordValue where
  id : Nat
  ttl : Int32
  rdata : Bytes
  deriving DecidableEq, Repr

inductive RowKey where
  | zone (name : Bytes)
  | record (k : RecordKey)
  deriving DecidableEq, Repr

namespace RowKey

abbrev Row : RowKey → Type
  | zone _ => Zone
  | record _ => RecordValue

/-- The zone a row belongs to. -/
def owner : RowKey → Bytes
  | zone name => name
  | record k => k.zone

end RowKey

abbrev Tables := Table RowKey.Row

/-- The rows of a zone. -/
def OfZone (zone : Bytes) (k : RowKey) : Prop := k.owner = zone

/-- Two records are of one RRset. -/
def SameRRset (k k' : RecordKey) : Prop := k.zone = k'.zone ∧ k.name = k'.name ∧ k.type = k'.type

instance (k k' : RecordKey) : Decidable (SameRRset k k') := inferInstanceAs (Decidable (_ ∧ _))

variable {k k' : RecordKey}

theorem SameRRset.symm (same : SameRRset k k') : SameRRset k' k :=
  ⟨same.1.symm, same.2.1.symm, same.2.2.symm⟩

/-! ## Statements -/

namespace Tables

@[simp] theorem update_zone_record (t : Tables) (zone : Bytes) (row : Option Zone) (k : RecordKey) :
    Function.update t (.zone zone) row (.record k) = t (.record k) :=
  Function.update_of_ne (by rintro ⟨⟩) _ _

@[simp] theorem update_record_zone (t : Tables) (k : RecordKey) (row : Option RecordValue)
    (zone : Bytes) : Function.update t (.record k) row (.zone zone) = t (.zone zone) :=
  Function.update_of_ne (by rintro ⟨⟩) _ _

def empty : Tables := fun _ => none

/-- `UPDATE zones SET <bumpSerial> WHERE name = $1`. -/
def bump (t : Tables) (now : Int) (zone : Bytes) : Tables :=
  Function.update t (.zone zone) ((t (.zone zone)).map (bumpSerial now))

/-- The row that `INSERT INTO records … ON CONFLICT … DO UPDATE SET ttl` leaves. -/
def upsertRow (t : Tables) (id : Nat) (k : RecordKey) (ttl : Int32) (rdata : Bytes) : RecordValue :=
  match t (.record k) with
  | some old => { old with ttl := ttl }
  | none => { id := id, ttl := ttl, rdata := rdata }

def insertRecord (t : Tables) (id : Nat) (k : RecordKey) (ttl : Int32) (rdata : Bytes) : Tables :=
  Function.update t (.record k) (some (t.upsertRow id k ttl rdata))

/-- `UPDATE records SET ttl`, for an RRset. -/
def setTTL (t : Tables) (k : RecordKey) (ttl : Int32) : Tables
  | .zone name => t (.zone name)
  | .record k' =>
      if SameRRset k' k then (t (.record k')).map fun row => { row with ttl := ttl }
      else t (.record k')

/-- `DELETE FROM records`. -/
def deleteRecord (t : Tables) (k : RecordKey) : Tables := Function.update t (.record k) none

/-- `DELETE FROM zones`, with the records it cascades to. -/
def dropZone (t : Tables) (zone : Bytes) : Tables := fun k => if k.owner = zone then none else t k

/-- A `DELETE FROM zones` on its way: of the rows of the zone there are still some records. -/
def dropBut (t : Tables) (zone : Bytes) (rest : List RecordKey) : Tables
  | .zone name => if name = zone then none else t (.zone name)
  | .record k => if k.zone = zone ∧ k ∉ rest then none else t (.record k)

/-- What `CreateRecord` refuses: a CNAME at the apex or beside another record, and
anything beside a CNAME. -/
def Conflicts (t : Tables) (k : RecordKey) : Prop :=
  if k.type = ascii "CNAME" then
    k.name = k.zone ∨
      ∃ k', t (.record k') ≠ none ∧ k'.zone = k.zone ∧ k'.name = k.name ∧
        (k'.type ≠ ascii "CNAME" ∨ k'.digest ≠ k.digest)
  else
    ∃ k', t (.record k') ≠ none ∧ k'.zone = k.zone ∧ k'.name = k.name ∧ k'.type = ascii "CNAME"

/-- The statements of `CreateRecord`. -/
def createRecord (t : Tables) (now : Int) (id : Nat) (k : RecordKey) (ttl : Int32)
    (rdata : Bytes) : Tables :=
  ((t.bump now k.zone).insertRecord id k ttl rdata).setTTL k ttl

theorem record_dropZone (t : Tables) (zone : Bytes) (k : RecordKey) :
    t.dropZone zone (.record k) = if k.zone = zone then none else t (.record k) := rfl

/-! ## Locality -/

theorem local_bump (now : Int) (zone : Bytes) :
    Local (OfZone zone) fun t : Tables => t.bump now zone where
  inside {t t'} agree k inside := by
    by_cases same : k = .zone zone
    · subst same
      simp only [bump, Function.update_self, agree (.zone zone) rfl]
    · simp only [bump, Function.update_of_ne same, agree k inside]
  outside t k apart := Function.update_of_ne (fun same => apart (by rw [same]; rfl)) _ _

theorem local_insertRecord (id : Nat) (k : RecordKey) (ttl : Int32) (rdata : Bytes) :
    Local (OfZone k.zone) fun t : Tables => t.insertRecord id k ttl rdata where
  inside {t t'} agree k' inside := by
    by_cases same : k' = .record k
    · subst same
      simp only [insertRecord, Function.update_self, upsertRow, agree (.record k) rfl]
    · simp only [insertRecord, Function.update_of_ne same, agree k' inside]
  outside t k' apart := Function.update_of_ne (fun same => apart (by rw [same]; rfl)) _ _

theorem local_setTTL (k : RecordKey) (ttl : Int32) :
    Local (OfZone k.zone) fun t : Tables => t.setTTL k ttl where
  inside {t t'} agree k' inside := by
    cases k' with
    | zone name => exact agree _ inside
    | record k' => simp only [setTTL, agree (.record k') inside]
  outside t k' apart := by
    cases k' with
    | zone name => rfl
    | record k' => exact if_neg fun same => apart same.1

theorem local_deleteRecord (k : RecordKey) :
    Local (OfZone k.zone) fun t : Tables => t.deleteRecord k where
  inside {t t'} agree k' inside := by
    by_cases same : k' = .record k
    · subst same
      simp only [deleteRecord, Function.update_self]
    · simp only [deleteRecord, Function.update_of_ne same, agree k' inside]
  outside t k' apart := Function.update_of_ne (fun same => apart (by rw [same]; rfl)) _ _

theorem local_dropBut (zone : Bytes) (rest : List RecordKey) :
    Local (OfZone zone) fun t : Tables => t.dropBut zone rest where
  inside {t t'} agree k inside := by
    cases k with
    | zone name => simp only [dropBut, agree (.zone name) inside]
    | record k => simp only [dropBut, agree (.record k) inside]
  outside t k apart := by
    cases k with
    | zone name => exact if_neg apart
    | record k => exact if_neg fun dropped => apart dropped.1

/-- The next record is deleted. -/
theorem deleteRecord_dropBut {rest : List RecordKey} (fresh : k ∉ rest) (t : Tables) :
    (t.dropBut k.zone (k :: rest)).deleteRecord k = t.dropBut k.zone rest := by
  funext key
  cases key with
  | zone name => exact update_record_zone ..
  | record k' =>
      by_cases same : k' = k
      · subst same
        rw [deleteRecord, Function.update_self, dropBut, if_pos ⟨rfl, fresh⟩]
      · have other : RowKey.record k' ≠ .record k := fun keys => same (RowKey.record.inj keys)
        simp only [deleteRecord, Function.update_of_ne other, dropBut, List.mem_cons,
          same, false_or]

/-- The last of them is deleted. -/
theorem dropBut_nil (t : Tables) (zone : Bytes) : t.dropBut zone [] = t.dropZone zone := by
  funext key
  cases key with
  | zone name => rfl
  | record k => simp only [dropBut, List.not_mem_nil, not_false_eq_true, and_true, record_dropZone]

/-- Conflicts are a matter of the rows of the zone. -/
theorem conflicts_congr {t t' : Tables} (agree : AgreeOn (OfZone k.zone) t t') :
    t.Conflicts k ↔ t'.Conflicts k := by
  have rows : ∀ (P : RecordKey → Prop),
      (∃ k', t (.record k') ≠ none ∧ k'.zone = k.zone ∧ P k') ↔
        ∃ k', t' (.record k') ≠ none ∧ k'.zone = k.zone ∧ P k' := fun P =>
    exists_congr fun k' =>
      ⟨fun ⟨stored, zone, rest⟩ => ⟨by rw [← agree (.record k') zone]; exact stored, zone, rest⟩,
        fun ⟨stored, zone, rest⟩ => ⟨by rw [agree (.record k') zone]; exact stored, zone, rest⟩⟩
  unfold Conflicts
  split
  · rw [rows]
  · rw [rows]

/-- Creating a record keeps the records there are and adds its own. -/
theorem record_createRecord_ne_none (t : Tables) (now : Int) (id : Nat) (k : RecordKey)
    (ttl : Int32) (rdata : Bytes) (k' : RecordKey) :
    t.createRecord now id k ttl rdata (.record k') ≠ none ↔ t (.record k') ≠ none ∨ k' = k := by
  have inserted : (t.bump now k.zone).insertRecord id k ttl rdata (.record k') ≠ none ↔
      t (.record k') ≠ none ∨ k' = k := by
    by_cases same : k' = k
    · subst same
      simp [insertRecord]
    · have other : RowKey.record k' ≠ .record k := fun keys => same (RowKey.record.inj keys)
      simp [insertRecord, bump, other, same]
  rw [createRecord, setTTL]
  split
  · rw [Ne, Option.map_eq_none_iff]
    exact inserted
  · exact inserted

/-- The RRset of a record that is created has its TTL. -/
theorem ttl_createRecord {t : Tables} {now : Int} {id : Nat} {ttl : Int32} {rdata : Bytes}
    {row : RecordValue} (stored : t.createRecord now id k ttl rdata (.record k') = some row)
    (same : SameRRset k' k) : row.ttl = ttl := by
  rw [createRecord, setTTL, if_pos same, Option.map_eq_some_iff] at stored
  obtain ⟨old, -, rfl⟩ := stored
  rfl

/-- Other RRsets are left alone. -/
theorem record_createRecord_of_other (t : Tables) (now : Int) (id : Nat) (ttl : Int32)
    (rdata : Bytes) (other : ¬ SameRRset k' k) :
    t.createRecord now id k ttl rdata (.record k') = t (.record k') := by
  have apart : RowKey.record k' ≠ .record k := by
    rintro ⟨⟩
    exact other ⟨rfl, rfl, rfl⟩
  rw [createRecord, setTTL, if_neg other, insertRecord, Function.update_of_ne apart]
  rfl

theorem record_bump (t : Tables) (now : Int) (zone : Bytes) (k : RecordKey) :
    t.bump now zone (.record k) = t (.record k) := update_zone_record ..

theorem zone_createRecord (t : Tables) (now : Int) (id : Nat) (k : RecordKey) (ttl : Int32)
    (rdata : Bytes) (zone : Bytes) :
    t.createRecord now id k ttl rdata (.zone zone) = t.bump now k.zone (.zone zone) := by
  rw [createRecord, setTTL, insertRecord, update_record_zone]

theorem record_deleteRecord (t : Tables) (k k' : RecordKey) :
    t.deleteRecord k (.record k') = if k' = k then none else t (.record k') := by
  unfold deleteRecord
  split
  · rename_i same
    rw [same, Function.update_self]
  · rename_i other
    rw [Function.update_of_ne fun keys => other (RowKey.record.inj keys)]

end Tables

/-! ## Calls -/

/-- A write call of the store, with its arguments. -/
inductive WriteCall where
  | createZone (z : Zone)
  | updateZone (z : Zone)
  | deleteZone (name : Bytes)
  | createRecord (r : Record)
  | deleteRecord (zone name rtype rdata : Bytes)

/-- The key of a record, from the arguments of a call. -/
def keyOf (md5 : Bytes → Bytes) (zone name rtype rdata : Bytes) : RecordKey :=
  { zone := normalizeZone zone, name := normalizeName (normalizeZone zone) name
    type := normalizeType rtype, digest := md5 rdata }

def Record.key (md5 : Bytes → Bytes) (r : Record) : RecordKey :=
  keyOf md5 r.zone r.name r.type r.rdata

namespace Tables

/-- What a call does that succeeds, run alone, at some time. -/
inductive Does (md5 : Bytes → Bytes) : Tables → WriteCall → Tables → Prop where
  | createZone {t : Tables} {z : Zone} (now : Int) (named : normalizeZone z.name ≠ [])
      (fresh : t (.zone (normalizeZone z.name)) = none) :
      Does md5 t (.createZone z)
        (Function.update t (.zone (normalizeZone z.name))
          (some { z with name := normalizeZone z.name, serial := now }))
  | updateZone {t : Tables} {z old : Zone} (now : Int)
      (stored : t (.zone (normalizeZone z.name)) = some old) :
      Does md5 t (.updateZone z)
        (Function.update t (.zone (normalizeZone z.name)) (some (Database.settingsOf z now old)))
  | deleteZone {t : Tables} {name : Bytes} (stored : t (.zone (normalizeZone name)) ≠ none) :
      Does md5 t (.deleteZone name) (t.dropZone (normalizeZone name))
  | createRecord {t : Tables} {r : Record} (now : Int) (id : Nat)
      (stored : t (.zone (normalizeZone r.zone)) ≠ none) (clear : ¬ t.Conflicts (r.key md5)) :
      Does md5 t (.createRecord r) (t.createRecord now id (r.key md5) r.ttl r.rdata)
  | deleteRecord {t : Tables} {zone name rtype rdata : Bytes} (now : Int)
      (stored : t (.record (keyOf md5 zone name rtype rdata)) ≠ none) :
      Does md5 t (.deleteRecord zone name rtype rdata)
        ((t.deleteRecord (keyOf md5 zone name rtype rdata)).bump now (normalizeZone zone))

end Tables

/-- The row that a call writes which writes one only. -/
def WriteCall.oneRow : WriteCall → Option RowKey
  | .createZone z => some (.zone (normalizeZone z.name))
  | .updateZone z => some (.zone (normalizeZone z.name))
  | _ => none

/-- The zone whose serial a call raises. -/
def WriteCall.bumps : WriteCall → Option Bytes
  | .updateZone z => some (normalizeZone z.name)
  | .createRecord r => some (normalizeZone r.zone)
  | .deleteRecord zone _ _ _ => some (normalizeZone zone)
  | _ => none

/-- The zone a call deletes. -/
def WriteCall.drops : WriteCall → Option Bytes
  | .deleteZone name => some (normalizeZone name)
  | _ => none

namespace Tables

variable {md5 : Bytes → Bytes} {t t' : Tables} {call : WriteCall}

/-- A record after a call was there before it, or `CreateRecord` has added it. -/
theorem Does.record (does : Does md5 t call t') (stored : t' (.record k) ≠ none) :
    t (.record k) ≠ none ∨ ∃ r, call = .createRecord r ∧ k = r.key md5 := by
  cases does with
  | createZone now named fresh => exact .inl (by rwa [update_zone_record] at stored)
  | updateZone now row => exact .inl (by rwa [update_zone_record] at stored)
  | deleteZone row =>
      rw [record_dropZone] at stored
      exact .inl (ite_ne_left_iff.mp stored).2.symm
  | createRecord now id row clear =>
      rcases (record_createRecord_ne_none ..).mp stored with old | new
      · exact .inl old
      · exact .inr ⟨_, rfl, new⟩
  | deleteRecord now row =>
      rw [record_bump, record_deleteRecord] at stored
      exact .inl (ite_ne_left_iff.mp stored).2.symm

/-- It is as it was, or it has the TTL that a call to create one of its RRset asked for. -/
theorem Does.row (does : Does md5 t call t') {k : RecordKey} {row : RecordValue}
    (stored : t' (.record k) = some row) :
    (t (.record k) = some row ∧ ∀ r, call = .createRecord r → ¬ SameRRset k (r.key md5)) ∨
      ∃ r, call = .createRecord r ∧ SameRRset k (r.key md5) ∧ row.ttl = r.ttl := by
  cases does with
  | createZone now named fresh => exact .inl ⟨by rwa [update_zone_record] at stored, nofun⟩
  | updateZone now old => exact .inl ⟨by rwa [update_zone_record] at stored, nofun⟩
  | deleteZone old =>
      rw [record_dropZone] at stored
      split at stored
      · cases stored
      · exact .inl ⟨stored, nofun⟩
  | @createRecord r now id old clear =>
      by_cases same : SameRRset k (r.key md5)
      · exact .inr ⟨r, rfl, same, ttl_createRecord stored same⟩
      · rw [record_createRecord_of_other _ _ _ _ _ same] at stored
        refine .inl ⟨stored, ?_⟩
        rintro _ ⟨⟩
        exact same
  | deleteRecord now old =>
      rw [record_bump, record_deleteRecord] at stored
      split at stored
      · cases stored
      · exact .inl ⟨stored, nofun⟩

/-! ## CNAME records stand alone -/

/-- No name has a CNAME record beside a record of another type, or two of them, and no
apex has one. -/
structure CnameExclusive (t : Tables) : Prop where
  other : ∀ k k', t (.record k) ≠ none → t (.record k') ≠ none → k.zone = k'.zone →
    k.name = k'.name → k.type = ascii "CNAME" → k'.type = ascii "CNAME"
  single : ∀ k k', t (.record k) ≠ none → t (.record k') ≠ none → k.zone = k'.zone →
    k.name = k'.name → k.type = ascii "CNAME" → k'.type = ascii "CNAME" → k = k'
  apex : ∀ k, t (.record k) ≠ none → k.type = ascii "CNAME" → k.name ≠ k.zone

theorem cnameExclusive_empty : CnameExclusive empty where
  other _ _ stored := absurd rfl stored
  single _ _ stored := absurd rfl stored
  apex _ stored := absurd rfl stored

/-- Where `CreateRecord` finds no conflict, its record and any other at the name are of one
key if either is a CNAME. -/
theorem eq_of_not_conflicts (clear : ¬ t.Conflicts k) (stored : t (.record k') ≠ none)
    (zone : k'.zone = k.zone) (name : k'.name = k.name)
    (cname : k.type = ascii "CNAME" ∨ k'.type = ascii "CNAME") : k' = k := by
  unfold Conflicts at clear
  split at clear
  · rename_i type
    have same : k'.type = ascii "CNAME" ∧ k'.digest = k.digest := by
      by_contra apart
      rw [not_and_or] at apart
      exact clear (.inr ⟨k', stored, zone, name, apart⟩)
    exact RecordKey.ext zone name (same.1.trans type.symm) same.2
  · rename_i type
    exact absurd ⟨k', stored, zone, name, cname.resolve_left type⟩ clear

/-- **A call keeps CNAME records alone.** -/
theorem Does.cnameExclusive (does : Does md5 t call t') (exclusive : CnameExclusive t) :
    CnameExclusive t' := by
  -- two records at a name, one of them a CNAME, are of one key
  have one : ∀ k k', t' (.record k) ≠ none → t' (.record k') ≠ none → k.zone = k'.zone →
      k.name = k'.name → k.type = ascii "CNAME" → k = k' := by
    intro k k' stored stored' zone name cname
    rcases does.record stored with old | ⟨r, made, rfl⟩
    · rcases does.record stored' with old' | ⟨r, made, rfl⟩
      · have cname' := exclusive.other k k' old old' zone name cname
        exact exclusive.single k k' old old' zone name cname cname'
      · cases made
        cases does with
        | createRecord now id row clear =>
            exact eq_of_not_conflicts clear old zone name (.inr cname)
    · cases made
      rcases does.record stored' with old' | ⟨r', made', rfl⟩
      · cases does with
        | createRecord now id row clear =>
            exact (eq_of_not_conflicts clear old' zone.symm name.symm (.inl cname)).symm
      · cases made'
        rfl
  refine ⟨fun k k' stored stored' zone name cname => ?_,
    fun k k' stored stored' zone name cname _ => one k k' stored stored' zone name cname,
    fun k stored cname => ?_⟩
  · rw [← one k k' stored stored' zone name cname]
    exact cname
  · rcases does.record stored with old | ⟨r, made, rfl⟩
    · exact exclusive.apex k old cname
    · cases made
      cases does with
      | createRecord now id row clear =>
          intro apex
          refine clear ?_
          rw [Conflicts, if_pos cname]
          exact .inl apex

/-! ## One TTL for an RRset -/

/-- The records of an RRset all have this TTL. -/
def RRsetTTL (t : Tables) (k : RecordKey) (ttl : Int32) : Prop :=
  ∀ k' row, t (.record k') = some row → SameRRset k' k → row.ttl = ttl

/-- The records of an RRset have one TTL. -/
def UniformTTL (t : Tables) : Prop :=
  ∀ k k' row row', t (.record k) = some row → t (.record k') = some row' → SameRRset k k' →
    row.ttl = row'.ttl

/-- After `CreateRecord` the TTL is the one it asked for. -/
theorem Does.rrsetTTL_of_create {r : Record} (does : Does md5 t (.createRecord r) t') :
    t'.RRsetTTL (r.key md5) r.ttl := by
  cases does with
  | createRecord now id row clear => exact fun k row stored same => ttl_createRecord stored same

/-- It stays until a call creates another record of the RRset. -/
theorem Does.rrsetTTL {ttl : Int32} (does : Does md5 t call t')
    (other : ∀ r, call = .createRecord r → ¬ SameRRset (r.key md5) k) (asked : t.RRsetTTL k ttl) :
    t'.RRsetTTL k ttl := by
  intro k' row stored same
  rcases does.row stored with ⟨old, -⟩ | ⟨r, made, inside, -⟩
  · exact asked k' row old same
  · have key : SameRRset (r.key md5) k :=
      ⟨inside.1.symm.trans same.1, inside.2.1.symm.trans same.2.1, inside.2.2.symm.trans same.2.2⟩
    exact absurd key (other r made)

/-- **A call keeps the TTLs of every RRset equal.** -/
theorem Does.uniformTTL (does : Does md5 t call t') (uniform : t.UniformTTL) : t'.UniformTTL := by
  intro k k' row row' stored stored' same
  rcases does.row stored with ⟨old, untouched⟩ | ⟨r, made, inside, ttl⟩
  · rcases does.row stored' with ⟨old', -⟩ | ⟨r, made, inside, -⟩
    · exact uniform k k' row row' old old' same
    · refine absurd ?_ (untouched r made)
      exact ⟨same.1.trans inside.1, same.2.1.trans inside.2.1, same.2.2.trans inside.2.2⟩
  · subst made
    rw [ttl]
    have inside' : SameRRset k' (r.key md5) :=
      ⟨same.1.symm.trans inside.1, same.2.1.symm.trans inside.2.1, same.2.2.symm.trans inside.2.2⟩
    exact (does.rrsetTTL_of_create k' row' stored' inside').symm

/-! ## Serials -/

/-- Every record belongs to a zone. -/
def ForeignKey (t : Tables) : Prop := ∀ k, t (.record k) ≠ none → t (.zone k.zone) ≠ none

theorem serial_lt_bumpSerial (now : Int) (z : Zone) : z.serial < (bumpSerial now z).serial :=
  lt_of_lt_of_le (Int.lt_succ z.serial) (le_max_left ..)

theorem zone_bump (t : Tables) (now : Int) (zone name : Bytes) :
    t.bump now zone (.zone name) =
      if name = zone then (t (.zone name)).map (bumpSerial now) else t (.zone name) := by
  unfold bump
  split
  · rename_i same
    rw [same, Function.update_self]
  · rename_i other
    exact Function.update_of_ne (fun keys => other (RowKey.zone.inj keys)) _ _

/-- A zone stays until a call deletes it, and as it is until a call raises its serial. -/
theorem Does.zone {zone : Bytes} {old : Zone} (does : Does md5 t call t')
    (stored : t (.zone zone) = some old) (kept : call.drops ≠ some zone) :
    ∃ new, t' (.zone zone) = some new ∧
      (call.bumps = some zone → old.serial < new.serial) ∧
        (call.bumps ≠ some zone → new = old) := by
  have bumped : ∀ (now : Int) (name : Bytes), ∃ new, t.bump now name (.zone zone) = some new ∧
      (name = zone → old.serial < new.serial) ∧ (name ≠ zone → new = old) := by
    intro now name
    rw [zone_bump, stored]
    by_cases same : zone = name
    · exact ⟨bumpSerial now old, by simp [same], fun _ => serial_lt_bumpSerial now old,
        fun other => absurd same.symm other⟩
    · exact ⟨old, by simp [same], fun same' => absurd same'.symm same, fun _ => rfl⟩
  cases does with
  | @createZone z now named fresh =>
      have other : zone ≠ normalizeZone z.name := by
        rintro rfl
        rw [fresh] at stored
        cases stored
      refine ⟨old, ?_, nofun, fun _ => rfl⟩
      rw [Function.update_of_ne fun keys => other (RowKey.zone.inj keys), stored]
  | @updateZone z row now found =>
      by_cases same : normalizeZone z.name = zone
      · subst same
        rw [stored] at found
        cases found
        exact ⟨_, Function.update_self .., fun _ => serial_lt_bumpSerial now _,
          fun other => absurd rfl other⟩
      · refine ⟨old, ?_, fun raises => absurd (Option.some.inj raises) same, fun _ => rfl⟩
        rw [Function.update_of_ne fun keys => same (RowKey.zone.inj keys).symm, stored]
  | @deleteZone name found =>
      refine ⟨old, ?_, nofun, fun _ => rfl⟩
      have other : zone ≠ normalizeZone name := fun same => kept (congrArg some same.symm)
      rw [dropZone, if_neg (by exact other), stored]
  | @createRecord r now id found clear =>
      rw [zone_createRecord]
      obtain ⟨new, row, raised, same⟩ := bumped now (r.key md5).zone
      exact ⟨new, row, fun raises => raised (Option.some.inj raises),
        fun other => same fun name => other (congrArg some name)⟩
  | @deleteRecord name _ _ _ now found =>
      have row : ∀ k, (t.deleteRecord k).bump now (normalizeZone name) (.zone zone) =
          t.bump now (normalizeZone name) (.zone zone) := fun k => by
        rw [zone_bump, zone_bump, Tables.deleteRecord, update_record_zone]
      rw [row]
      obtain ⟨new, row, raised, same⟩ := bumped now (normalizeZone name)
      exact ⟨new, row, fun raises => raised (Option.some.inj raises),
        fun other => same fun name => other (congrArg some name)⟩

/-- A call that raises a serial finds the zone. -/
theorem Does.zone_ne_none {zone : Bytes} (does : Does md5 t call t') (key : t.ForeignKey)
    (raises : call.bumps = some zone) : t (.zone zone) ≠ none := by
  cases does with
  | createZone | deleteZone => cases raises
  | updateZone now stored =>
      cases raises
      rw [stored]
      exact nofun
  | createRecord now id stored =>
      cases raises
      exact stored
  | deleteRecord now stored =>
      cases raises
      exact key _ stored

/-- **A call that changes a zone raises its serial.** -/
theorem Does.serial_lt {zone : Bytes} (does : Does md5 t call t') (key : t.ForeignKey)
    (raises : call.bumps = some zone) :
    ∃ old new, t (.zone zone) = some old ∧ t' (.zone zone) = some new ∧
      old.serial < new.serial := by
  obtain ⟨old, stored⟩ := Option.ne_none_iff_exists'.mp (does.zone_ne_none key raises)
  have kept : call.drops ≠ some zone := by
    cases call with
    | deleteZone => cases raises
    | _ => exact nofun
  obtain ⟨new, row, raised, -⟩ := does.zone stored kept
  exact ⟨old, new, stored, row, raised raises⟩

theorem Does.foreignKey (does : Does md5 t call t') (key : t.ForeignKey) : t'.ForeignKey := by
  intro k stored
  by_cases dropped : call.drops = some k.zone
  · cases does with
    | deleteZone =>
        rw [record_dropZone, if_pos (Option.some.inj dropped).symm] at stored
        exact absurd rfl stored
    | createZone | updateZone | createRecord | deleteRecord => cases dropped
  · have owner : t (.zone k.zone) ≠ none := by
      rcases does.record stored with old | ⟨r, made, rfl⟩
      · exact key k old
      · subst made
        exact does.zone_ne_none key rfl
    obtain ⟨old, found⟩ := Option.ne_none_iff_exists'.mp owner
    obtain ⟨new, row, -⟩ := does.zone found dropped
    rw [row]
    exact nofun

/-! ## Finitely many records -/

/-- The records can be listed. -/
def Listed (t : Tables) : Prop := ∃ keys : List RecordKey, ∀ k, t (.record k) ≠ none → k ∈ keys

theorem Does.listed (does : Does md5 t call t') (listed : t.Listed) : t'.Listed := by
  obtain ⟨keys, all⟩ := listed
  cases call with
  | createRecord r =>
      refine ⟨r.key md5 :: keys, fun k stored => ?_⟩
      rcases does.record stored with old | ⟨r', made, rfl⟩
      · exact List.mem_cons_of_mem _ (all k old)
      · cases made
        exact List.mem_cons_self
  | createZone | updateZone | deleteZone | deleteRecord =>
      refine ⟨keys, fun k stored => ?_⟩
      rcases does.record stored with old | ⟨r', made, -⟩
      · exact all k old
      · cases made

/-- So can those of a zone. -/
theorem Listed.ofZone (listed : t.Listed) (zone : Bytes) : ∃ rest : List RecordKey, rest.Nodup ∧
    ∀ k, k ∈ rest ↔ k.zone = zone ∧ t (.record k) ≠ none := by
  obtain ⟨keys, all⟩ := listed
  refine ⟨keys.dedup.filter fun k => k.zone = zone ∧ (t (.record k)).isSome,
    (List.nodup_dedup keys).filter _, fun k => ?_⟩
  simp only [List.mem_filter, List.mem_dedup, decide_eq_true_eq, Option.isSome_iff_ne_none]
  exact ⟨fun both => both.2, fun both => ⟨all k both.2, both⟩⟩

end Tables

end ShardDNS.Store

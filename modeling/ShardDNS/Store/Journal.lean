import ShardDNS.Library.Since
import ShardDNS.Store.Interleavings

/-!
# What is stored, by what was called

The tables are explained by the calls that have succeeded, in the order in which they returned,
whatever their statements interleaved with (`journaled_of_run`). A zone is stored if it was created
and has not been deleted since, with the settings last given to it. A record is stored if it was
created and neither it nor its zone has been deleted since. Its text is one it was created with,
and its TTL that of the last call to create a record of its RRset.
-/

set_option autoImplicit false

namespace ShardDNS.Store

open Go History

/-! ## What a call is for -/

def CreatesZone (name : Bytes) : WriteCall → Prop
  | .createZone z => normalizeZone z.name = name
  | _ => False

/-- The call gives the zone its settings. -/
def SetsZone (name : Bytes) : WriteCall → Prop
  | .createZone z => normalizeZone z.name = name
  | .updateZone z => normalizeZone z.name = name
  | _ => False

def Creates (md5 : Bytes → Bytes) (k : RecordKey) : WriteCall → Prop
  | .createRecord r => r.key md5 = k
  | _ => False

/-- The call creates a record of the RRset. -/
def Retimes (md5 : Bytes → Bytes) (k : RecordKey) : WriteCall → Prop
  | .createRecord r => SameRRset (r.key md5) k
  | _ => False

/-- The call deletes the record or its zone. -/
def Removes (md5 : Bytes → Bytes) (k : RecordKey) : WriteCall → Prop
  | .deleteZone name => normalizeZone name = k.zone
  | .deleteRecord zone name rtype rdata => keyOf md5 zone name rtype rdata = k
  | _ => False

/-- What a call can set of a zone: all but its name and its serial. -/
def Zone.settings (z : Zone) : Bytes × Bytes × Int32 × Int32 × Int32 × Int32 :=
  (z.primaryNS, z.adminEmail, z.refresh, z.retry, z.expire, z.minTTL)

/-- The tables are what the calls say. -/
structure Journaled (md5 : Bytes → Bytes) (calls : List WriteCall) (t : Tables) : Prop where
  zone : ∀ name, t (.zone name) ≠ none ↔
    Since (CreatesZone name) (fun call => call.drops = some name) calls
  settings : ∀ name row, t (.zone name) = some row →
    ∃ z, Since (fun call => call = .createZone z ∨ call = .updateZone z) (SetsZone name) calls ∧
      normalizeZone z.name = name ∧ row.settings = z.settings
  record : ∀ k, t (.record k) ≠ none ↔ Since (Creates md5 k) (Removes md5 k) calls
  text : ∀ k row, t (.record k) = some row →
    ∃ r, Since (· = .createRecord r) (Removes md5 k) calls ∧ r.key md5 = k ∧ row.rdata = r.rdata
  ttl : ∀ k row, t (.record k) = some row →
    ∃ r, Since (· = .createRecord r) (Retimes md5 k) calls ∧ SameRRset (r.key md5) k ∧
      row.ttl = r.ttl

namespace Tables

variable {md5 : Bytes → Bytes} {t t' : Tables} {call : WriteCall}

/-! ## One call -/

/-- A zone is there after a call that creates it, and stays until one deletes it. -/
theorem Does.zone_iff (does : Does md5 t call t') (name : Bytes) :
    t' (.zone name) ≠ none ↔ CreatesZone name call ∨
      (t (.zone name) ≠ none ∧ ¬ call.drops = some name) := by
  have bumped : ∀ now zone, t.bump now zone (.zone name) ≠ none ↔ t (.zone name) ≠ none := by
    intro now zone
    rw [zone_bump]
    split
    · rw [Ne, Option.map_eq_none_iff]
    · rfl
  cases does with
  | @createZone z now named fresh =>
      by_cases same : normalizeZone z.name = name
      · subst same
        simp [CreatesZone]
      · rw [Function.update_of_ne fun keys => same (RowKey.zone.inj keys).symm]
        simp [CreatesZone, same, WriteCall.drops]
  | @updateZone z old now stored =>
      by_cases same : normalizeZone z.name = name
      · subst same
        simp [CreatesZone, WriteCall.drops, stored]
      · rw [Function.update_of_ne fun keys => same (RowKey.zone.inj keys).symm]
        simp [CreatesZone, WriteCall.drops]
  | @deleteZone dropped stored =>
      rw [dropZone, RowKey.owner]
      simp only [CreatesZone, WriteCall.drops, Option.some.injEq, false_or]
      split
      · rename_i same
        simp [same]
      · rename_i other
        exact (and_iff_left fun same => other same.symm).symm
  | @createRecord r now id stored clear =>
      rw [zone_createRecord, bumped]
      simp [CreatesZone, WriteCall.drops]
  | @deleteRecord zone rname rtype rdata now stored =>
      have row : (t.deleteRecord (keyOf md5 zone rname rtype rdata)).bump now (normalizeZone zone)
          (.zone name) =
          t.bump now (normalizeZone zone) (.zone name) := by
        rw [zone_bump, zone_bump, Tables.deleteRecord, update_record_zone]
      rw [row, bumped]
      simp [CreatesZone, WriteCall.drops]

/-- Its settings are as they were, or those that the call gives it. -/
theorem Does.settings (does : Does md5 t call t') {name : Bytes} {row : Zone}
    (stored : t' (.zone name) = some row) :
    (∃ old, t (.zone name) = some old ∧ row.settings = old.settings ∧ ¬ SetsZone name call) ∨
      ∃ z, (call = .createZone z ∨ call = .updateZone z) ∧ normalizeZone z.name = name ∧
        row.settings = z.settings := by
  have bumped : ∀ now zone, t.bump now zone (.zone name) = some row →
      ∃ old, t (.zone name) = some old ∧ row.settings = old.settings := by
    intro now zone stored
    rw [zone_bump] at stored
    split at stored
    · obtain ⟨old, found, rfl⟩ := Option.map_eq_some_iff.mp stored
      exact ⟨old, found, rfl⟩
    · exact ⟨row, stored, rfl⟩
  cases does with
  | @createZone z now named fresh =>
      by_cases same : normalizeZone z.name = name
      · subst same
        rw [Function.update_self] at stored
        cases stored
        exact .inr ⟨z, .inl rfl, rfl, rfl⟩
      · rw [Function.update_of_ne fun keys => same (RowKey.zone.inj keys).symm] at stored
        exact .inl ⟨row, stored, rfl, same⟩
  | @updateZone z old now found =>
      by_cases same : normalizeZone z.name = name
      · subst same
        rw [Function.update_self] at stored
        cases stored
        exact .inr ⟨z, .inr rfl, rfl, rfl⟩
      · rw [Function.update_of_ne fun keys => same (RowKey.zone.inj keys).symm] at stored
        exact .inl ⟨row, stored, rfl, same⟩
  | @deleteZone dropped found =>
      rw [dropZone] at stored
      split at stored
      · cases stored
      · exact .inl ⟨row, stored, rfl, id⟩
  | @createRecord r now id found clear =>
      rw [zone_createRecord] at stored
      obtain ⟨old, before, same⟩ := bumped _ _ stored
      exact .inl ⟨old, before, same, fun never => never⟩
  | @deleteRecord zone rname rtype rdata now found =>
      rw [zone_bump, Tables.deleteRecord, update_record_zone, ← zone_bump] at stored
      obtain ⟨old, before, same⟩ := bumped _ _ stored
      exact .inl ⟨old, before, same, id⟩

/-- A record is there after a call that creates it, and stays until one deletes it or its zone. -/
theorem Does.record_iff (does : Does md5 t call t') (k : RecordKey) :
    t' (.record k) ≠ none ↔ Creates md5 k call ∨ (t (.record k) ≠ none ∧ ¬ Removes md5 k call) := by
  cases does with
  | createZone now named fresh =>
      rw [update_zone_record]
      simp [Creates, Removes]
  | updateZone now stored =>
      rw [update_zone_record]
      simp [Creates, Removes]
  | @deleteZone dropped stored =>
      rw [record_dropZone]
      simp only [Creates, Removes, false_or]
      split
      · rename_i same
        simp [same]
      · rename_i other
        exact (and_iff_left fun same => other same.symm).symm
  | @createRecord r now id stored clear =>
      rw [record_createRecord_ne_none]
      simp only [Creates, Removes, not_false_eq_true, and_true]
      rw [or_comm, eq_comm]
  | @deleteRecord zone name rtype rdata now stored =>
      rw [record_bump, record_deleteRecord]
      simp only [Creates, Removes, false_or]
      split
      · rename_i same
        simp [same]
      · rename_i other
        exact (and_iff_left fun same => other same.symm).symm

theorem rdata_createRecord {now : Int} {id : Nat} {k k' : RecordKey} {ttl : Int32} {rdata : Bytes}
    {row : RecordValue} (stored : t.createRecord now id k ttl rdata (.record k') = some row) :
    (∃ old, t (.record k') = some old ∧ row.rdata = old.rdata) ∨ (k' = k ∧ row.rdata = rdata) := by
  -- setting the TTL leaves the text of what is inserted
  have inserted : ∃ new, (t.bump now k.zone).insertRecord id k ttl rdata (.record k') = some new ∧
      row.rdata = new.rdata := by
    rw [createRecord, setTTL] at stored
    split at stored
    · obtain ⟨new, found, rfl⟩ := Option.map_eq_some_iff.mp stored
      exact ⟨new, found, rfl⟩
    · exact ⟨row, stored, rfl⟩
  obtain ⟨new, found, same⟩ := inserted
  rw [same]
  by_cases here : k' = k
  · subst here
    rw [insertRecord, Function.update_self, upsertRow, record_bump] at found
    split at found
    · rename_i old before
      cases found
      exact .inl ⟨old, before, rfl⟩
    · cases found
      exact .inr ⟨rfl, rfl⟩
  · rw [insertRecord, Function.update_of_ne fun keys => here (RowKey.record.inj keys),
      record_bump] at found
    exact .inl ⟨new, found, rfl⟩

/-- Its text is as it was, or the one that the call creates it with. -/
theorem Does.text (does : Does md5 t call t') {k : RecordKey} {row : RecordValue}
    (stored : t' (.record k) = some row) :
    (∃ old, t (.record k) = some old ∧ row.rdata = old.rdata ∧ ¬ Removes md5 k call) ∨
      ∃ r, call = .createRecord r ∧ r.key md5 = k ∧ row.rdata = r.rdata := by
  cases does with
  | createZone now named fresh =>
      rw [update_zone_record] at stored
      exact .inl ⟨row, stored, rfl, id⟩
  | updateZone now found =>
      rw [update_zone_record] at stored
      exact .inl ⟨row, stored, rfl, id⟩
  | @deleteZone dropped found =>
      rw [record_dropZone] at stored
      split at stored
      · cases stored
      · rename_i other
        exact .inl ⟨row, stored, rfl, fun same => other same.symm⟩
  | @createRecord r now id found clear =>
      rcases rdata_createRecord stored with ⟨old, before, same⟩ | ⟨rfl, same⟩
      · exact .inl ⟨old, before, same, fun never => never⟩
      · exact .inr ⟨r, rfl, rfl, same⟩
  | @deleteRecord zone name rtype rdata now found =>
      rw [record_bump, record_deleteRecord] at stored
      split at stored
      · cases stored
      · rename_i other
        exact .inl ⟨row, stored, rfl, fun same => other same.symm⟩

end Tables

/-! ## Every call -/

variable {md5 : Bytes → Bytes} {calls : List WriteCall} {call : WriteCall} {t t' : Tables}

theorem journaled_empty (md5 : Bytes → Bytes) : Journaled md5 [] Tables.empty where
  zone _ := iff_of_false (fun stored => stored rfl) not_since_nil
  settings _ _ never := by cases never
  record _ := iff_of_false (fun stored => stored rfl) not_since_nil
  text _ _ never := by cases never
  ttl _ _ never := by cases never

/-- **One more call is one more entry.** -/
theorem Journaled.concat (journaled : Journaled md5 calls t) (does : Tables.Does md5 t call t') :
    Journaled md5 (calls ++ [call]) t' where
  zone name := by rw [since_concat, does.zone_iff, journaled.zone]
  settings name row stored := by
    rcases does.settings stored with ⟨old, before, same, kept⟩ | ⟨z, given, named, same⟩
    · obtain ⟨z, since, named, earlier⟩ := journaled.settings name old before
      exact ⟨z, since.concat kept, named, same.trans earlier⟩
    · exact ⟨z, since_last given, named, same⟩
  record k := by rw [since_concat, does.record_iff, journaled.record]
  text k row stored := by
    rcases does.text stored with ⟨old, before, same, kept⟩ | ⟨r, made, key, same⟩
    · obtain ⟨r, since, key, earlier⟩ := journaled.text k old before
      exact ⟨r, since.concat kept, key, same.trans earlier⟩
    · exact ⟨r, since_last made, key, same⟩
  ttl k row stored := by
    rcases does.row stored with ⟨before, other⟩ | ⟨r, made, rrset, same⟩
    · obtain ⟨r, since, rrset, earlier⟩ := journaled.ttl k row before
      refine ⟨r, since.concat fun retimes => ?_, rrset, earlier⟩
      cases call with
      | createRecord r' => exact other r' rfl retimes.symm
      | createZone | updateZone | deleteZone | deleteRecord => exact retimes
    · exact ⟨r, since_last made, rrset.symm, same⟩

namespace Transactions

/-- **The tables are what the calls say that have succeeded, whatever interleaved.** -/
theorem journaled_of_run {labels : List Label} {s : System} (run : Run md5 .start labels s) :
    Journaled md5 (committed labels) s.tables :=
  run.committed inv_start [] (fun does journaled => journaled.concat does) (journaled_empty md5)

theorem journaled_of_run_alias : ∃ labels s, Run id .start labels s ∧
    committed labels = [.createZone (Zone.plain (ascii "a")), .createRecord aliasRecord] ∧
      s.tables (.record (aliasRecord.key id)) ≠ none ∧
        Journaled id (committed labels) s.tables := by
  have run := (run_aliasZone id).append (run_createAlias id)
  exact ⟨_, _, run, rfl, by decide +kernel, journaled_of_run run⟩

end Transactions

end ShardDNS.Store

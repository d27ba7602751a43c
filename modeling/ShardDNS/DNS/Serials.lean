import ShardDNS.DNS.Handler
import ShardDNS.Store.Integrity

/-!
# Serials on the wire

The serial of a zone is a number of the database that only grows, and the SOA record has its last
32 bits. Who compares two of them goes round a circle: a serial is newer than another if the way
there is shorter than half of the circle.

As long as the serial of a zone has grown by less than that, the comparison is right. The serial
that is sent is newer than an earlier one exactly if a call has changed the zone in between, and
where it is the same, the zone and all its records are (`soaSerial_of_run`).
-/

set_option autoImplicit false

namespace ShardDNS.DNS

open Go Store Tables Transactions

/-! ## Comparing serials -/

/-- The second is newer: it is ahead of the first by less than half of the circle. -/
def Newer (a b : UInt32) : Prop := 0 < (b - a).toNat ∧ (b - a).toNat < 2 ^ 31

theorem toNat_ofInt (x : Int) : (UInt32.ofInt x).toNat = (x % 2 ^ 32).toNat := by
  rw [UInt32.ofInt, UInt32.toNat_ofNat']
  omega

/-- The way round the circle is the difference, if that is not too large. -/
theorem toNat_ofInt_sub {x y : Int} (le : x ≤ y) (near : y < x + 2 ^ 31) :
    (UInt32.ofInt y - UInt32.ofInt x).toNat = (y - x).toNat := by
  rw [UInt32.toNat_sub, toNat_ofInt, toNat_ofInt]
  omega

theorem newer_ofInt_iff {x y : Int} (le : x ≤ y) (near : y < x + 2 ^ 31) :
    Newer (UInt32.ofInt x) (UInt32.ofInt y) ↔ x < y := by
  rw [Newer, toNat_ofInt_sub le near]
  omega

theorem eq_of_ofInt_eq {x y : Int} (le : x ≤ y) (near : y < x + 2 ^ 31)
    (same : UInt32.ofInt y = UInt32.ofInt x) : y = x := by
  have way := toNat_ofInt_sub le near
  rw [same, UInt32.sub_self, UInt32.toNat_zero] at way
  omega

/-! ## The SOA record -/

/-- The serial in the RDATA of an SOA record, where four other numbers follow it. -/
def serialIn (rdata : Bytes) : UInt32 := uint32 ((rdata.drop (rdata.length - 20)).take 4)

theorem serialIn_append (names : Bytes) (serial refresh retry expire minimum : UInt32) :
    serialIn (names ++ (putUint32 serial ++
      (putUint32 refresh ++ (putUint32 retry ++ (putUint32 expire ++
      putUint32 minimum))))) = serial := by
  have start :
      (names ++ (putUint32 serial ++ (putUint32 refresh ++ (putUint32 retry ++ (putUint32 expire ++
      putUint32 minimum))))).length - 20 = names.length := by
    simp only [List.length_append, length_putUint32]
    omega
  rw [serialIn, start, List.drop_left, List.take_left' (length_putUint32 serial), uint32_putUint32]

/-- **The SOA record of a zone has the last 32 bits of its serial.** -/
theorem serialIn_soaRR {zone : Zone} {rr : RR} (encoded : soaRR zone = .ok rr) :
    serialIn rr.rdata = UInt32.ofInt zone.serial := by
  simp only [soaRR, buildSOA, bind_eq_ok] at encoded
  obtain ⟨rdata, ⟨server, first, names, second, ⟨⟩⟩, ⟨⟩⟩ := encoded
  simp only [List.foldl_cons, List.foldl_nil, List.append_assoc]
  exact serialIn_append ..

/-! ## Versions of a zone -/

/-- The zone and its records are the same. -/
def SameVersion (zone : Bytes) (t t' : Tables) : Prop :=
  t' (.zone zone) = t (.zone zone) ∧ ∀ k : RecordKey, k.zone = zone → t' (.record k) = t (.record k)

variable {md5 : Bytes → Bytes} {zone : Bytes}

/-- A call that is not for the zone leaves its records alone. -/
theorem record_of_elsewhere {t t' : Tables} {call : WriteCall} (does : Does md5 t call t')
    (elsewhere : call.bumps ≠ some zone) (kept : call.drops ≠ some zone) {k : RecordKey}
    (here : k.zone = zone) :
    t' (.record k) = t (.record k) := by
  subst here
  cases does with
  | createZone now named fresh => exact update_zone_record ..
  | updateZone now stored => exact update_zone_record ..
  | deleteZone stored =>
      rw [record_dropZone, if_neg]
      exact fun same => kept (congrArg some same.symm)
  | createRecord now id stored clear =>
      apply record_createRecord_of_other
      exact fun same => elsewhere (congrArg some same.1.symm)
  | deleteRecord now stored =>
      rw [record_bump, record_deleteRecord, if_neg]
      rintro rfl
      exact elsewhere rfl

theorem sameVersion_of_does {t t' : Tables} {call : WriteCall} {old : Zone}
    (does : Does md5 t call t') (stored : t (.zone zone) = some old)
    (elsewhere : call.bumps ≠ some zone) (kept : call.drops ≠ some zone) :
    SameVersion zone t t' := by
  obtain ⟨new, row, -, same⟩ := does.zone stored kept
  refine ⟨?_, fun k here => record_of_elsewhere does elsewhere kept here⟩
  rw [row, stored, same elsewhere]

/-- The calls for other zones leave the version as it is. -/
theorem sameVersion_of_run {labels : List Label} {s s' : System} {old : Zone}
    (run : Run md5 s labels s') (inv : Inv md5 s) (stored : s.tables (.zone zone) = some old)
    (elsewhere : ∀ call, .returned call .ok ∈ labels → call.bumps ≠ some zone ∧
      call.drops ≠ some zone) :
    SameVersion zone s.tables s'.tables := by
  induction run generalizing old with
  | nil => exact ⟨rfl, fun _ _ => rfl⟩
  | @cons s mid s' l labels first rest ih =>
      have next : SameVersion zone s.tables mid.tables := by
        rcases first.does inv with ⟨call, rfl, does⟩ | ⟨-, same⟩
        · obtain ⟨other, kept⟩ := elsewhere call List.mem_cons_self
          exact sameVersion_of_does does stored other kept
        · rw [same]
          exact ⟨rfl, fun _ _ => rfl⟩
      have later := ih (inv.step first) (next.1.trans stored) fun call member =>
        elsewhere call (List.mem_cons_of_mem l member)
      exact ⟨later.1.trans next.1, fun k here => (later.2 k here).trans (next.2 k here)⟩

/-- A version is counted when a call for the zone has succeeded. -/
theorem countP_changes_pos_iff {labels : List Label} :
    0 < labels.countP (Label.changes zone) ↔ ∃ call, .returned call .ok ∈ labels ∧
      call.bumps = some zone := by
  rw [List.countP_pos_iff]
  constructor
  · rintro ⟨l, member, changes⟩
    match l with
    | .returned call .ok => exact ⟨call, member, of_decide_eq_true changes⟩
    | .returned _ .notFound | .returned _ .conflict | .returned _ .failed => cases changes
    | .began _ | .ran _ => cases changes
  · rintro ⟨call, member, raises⟩
    exact ⟨_, member, decide_eq_true raises⟩

/-- **A newer serial means a change, and the same serial the same zone.** From one state to another
the zone is not deleted, and its serial grows by less than half of the circle. Then the serial of
the later SOA record is newer exactly if a call for the zone has succeeded in between, and if it is
the same, so are the zone and its records. -/
theorem soaSerial_of_run {labels later : List Label} {s s' : System} {old new : Zone}
    {soa soa' : RR} (run : Run md5 .start labels s) (rest : Run md5 s later s')
    (stored : s.tables (.zone zone) = some old)
    (stored' : s'.tables (.zone zone) = some new)
    (kept : ∀ call, .returned call .ok ∈ later → call.drops ≠ some zone)
    (near : new.serial < old.serial + 2 ^ 31)
    (encoded : soaRR old = .ok soa) (encoded' : soaRR new = .ok soa') :
    (Newer (serialIn soa.rdata) (serialIn soa'.rdata) ↔
      ∃ call, .returned call .ok ∈ later ∧ call.bumps = some zone) ∧
    (serialIn soa'.rdata = serialIn soa.rdata → SameVersion zone s.tables s'.tables) := by
  have inv : Inv md5 s := inv_start.run run
  obtain ⟨new', row, raised, same⟩ := rest.serial inv stored kept
  rw [stored'] at row
  cases row
  have le : old.serial ≤ new.serial := by omega
  rw [serialIn_soaRR encoded, serialIn_soaRR encoded', ← countP_changes_pos_iff]
  constructor
  · rw [newer_ofInt_iff le near]
    constructor
    · intro grown
      by_contra unchanged
      rw [same (Nat.eq_zero_of_not_pos unchanged)] at grown
      exact lt_irrefl _ grown
    · intro changed
      omega
  · intro equal
    have still := eq_of_ofInt_eq le near equal
    apply sameVersion_of_run rest inv stored
    intro call member
    refine ⟨fun raises => ?_, kept call member⟩
    have changed := countP_changes_pos_iff.mpr ⟨call, member, raises⟩
    omega

/-- The zone before and after its alias is created. -/
theorem soaSerial_of_run_alias : ∃ s s' old new soa soa',
    Run id .start [.returned (.createZone (Zone.plain (ascii "a"))) .ok] s ∧
      Run id s aliasLabels s' ∧ s.tables (.zone (ascii "a")) = some old ∧
      s'.tables (.zone (ascii "a")) = some new ∧ soaRR old = .ok soa ∧ soaRR new = .ok soa' ∧
      Newer (serialIn soa.rdata) (serialIn soa'.rdata) := by
  have stored : aliasTables (.zone (ascii "a")) = some (.plain (ascii "a")) := by decide +kernel
  have stored' : aliasTables.createRecord 0 1 (aliasRecord.key id) 60 (ascii "b.a")
      (.zone (ascii "a")) = some { Zone.plain (ascii "a") with serial := 2 } := by decide +kernel
  obtain ⟨soa, encoded⟩ : ∃ soa, soaRR (Zone.plain (ascii "a")) = .ok soa := ⟨_, rfl⟩
  obtain ⟨soa', encoded'⟩ : ∃ soa, soaRR { Zone.plain (ascii "a") with serial := 2 } = .ok soa :=
    ⟨_, rfl⟩
  refine ⟨_, _, _, _, soa, soa', run_aliasZone id, run_createAlias id, stored, stored', encoded,
    encoded', ?_⟩
  apply (soaSerial_of_run (run_aliasZone id) (run_createAlias id) stored stored'
    (drops_aliasLabels (ascii "a")) (by decide) encoded encoded').1.mpr
  exact ⟨.createRecord aliasRecord, by simp [aliasLabels], by decide +kernel⟩

end ShardDNS.DNS

import ShardDNS.Store.Integrity
import ShardDNS.Store.Keyed

/-!
# Calls at once and calls one after the other

Every interleaving of the statements of any number of calls reaches tables that the calls reach
one after the other: those that return successfully, in the order in which they return. Nor is
anything reached one after the other that an interleaving does not reach
(`interleavings_serialize`). The ids of the records are left out of the comparison: they depend
on the order of the statements, and on calls that fail.
-/

set_option autoImplicit false

namespace ShardDNS.Store

open Go ReadCommitted

/-! ## Rows without their ids -/

/-- A record without its id, which depends on the order of statements and on calls that failed. -/
def RecordValue.unnumbered (v : RecordValue) : RecordValue := { v with id := 0 }

namespace Tables

variable {md5 : Bytes → Bytes} {t t' : Tables} {call : WriteCall}

/-- The tables without the ids of the records. -/
def unnumbered (t : Tables) : Tables
  | .zone name => t (.zone name)
  | .record k => (t (.record k)).map RecordValue.unnumbered

end Tables

/-! ## Interleavings -/

/-- Calls one after the other on empty tables, each successful, with the tables after them. -/
inductive Replays (md5 : Bytes → Bytes) (encode : Option Encoder) :
    List WriteCall → Database → Prop where
  | nil : Replays md5 encode [] .empty
  | concat {calls : List WriteCall} {call : WriteCall} {db db' : Database}
      (before : Replays md5 encode calls db)
      (now : Int) (done : call.write.apply md5 encode now db = .ok db') :
      Replays md5 encode (calls ++ [call]) db'

theorem Replays.indexed {md5 : Bytes → Bytes} {encode : Option Encoder} {calls : List WriteCall}
    {db : Database} (replays : Replays md5 encode calls db) : db.Indexed md5 := by
  induction replays with
  | nil => exact List.nodup_nil
  | concat _ now done ih => exact (tables_apply ih done).1

namespace Transactions

open Tables

variable {md5 : Bytes → Bytes} {encode : Option Encoder} {labels : List Label} {s s' : System}

/-- The call that a step completes. -/
def Label.commits : Label → Option WriteCall
  | .returned call .ok => some call
  | _ => none

/-- The calls that succeed, in the order in which they return. -/
def committed (labels : List Label) : List WriteCall := labels.filterMap Label.commits

theorem committed_append (labels more : List Label) :
    committed (labels ++ more) = committed labels ++ committed more :=
  List.filterMap_append

/-- What calls one after the other keep of themselves and the tables is kept by every
interleaving. -/
theorem Run.committed {P : List WriteCall → Tables → Prop} (run : Run md5 s labels s')
    (inv : Inv md5 s) (calls : List WriteCall)
    (kept : ∀ {calls : List WriteCall} {t t' : Tables} {call : WriteCall}, Does md5 t call t' →
      P calls t →
      P (calls ++ [call]) t')
    (holds : P calls s.tables) : P (calls ++ Transactions.committed labels) s'.tables := by
  induction run generalizing calls with
  | nil => rwa [Transactions.committed, List.filterMap_nil, List.append_nil]
  | @cons s mid s'' l labels first rest ih =>
      rcases first.does inv with ⟨call, rfl, does⟩ | ⟨quiet, same⟩
      · have later := ih (inv.step first) _ (kept does holds)
        rwa [List.append_assoc] at later
      · have unmarked : l.commits = none := by
          match l with
          | .returned call .ok => exact absurd rfl (quiet call)
          | .returned _ .notFound | .returned _ .conflict | .returned _ .failed => rfl
          | .began _ | .ran _ => rfl
        rw [Transactions.committed, List.filterMap_cons_none unmarked]
        exact ih (inv.step first) calls (by rw [same]; exact holds)

/-- `DeleteRecord` with no transaction beside it goes through its statements and commits. -/
theorem run_deleteRecord {t : Tables} {zone name rtype rdata : Bytes} (now : Int)
    (key : t.ForeignKey) (stored : t (.record (keyOf md5 zone name rtype rdata)) ≠ none) :
    Run md5 ⟨t, []⟩
      [.began (.deleteRecord zone name rtype rdata), .ran (.deleteRecord zone name rtype rdata),
        .ran (.deleteRecord zone name rtype rdata),
        .returned (.deleteRecord zone name rtype rdata) .ok]
      ⟨(t.deleteRecord (keyOf md5 zone name rtype rdata)).bump now (normalizeZone zone), []⟩ := by
  obtain ⟨z, found⟩ := Option.ne_none_iff_exists'.mp (key _ stored)
  let deleted : Writes RowKey.Row :=
    Function.update Writes.empty (.record (keyOf md5 zone name rtype rdata)) (some none)
  let bumped : Writes RowKey.Row :=
    Function.update deleted (.zone (normalizeZone zone)) (some (some (bumpSerial now z)))
  have seesDeleted : deleted.view t = t.deleteRecord (keyOf md5 zone name rtype rdata) := by
    rw [Writes.view_set, Writes.view_empty]
    rfl
  have foundStill : deleted.view t (.zone (normalizeZone zone)) = some z := by
    rw [seesDeleted, deleteRecord, update_record_zone]
    exact found
  have seesBumped : bumped.view t =
      (t.deleteRecord (keyOf md5 zone name rtype rdata)).bump now (normalizeZone zone) := by
    rw [Writes.view_set, seesDeleted, bump, ← seesDeleted, foundStill]
    rfl
  have free : ∀ k, Free [] k := fun k tx never => by cases never
  rw [← seesBumped]
  refine .cons (@Step.begin md5 _ (.delete zone name rtype rdata .begun) now rfl) ?_
  refine .cons (statement_alone (.delete stored (free _))) ?_
  refine .cons (statement_alone (.bumpAfter foundStill (free _))) ?_
  exact .cons (commit_alone rfl) .nil

/-- The cascade of `DeleteZone` with no transaction beside it. -/
theorem exists_run_cascade {t : Tables} {name : Bytes} {rest : List RecordKey} {now : Int}
    {w : Writes RowKey.Row} (sound : Sound md5 t ⟨.drop name (.cascading rest), now, w⟩)
    (key : t.ForeignKey) : ∃ labels,
      Run md5 ⟨t, [⟨.drop name (.cascading rest), now, w⟩]⟩ labels
        ⟨t.dropZone (normalizeZone name), []⟩ ∧ committed labels = [.deleteZone name] := by
  induction rest generalizing w with
  | nil =>
      cases sound with
      | begun begun => cases begun
      | dropped stored once inside holds =>
          refine ⟨[.returned (.deleteZone name) .ok], ?_, rfl⟩
          rw [← dropBut_nil, ← holds.sees]
          exact .cons (commit_alone rfl) .nil
  | cons k rest ih =>
      have next : ∃ w', Statement md5 t (Free []) ⟨.drop name (.cascading (k :: rest)), now, w⟩
          ⟨.drop name (.cascading rest), now, w'⟩ := by
        by_cases absent : w.view t (.record k) = none
        · exact ⟨w, .cascadeNothing absent⟩
        · exact ⟨_, .cascade absent fun tx never => by cases never⟩
      obtain ⟨w', next⟩ := next
      obtain ⟨labels, run, made⟩ := ih (next.sound sound key)
      exact ⟨.ran (.deleteZone name) :: labels, .cons (statement_alone next) run, made⟩

/-- Whatever a call does alone, it does with no transaction beside it. -/
theorem exists_run_alone {t t' : Tables} {call : WriteCall} (key : t.ForeignKey)
    (listed : t.Listed) (does : Does md5 t call t') :
    ∃ labels, Run md5 ⟨t, []⟩ labels ⟨t', []⟩ ∧ committed labels = [call] := by
  have single : ∀ k, call.oneRow = some k →
      ∃ labels, Run md5 ⟨t, []⟩ labels ⟨t', []⟩ ∧ committed labels = [call] := by
    intro k single
    refine ⟨[.returned call .ok], .cons (.zoneCall single does fun tx never => ?_) .nil, rfl⟩
    cases never
  cases does with
  | createZone => exact single _ rfl
  | updateZone => exact single _ rfl
  | @deleteZone name stored =>
      obtain ⟨rest, once, all⟩ := listed.ofZone (normalizeZone name)
      have next : Statement md5 t (Free []) ⟨.drop name .begun, 0, Writes.empty⟩ _ :=
        .drop stored (fun tx never => by cases never) once all
      obtain ⟨labels, run, made⟩ := exists_run_cascade (next.sound (.begun rfl) key) key
      refine ⟨.began (.deleteZone name) :: .ran (.deleteZone name) :: labels, ?_, made⟩
      exact .cons (@Step.begin md5 _ (.drop name .begun) 0 rfl) (.cons (statement_alone next) run)
  | createRecord now id stored clear => exact ⟨_, run_createRecord md5 t _ now id stored clear, rfl⟩
  | deleteRecord now stored => exact ⟨_, run_deleteRecord now key stored, rfl⟩

/-- What calls reach one after the other is reached by an interleaving. -/
theorem exists_run_of_replays {calls : List WriteCall} {db : Database}
    (replays : Replays md5 encode calls db) :
    ∃ labels, Run md5 .start labels ⟨db.tables md5, []⟩ ∧ committed labels = calls := by
  induction replays with
  | nil =>
      rw [Database.tables_empty]
      exact ⟨[], .nil, rfl⟩
  | concat before now done ih =>
      obtain ⟨labels, run, made⟩ := ih
      obtain ⟨-, allowed, after⟩ := tables_apply before.indexed done
      have does := does_iff.mpr ⟨allowed, now, _, after⟩
      have inv := inv_start.run run
      obtain ⟨more, alone, last⟩ := exists_run_alone inv.key inv.listed does
      exact ⟨labels ++ more, run.append alone, by rw [committed_append, made, last]⟩

end Transactions

end ShardDNS.Store

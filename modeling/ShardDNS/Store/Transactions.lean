import ShardDNS.Store.Tables

/-!
# Concurrent write calls

The write calls of the store, statement by statement, any number of them at once.
`CreateRecord` and `DeleteRecord` are transactions of several statements; the calls on
zones are one statement each, of which that of `DeleteZone` deletes the row of the zone
first and then, in an order of its own, those of its records one after the other. A statement
sees what is committed by now and what its own transaction has written. One that writes a
row another transaction has written waits for that transaction to end: here it takes place
only once the row is free, and sees the tables as they are then. A call may also fail at
any point, and its transaction is rolled back.

`CreateRecord` begins by raising the serial of the zone, `DeleteZone` by deleting its row, and
`DeleteRecord` ends with it, so each commits only while it holds the lock of the zone's row.
While a `CreateRecord` is under way, then, no other call that commits touches its zone, and
what it has checked still holds when it commits (`Sound`). Every call that succeeds does, at the
step in which it returns, what it does alone, and no other step changes the tables (`Step.does`).
-/

set_option autoImplicit false

namespace ShardDNS.Store.Transactions

open Go ReadCommitted Tables

/-! ## Transactions -/

/-- The statements `CreateRecord` has behind it. -/
inductive CreatePoint where
  | begun
  | bumped
  | checked
  | inserted
  | updated

/-- The statements `DeleteRecord` has behind it. -/
inductive DeletePoint where
  | begun
  | deleted
  | bumped

/-- Where `DeleteZone` stands: once the zone is deleted, there are the records it has still to
delete. -/
inductive DropPoint where
  | begun
  | cascading (rest : List RecordKey)

inductive Task where
  | create (r : Record) (point : CreatePoint)
  | delete (zone name rtype rdata : Bytes) (point : DeletePoint)
  | drop (name : Bytes) (point : DropPoint)

namespace Task

def call : Task → WriteCall
  | create r _ => .createRecord r
  | delete zone name rtype rdata _ => .deleteRecord zone name rtype rdata
  | drop name _ => .deleteZone name

/-- The zone it writes to. -/
def zone : Task → Bytes
  | create r _ => normalizeZone r.zone
  | delete zone _ _ _ _ => normalizeZone zone
  | drop name _ => normalizeZone name

/-- No statement has taken place. -/
def Begun : Task → Prop
  | create _ point => point = .begun
  | delete _ _ _ _ point => point = .begun
  | drop _ point => point = .begun

/-- All of them have. -/
def Ended : Task → Prop
  | create _ point => point = .updated
  | delete _ _ _ _ point => point = .bumped
  | drop _ point => point = .cascading []

end Task

/-- A transaction: what it does, its `now()`, and what it has written. -/
structure Tx where
  task : Task
  now : Int
  writes : Writes RowKey.Row

inductive Result where
  | ok
  | notFound
  | conflict
  | failed
  deriving DecidableEq

/-- The row belongs to the RRset and has another TTL. -/
def Stale (v : Tables) (k : RecordKey) (ttl : Int32) (k' : RecordKey) : Prop :=
  SameRRset k' k ∧ ∃ row, v (.record k') = some row ∧ row.ttl ≠ ttl

/-- `UPDATE records SET ttl = $4 WHERE zone = $1 AND name = $2 AND type = $3 AND ttl <> $4`,
by a transaction that sees `v`. -/
def writeTTL (w : Writes RowKey.Row) (v : Tables) (k : RecordKey) (ttl : Int32) :
    Writes RowKey.Row
  | .zone name => w (.zone name)
  | .record k' =>
      match v (.record k') with
      | some row =>
          if SameRRset k' k ∧ row.ttl ≠ ttl then some (some { row with ttl := ttl })
          else w (.record k')
      | none => w (.record k')

/-- A statement of a transaction, where `free` are the rows no other transaction has
written. -/
inductive Statement (md5 : Bytes → Bytes) (t : Tables) (free : RowKey → Prop) : Tx → Tx → Prop where
  | bump {r : Record} {now : Int} {w : Writes RowKey.Row} {z : Zone}
      (found : w.view t (.zone (normalizeZone r.zone)) = some z)
      (unlocked : free (.zone (normalizeZone r.zone))) :
      Statement md5 t free ⟨.create r .begun, now, w⟩
        ⟨.create r .bumped, now,
          Function.update w (.zone (normalizeZone r.zone)) (some (some (bumpSerial now z)))⟩
  /-- The two tests on CNAME records. -/
  | check {r : Record} {now : Int} {w : Writes RowKey.Row}
      (clear : ¬ Conflicts (w.view t) (r.key md5)) :
      Statement md5 t free ⟨.create r .bumped, now, w⟩ ⟨.create r .checked, now, w⟩
  /-- The id is the next of a sequence that all transactions draw from. -/
  | insert {r : Record} {now : Int} {w : Writes RowKey.Row} (id : Nat)
      (unlocked : free (.record (r.key md5))) :
      Statement md5 t free ⟨.create r .checked, now, w⟩
        ⟨.create r .inserted, now,
          Function.update w (.record (r.key md5))
            (some (some (upsertRow (w.view t) id (r.key md5) r.ttl r.rdata)))⟩
  | update {r : Record} {now : Int} {w : Writes RowKey.Row}
      (unlocked : ∀ k, Stale (w.view t) (r.key md5) r.ttl k → free (.record k)) :
      Statement md5 t free ⟨.create r .inserted, now, w⟩
        ⟨.create r .updated, now, writeTTL w (w.view t) (r.key md5) r.ttl⟩
  | delete {zone name rtype rdata : Bytes} {now : Int} {w : Writes RowKey.Row}
      (found : w.view t (.record (keyOf md5 zone name rtype rdata)) ≠ none)
      (unlocked : free (.record (keyOf md5 zone name rtype rdata))) :
      Statement md5 t free ⟨.delete zone name rtype rdata .begun, now, w⟩
        ⟨.delete zone name rtype rdata .deleted, now,
          Function.update w (.record (keyOf md5 zone name rtype rdata)) (some none)⟩
  | bumpAfter {zone name rtype rdata : Bytes} {now : Int} {w : Writes RowKey.Row} {z : Zone}
      (found : w.view t (.zone (normalizeZone zone)) = some z)
      (unlocked : free (.zone (normalizeZone zone))) :
      Statement md5 t free ⟨.delete zone name rtype rdata .deleted, now, w⟩
        ⟨.delete zone name rtype rdata .bumped, now,
          Function.update w (.zone (normalizeZone zone)) (some (some (bumpSerial now z)))⟩
  /-- `DeleteRecord` does not ask whether the zone was there. -/
  | bumpNothing {zone name rtype rdata : Bytes} {now : Int} {w : Writes RowKey.Row}
      (absent : w.view t (.zone (normalizeZone zone)) = none) :
      Statement md5 t free ⟨.delete zone name rtype rdata .deleted, now, w⟩
        ⟨.delete zone name rtype rdata .bumped, now, w⟩
  /-- The foreign key of the records makes the deletion cascade to those there are. -/
  | drop {name : Bytes} {now : Int} {w : Writes RowKey.Row} {rest : List RecordKey}
      (found : w.view t (.zone (normalizeZone name)) ≠ none)
      (unlocked : free (.zone (normalizeZone name))) (once : rest.Nodup)
      (all : ∀ k, k ∈ rest ↔ k.zone = normalizeZone name ∧ w.view t (.record k) ≠ none) :
      Statement md5 t free ⟨.drop name .begun, now, w⟩
        ⟨.drop name (.cascading rest), now,
          Function.update w (.zone (normalizeZone name)) (some none)⟩
  | cascade {name : Bytes} {now : Int} {w : Writes RowKey.Row} {k : RecordKey}
      {rest : List RecordKey} (found : w.view t (.record k) ≠ none)
      (unlocked : free (.record k)) :
      Statement md5 t free ⟨.drop name (.cascading (k :: rest)), now, w⟩
        ⟨.drop name (.cascading rest), now, Function.update w (.record k) (some none)⟩
  /-- The record has been deleted meanwhile. -/
  | cascadeNothing {name : Bytes} {now : Int} {w : Writes RowKey.Row} {k : RecordKey}
      {rest : List RecordKey} (absent : w.view t (.record k) = none) :
      Statement md5 t free ⟨.drop name (.cascading (k :: rest)), now, w⟩
        ⟨.drop name (.cascading rest), now, w⟩

/-- The call returns early. -/
inductive Refuses (md5 : Bytes → Bytes) (t : Tables) : Tx → Result → Prop where
  | noZone {r : Record} {now : Int} {w : Writes RowKey.Row}
      (absent : w.view t (.zone (normalizeZone r.zone)) = none) :
      Refuses md5 t ⟨.create r .begun, now, w⟩ .notFound
  | conflicting {r : Record} {now : Int} {w : Writes RowKey.Row}
      (conflicts : Conflicts (w.view t) (r.key md5)) :
      Refuses md5 t ⟨.create r .bumped, now, w⟩ .conflict
  | noRecord {zone name rtype rdata : Bytes} {now : Int} {w : Writes RowKey.Row}
      (absent : w.view t (.record (keyOf md5 zone name rtype rdata)) = none) :
      Refuses md5 t ⟨.delete zone name rtype rdata .begun, now, w⟩ .notFound
  | noDrop {name : Bytes} {now : Int} {w : Writes RowKey.Row}
      (absent : w.view t (.zone (normalizeZone name)) = none) :
      Refuses md5 t ⟨.drop name .begun, now, w⟩ .notFound
  /-- The row its first statement waited for is gone. A row that has taken its place since
  is not seen. -/
  | vanished {tx : Tx} (begun : tx.task.Begun) : Refuses md5 t tx .notFound

/-! ## The system -/

/-- The committed tables and the transactions in progress. -/
structure System where
  tables : Tables
  txs : List Tx

def System.start : System := { tables := Tables.empty, txs := [] }

/-- What happens in a step. -/
inductive Label where
  | began (call : WriteCall)
  | ran (call : WriteCall)
  | returned (call : WriteCall) (result : Result)

/-- A call on one zone that changes nothing. -/
inductive ZoneRefuses (t : Tables) : WriteCall → Result → Prop where
  | unnamed {z : Zone} (empty : normalizeZone z.name = []) : ZoneRefuses t (.createZone z) .failed
  | taken {z : Zone} (stored : t (.zone (normalizeZone z.name)) ≠ none) :
      ZoneRefuses t (.createZone z) .conflict
  | noUpdate {z : Zone} (absent : t (.zone (normalizeZone z.name)) = none) :
      ZoneRefuses t (.updateZone z) .notFound

/-- None of the transactions has written the row. -/
def Free (txs : List Tx) (k : RowKey) : Prop := ∀ tx ∈ txs, tx.writes k = none

inductive Step (md5 : Bytes → Bytes) : System → Label → System → Prop where
  | begin {s : System} {task : Task} (now : Int) (begun : task.Begun) :
      Step md5 s (.began task.call) { s with txs := ⟨task, now, .empty⟩ :: s.txs }
  | statement {t : Tables} {before after : List Tx} {tx tx' : Tx}
      (next : Statement md5 t (Free (before ++ after)) tx tx') :
      Step md5 ⟨t, before ++ tx :: after⟩ (.ran tx.task.call) ⟨t, before ++ tx' :: after⟩
  | refuse {t : Tables} {before after : List Tx} {tx : Tx} {result : Result}
      (refuses : Refuses md5 t tx result) :
      Step md5 ⟨t, before ++ tx :: after⟩ (.returned tx.task.call result) ⟨t, before ++ after⟩
  | fail {t : Tables} {before after : List Tx} {tx : Tx} :
      Step md5 ⟨t, before ++ tx :: after⟩ (.returned tx.task.call .failed) ⟨t, before ++ after⟩
  | commit {t : Tables} {before after : List Tx} {tx : Tx} (ended : tx.task.Ended) :
      Step md5 ⟨t, before ++ tx :: after⟩ (.returned tx.task.call .ok)
        ⟨tx.writes.view t, before ++ after⟩
  | zoneCall {s : System} {call : WriteCall} {k : RowKey} {t : Tables}
      (single : call.oneRow = some k) (does : Does md5 s.tables call t)
      (unlocked : Free s.txs k) :
      Step md5 s (.returned call .ok) { s with tables := t }
  | zoneRefuse {s : System} {call : WriteCall} {result : Result}
      (refuses : ZoneRefuses s.tables call result) :
      Step md5 s (.returned call result) s
  | zoneFail {s : System} {call : WriteCall} {k : RowKey} (single : call.oneRow = some k) :
      Step md5 s (.returned call .failed) s

/-- Steps and what happens in them. -/
inductive Run (md5 : Bytes → Bytes) : System → List Label → System → Prop where
  | nil {s : System} : Run md5 s [] s
  | cons {s s' s'' : System} {l : Label} {labels : List Label} (first : Step md5 s l s')
      (rest : Run md5 s' labels s'') : Run md5 s (l :: labels) s''

/-! ## What a transaction has established -/

/-- The transaction holds the lock of the zone's row, has written nothing outside the zone,
and sees what an operation within the zone makes of the tables. -/
structure Holds (t : Tables) (zone : Bytes) (w : Writes RowKey.Row) (f : Tables → Tables) :
    Prop where
  within : ∀ k, ¬ OfZone zone k → w k = none
  locked : w (.zone zone) ≠ none
  sees : w.view t = f t
  isLocal : Local (OfZone zone) f

/-- What holds of a transaction by the statements it has behind it. -/
inductive Sound (md5 : Bytes → Bytes) (t : Tables) : Tx → Prop where
  | begun {task : Task} {now : Int} (begun : task.Begun) : Sound md5 t ⟨task, now, .empty⟩
  | bumped {r : Record} {now : Int} {w : Writes RowKey.Row}
      (stored : t (.zone (normalizeZone r.zone)) ≠ none)
      (holds : Holds t (normalizeZone r.zone) w fun t => t.bump now (normalizeZone r.zone)) :
      Sound md5 t ⟨.create r .bumped, now, w⟩
  | checked {r : Record} {now : Int} {w : Writes RowKey.Row}
      (stored : t (.zone (normalizeZone r.zone)) ≠ none) (clear : ¬ t.Conflicts (r.key md5))
      (holds : Holds t (normalizeZone r.zone) w fun t => t.bump now (normalizeZone r.zone)) :
      Sound md5 t ⟨.create r .checked, now, w⟩
  | inserted {r : Record} {now : Int} {w : Writes RowKey.Row} {id : Nat}
      (stored : t (.zone (normalizeZone r.zone)) ≠ none) (clear : ¬ t.Conflicts (r.key md5))
      (holds : Holds t (normalizeZone r.zone) w fun t =>
        (t.bump now (normalizeZone r.zone)).insertRecord id (r.key md5) r.ttl r.rdata) :
      Sound md5 t ⟨.create r .inserted, now, w⟩
  | updated {r : Record} {now : Int} {w : Writes RowKey.Row} {id : Nat}
      (stored : t (.zone (normalizeZone r.zone)) ≠ none) (clear : ¬ t.Conflicts (r.key md5))
      (holds : Holds t (normalizeZone r.zone) w fun t =>
        t.createRecord now id (r.key md5) r.ttl r.rdata) :
      Sound md5 t ⟨.create r .updated, now, w⟩
  | deleted {zone name rtype rdata : Bytes} {now : Int}
      (stored : t (.record (keyOf md5 zone name rtype rdata)) ≠ none) :
      Sound md5 t ⟨.delete zone name rtype rdata .deleted, now,
        Function.update Writes.empty (.record (keyOf md5 zone name rtype rdata)) (some none)⟩
  | deletedBumped {zone name rtype rdata : Bytes} {now : Int} {w : Writes RowKey.Row}
      (stored : t (.record (keyOf md5 zone name rtype rdata)) ≠ none)
      (holds : Holds t (normalizeZone zone) w fun t =>
        (t.deleteRecord (keyOf md5 zone name rtype rdata)).bump now (normalizeZone zone)) :
      Sound md5 t ⟨.delete zone name rtype rdata .bumped, now, w⟩
  | dropped {name : Bytes} {now : Int} {w : Writes RowKey.Row} {rest : List RecordKey}
      (stored : t (.zone (normalizeZone name)) ≠ none) (once : rest.Nodup)
      (inside : ∀ k ∈ rest, k.zone = normalizeZone name)
      (holds : Holds t (normalizeZone name) w fun t => t.dropBut (normalizeZone name) rest) :
      Sound md5 t ⟨.drop name (.cascading rest), now, w⟩

section Transfer

variable {md5 : Bytes → Bytes} {t t' : Tables} {zone : Bytes} {w : Writes RowKey.Row}
  {f : Tables → Tables} {tx tx' : Tx}

theorem Holds.transfer (holds : Holds t zone w f) (agree : AgreeOn (OfZone zone) t t') :
    Holds t' zone w f where
  within := holds.within
  locked := holds.locked
  sees := (local_view holds.within).eq_of_agree holds.isLocal holds.sees agree
  isLocal := holds.isLocal

/-- **A transaction stays sound while the rows it has written stay the same and, once it
holds the lock of its zone, the zone does.** -/
theorem Sound.transfer (sound : Sound md5 t tx) (rows : ∀ k, tx.writes k ≠ none → t k = t' k)
    (content : tx.writes (.zone tx.task.zone) ≠ none → AgreeOn (OfZone tx.task.zone) t t') :
    Sound md5 t' tx := by
  cases sound with
  | begun begun => exact .begun begun
  | bumped stored holds =>
      have agree := content holds.locked
      exact .bumped (by rwa [← agree (.zone _) rfl]) (holds.transfer agree)
  | checked stored clear holds =>
      have agree := content holds.locked
      exact .checked (by rwa [← agree (.zone _) rfl]) (mt (conflicts_congr agree).mpr clear)
        (holds.transfer agree)
  | inserted stored clear holds =>
      have agree := content holds.locked
      exact .inserted (by rwa [← agree (.zone _) rfl]) (mt (conflicts_congr agree).mpr clear)
        (holds.transfer agree)
  | updated stored clear holds =>
      have agree := content holds.locked
      exact .updated (by rwa [← agree (.zone _) rfl]) (mt (conflicts_congr agree).mpr clear)
        (holds.transfer agree)
  | deleted stored =>
      refine .deleted ?_
      rwa [← rows (.record _) (by dsimp only; rw [Function.update_self]; exact nofun)]
  | @deletedBumped zone name rtype rdata _ _ stored holds =>
      have agree := content holds.locked
      exact .deletedBumped (by rwa [← agree (.record (keyOf md5 zone name rtype rdata)) rfl])
        (holds.transfer agree)
  | dropped stored once inside holds =>
      have agree := content holds.locked
      exact .dropped (by rwa [← agree (.zone _) rfl]) once inside (holds.transfer agree)

end Transfer

/-! ## One statement -/

section Statements

variable {md5 : Bytes → Bytes} {t : Tables} {zone : Bytes} {w : Writes RowKey.Row}
  {f g : Tables → Tables} {tx tx' : Tx} {free : RowKey → Prop}

/-- A statement writes rows that are free, beside those already written. -/
theorem Statement.locks (next : Statement md5 t free tx tx') {k : RowKey}
    (locked : tx'.writes k ≠ none) : tx.writes k ≠ none ∨ free k := by
  have set : ∀ {w : Writes RowKey.Row} {k' : RowKey} {row : Option k'.Row}, free k' →
      Function.update w k' (some row) k ≠ none → w k ≠ none ∨ free k := by
    intro w k' row unlocked locked
    by_cases same : k = k'
    · exact .inr (same ▸ unlocked)
    · exact .inl (by rwa [Function.update_of_ne same] at locked)
  cases next with
  | bump found unlocked => exact set unlocked locked
  | check clear => exact .inl locked
  | insert id unlocked => exact set unlocked locked
  | update unlocked =>
      cases k with
      | zone name => exact .inl locked
      | record k =>
          dsimp only [writeTTL] at locked
          split at locked
          · rename_i row seen
            split at locked
            · rename_i stale
              exact .inr (unlocked k ⟨stale.1, row, seen, stale.2⟩)
            · exact .inl locked
          · exact .inl locked
  | delete found unlocked => exact set unlocked locked
  | bumpAfter found unlocked => exact set unlocked locked
  | bumpNothing absent => exact .inl locked
  | drop found unlocked once all => exact set unlocked locked
  | cascade found unlocked => exact set unlocked locked
  | cascadeNothing absent => exact .inl locked

/-- Setting the TTL of the rows with another sets that of all. -/
theorem view_writeTTL (w : Writes RowKey.Row) (t : Tables) (k : RecordKey) (ttl : Int32) :
    (writeTTL w (w.view t) k ttl).view t = setTTL (w.view t) k ttl := by
  funext k'
  cases k' with
  | zone name => rfl
  | record k' =>
      have kept : (w (.record k')).getD (t (.record k')) = w.view t (.record k') := rfl
      rw [setTTL, Writes.view, writeTTL]
      cases seen : w.view t (.record k') with
      | none =>
          dsimp only
          rw [kept, seen, Option.map_none, ite_self]
      | some row =>
          dsimp only
          by_cases stale : SameRRset k' k ∧ row.ttl ≠ ttl
          · rw [if_pos stale, if_pos stale.1]
            rfl
          · rw [if_neg stale, kept, seen]
            split
            · rename_i same
              have current : row.ttl = ttl := not_not.mp fun other => stale ⟨same, other⟩
              rw [← current]
              rfl
            · rfl

/-- A statement within the zone. -/
theorem Holds.set {k : RowKey} {row : Option k.Row} (holds : Holds t zone w f)
    (inside : OfZone zone k) (operates : Local (OfZone zone) g)
    (seen : g (f t) = Function.update (f t) k row) :
    Holds t zone (Function.update w k (some row)) fun t => g (f t) where
  within k' apart := by
    have other : k' ≠ k := fun same => apart (same ▸ inside)
    rw [Function.update_of_ne other]
    exact holds.within k' apart
  locked := by
    by_cases same : RowKey.zone zone = k
    · subst same
      rw [Function.update_self]
      exact nofun
    · rw [Function.update_of_ne same]
      exact holds.locked
  sees := by
    rw [Writes.view_set, holds.sees]
    exact seen.symm
  isLocal := operates.comp holds.isLocal

theorem Holds.writeTTL {k : RecordKey} {ttl : Int32} (holds : Holds t k.zone w f) :
    Holds t k.zone (writeTTL w (w.view t) k ttl) fun t => (f t).setTTL k ttl where
  within k' apart := by
    cases k' with
    | zone name => exact holds.within _ apart
    | record k' =>
        have other : ¬ SameRRset k' k := fun same => apart same.1
        rw [Transactions.writeTTL]
        split
        · simp only [other, false_and, if_false]
          exact holds.within _ apart
        · exact holds.within _ apart
  locked := holds.locked
  sees := by rw [view_writeTTL, holds.sees]
  isLocal := (local_setTTL k ttl).comp holds.isLocal

/-- The lock of the zone is taken by the bump of its serial. -/
theorem holds_bump {now : Int} {z : Zone} (within : ∀ k, ¬ OfZone zone k → w k = none)
    (operates : Local (OfZone zone) f) (sees : w.view t = f t)
    (found : w.view t (.zone zone) = some z) :
    Holds t zone (Function.update w (.zone zone) (some (some (bumpSerial now z))))
      fun t => (f t).bump now zone where
  within k apart := by
    have other : k ≠ .zone zone := fun same => apart (same ▸ rfl)
    rw [Function.update_of_ne other]
    exact within k apart
  locked := by
    rw [Function.update_self]
    exact nofun
  sees := by
    rw [Writes.view_set, sees, bump]
    rw [sees] at found
    rw [found]
    rfl
  isLocal := (local_bump now zone).comp operates

/-- It is taken by its deletion, and of the records of the zone all are still there. -/
theorem holds_drop {rest : List RecordKey}
    (all : ∀ k, k ∈ rest ↔ k.zone = zone ∧ t (.record k) ≠ none) :
    Holds t zone (Function.update Writes.empty (.zone zone) (some none))
      fun t => t.dropBut zone rest where
  within k apart := by
    have other : k ≠ .zone zone := fun same => apart (same ▸ rfl)
    rw [Function.update_of_ne other]
    rfl
  locked := by
    rw [Function.update_self]
    exact nofun
  sees := by
    rw [Writes.view_set, Writes.view_empty]
    funext k
    cases k with
    | zone name =>
        rw [dropBut]
        split
        · rename_i same
          rw [same, Function.update_self]
        · rename_i other
          rw [Function.update_of_ne fun keys => other (RowKey.zone.inj keys)]
    | record k =>
        rw [update_zone_record, dropBut]
        split
        · rename_i gone
          by_contra stored
          exact gone.2 ((all k).mpr ⟨gone.1, stored⟩)
        · rfl
  isLocal := local_dropBut zone rest

/-- A record that is gone need not be deleted. -/
theorem Holds.skip {k : RecordKey} {rest : List RecordKey}
    (holds : Holds t zone w fun t => t.dropBut zone (k :: rest))
    (absent : w.view t (.record k) = none) : Holds t zone w fun t => t.dropBut zone rest where
  within := holds.within
  locked := holds.locked
  sees := by
    have seen := holds.sees
    rw [seen]
    funext key
    cases key with
    | zone name => rfl
    | record k' =>
        by_cases same : k' = k
        · subst same
          rw [seen] at absent
          rw [absent, dropBut]
          split
          · rfl
          · rename_i kept
            rw [dropBut, if_neg fun gone => gone.2 List.mem_cons_self] at absent
            exact absent.symm
        · simp only [dropBut, List.mem_cons, same, false_or]
  isLocal := local_dropBut zone rest

/-- **A statement takes a sound transaction to a sound one.** -/
theorem Statement.sound (next : Statement md5 t free tx tx') (sound : Sound md5 t tx)
    (key : t.ForeignKey) : Sound md5 t tx' := by
  cases next with
  | bump found unlocked =>
      cases sound with
      | begun _ =>
          refine .bumped (fun absent => ?_)
            (holds_bump (fun _ _ => rfl) ⟨fun agree => agree, fun _ _ _ => rfl⟩ rfl found)
          rw [Writes.view_empty, absent] at found
          cases found
  | check clear =>
      cases sound with
      | begun begun => cases begun
      | @bumped r now _ stored holds =>
          refine .checked stored (fun conflicts => clear ?_) holds
          rw [holds.sees]
          -- raising the serial leaves the records alone
          simpa only [Conflicts, record_bump] using conflicts
  | @insert r now w id unlocked =>
      cases sound with
      | begun begun => cases begun
      | checked stored clear holds =>
          have inserted := holds.set (k := .record (r.key md5)) rfl
            (local_insertRecord id (r.key md5) r.ttl r.rdata) rfl
          rw [← holds.sees] at inserted
          exact .inserted stored clear inserted
  | @update r now w unlocked =>
      cases sound with
      | begun begun => cases begun
      | inserted stored clear holds =>
          exact .updated stored clear (Holds.writeTTL (k := r.key md5) holds)
  | delete found unlocked =>
      cases sound with
      | begun _ => exact .deleted found
  | @bumpAfter zone name rtype rdata now w z found unlocked =>
      cases sound with
      | begun begun => cases begun
      | deleted stored =>
          refine .deletedBumped stored (holds_bump (fun k apart => ?_)
            (local_deleteRecord (keyOf md5 zone name rtype rdata)) ?_ found)
          · have other : k ≠ .record (keyOf md5 zone name rtype rdata) := fun same =>
              apart (same ▸ rfl)
            rw [Function.update_of_ne other]
            rfl
          · rw [Writes.view_set]
            rfl
  | bumpNothing absent =>
      cases sound with
      | begun begun => cases begun
      | deleted stored =>
          rw [Writes.view_set, Writes.view_empty, update_record_zone] at absent
          exact absurd absent (key _ stored)
  | drop found unlocked once all =>
      cases sound with
      | begun _ =>
          exact .dropped found once (fun k member => ((all k).mp member).1) (holds_drop all)
  | @cascade name now w k rest found unlocked =>
      cases sound with
      | begun begun => cases begun
      | dropped stored once inside holds =>
          obtain ⟨here, inside⟩ := List.forall_mem_cons.mp inside
          obtain ⟨fresh, once⟩ := List.nodup_cons.mp once
          rw [← here] at holds stored
          have deleted := holds.set (k := .record k) rfl (local_deleteRecord k) rfl
          simp only [deleteRecord_dropBut fresh] at deleted
          rw [here] at deleted stored
          exact .dropped stored once inside deleted
  | cascadeNothing absent =>
      cases sound with
      | begun begun => cases begun
      | dropped stored once inside holds =>
          exact .dropped stored (List.nodup_cons.mp once).2 (List.forall_mem_cons.mp inside).2
            (holds.skip absent)

end Statements

/-! ## Every interleaving -/

/-- What holds in every reachable state. -/
structure Inv (md5 : Bytes → Bytes) (s : System) : Prop where
  exclusive : Exclusive Tx.writes s.txs
  sound : ∀ tx ∈ s.txs, Sound md5 s.tables tx
  key : s.tables.ForeignKey
  listed : s.tables.Listed

section Steps

variable {md5 : Bytes → Bytes} {t t' : Tables} {before after : List Tx} {tx : Tx} {call : WriteCall}
  {s s' : System} {l : Label}

theorem inv_start : Inv md5 .start where
  exclusive := List.Pairwise.nil
  sound _ never := by cases never
  key _ stored := absurd rfl stored
  listed := ⟨[], fun _ stored => absurd rfl stored⟩

theorem Inv.sound_middle (inv : Inv md5 ⟨t, before ++ tx :: after⟩) : Sound md5 t tx :=
  inv.sound tx List.mem_append_cons_self

theorem Inv.sound_others (inv : Inv md5 ⟨t, before ++ tx :: after⟩) :
    ∀ other ∈ before ++ after, Sound md5 t other := fun other member =>
  inv.sound other (List.mem_append.mpr
    ((List.mem_append.mp member).imp_right (List.mem_cons_of_mem _)))

/-- The end of a transaction that changes nothing leaves the others as they are. -/
theorem Inv.drop (inv : Inv md5 ⟨t, before ++ tx :: after⟩) : Inv md5 ⟨t, before ++ after⟩ where
  exclusive := (exclusive_middle.mp inv.exclusive).2
  sound := inv.sound_others
  key := inv.key
  listed := inv.listed

/-- A transaction that has all its statements behind it holds the lock of its zone and has
written nothing outside, and what it sees is what its call does. -/
theorem Sound.ended (sound : Sound md5 t tx) (ended : tx.task.Ended) :
    tx.writes (.zone tx.task.zone) ≠ none ∧
      (∀ k, ¬ OfZone tx.task.zone k → tx.writes k = none) ∧
        Does md5 t tx.task.call (tx.writes.view t) := by
  cases sound with
  | @begun task now begun =>
      cases task <;> cases begun <;> cases ended
  | bumped | checked | inserted | deleted => cases ended
  | updated stored clear holds =>
      refine ⟨holds.locked, holds.within, ?_⟩
      rw [holds.sees]
      exact .createRecord _ _ stored clear
  | deletedBumped stored holds =>
      refine ⟨holds.locked, holds.within, ?_⟩
      rw [holds.sees]
      exact .deleteRecord _ stored
  | dropped stored once inside holds =>
      cases ended
      refine ⟨holds.locked, holds.within, ?_⟩
      rw [holds.sees, dropBut_nil]
      exact .deleteZone stored

theorem returned_ne_ok {result : Result} (refused : result ≠ .ok) (called call : WriteCall) :
    Label.returned called result ≠ .returned call .ok := fun same =>
      refused (Label.returned.inj same).2

theorem Refuses.ne_ok {result : Result} (refuses : Refuses md5 t tx result) : result ≠ .ok := by
  cases refuses <;> exact nofun

theorem ZoneRefuses.ne_ok {result : Result} (refuses : ZoneRefuses t call result) :
    result ≠ .ok := by
  cases refuses <;> exact nofun

/-- **Every step that changes the tables is the return of a call that succeeds, and does what
the call does alone.** -/
theorem Step.does (step : Step md5 s l s') (inv : Inv md5 s) :
    (∃ call, l = .returned call .ok ∧ Does md5 s.tables call s'.tables) ∨
      ((∀ call, l ≠ .returned call .ok) ∧ s'.tables = s.tables) := by
  cases step with
  | begin now begun => exact .inr ⟨nofun, rfl⟩
  | statement next => exact .inr ⟨nofun, rfl⟩
  | refuse refuses => exact .inr ⟨returned_ne_ok refuses.ne_ok _, rfl⟩
  | fail => exact .inr ⟨returned_ne_ok (by decide) _, rfl⟩
  | commit ended => exact .inl ⟨_, rfl, (inv.sound_middle.ended ended).2.2⟩
  | zoneCall single does unlocked => exact .inl ⟨_, rfl, does⟩
  | zoneRefuse refuses => exact .inr ⟨returned_ne_ok refuses.ne_ok _, rfl⟩
  | zoneFail single => exact .inr ⟨returned_ne_ok (by decide) _, rfl⟩

/-- A call on one row leaves alone the others. -/
theorem agree_of_oneRow {k : RowKey} (does : Does md5 t call t') (single : call.oneRow = some k)
    {k' : RowKey} (other : k' ≠ k) : t k' = t' k' := by
  cases does with
  | createZone now named fresh =>
      cases single
      exact (Function.update_of_ne other _ _).symm
  | updateZone now stored =>
      cases single
      exact (Function.update_of_ne other _ _).symm
  | deleteZone | createRecord | deleteRecord => cases single

theorem oneRow_eq_zone {k : RowKey} (single : call.oneRow = some k) : k = .zone k.owner := by
  cases call with
  | createZone z | updateZone z =>
      cases single
      rfl
  | deleteZone | createRecord | deleteRecord => cases single

theorem Inv.zoneCall {txs : List Tx} {k : RowKey} (inv : Inv md5 ⟨t, txs⟩)
    (single : call.oneRow = some k) (does : Does md5 t call t') (unlocked : Free txs k) :
    Inv md5 ⟨t', txs⟩ where
  exclusive := inv.exclusive
  sound tx member := by
    have apart : ∀ k', tx.writes k' ≠ none → k' ≠ k := by
      rintro k' locked rfl
      exact locked (unlocked tx member)
    refine (inv.sound tx member).transfer
      (fun k' locked => agree_of_oneRow does single (apart k' locked)) fun locked k' inside => ?_
    refine agree_of_oneRow does single fun same => apart _ locked ?_
    -- the row of a zone in which the transaction holds the lock
    subst same
    rw [oneRow_eq_zone single]
    exact congrArg RowKey.zone (Eq.symm inside)
  key := does.foreignKey inv.key
  listed := does.listed inv.listed

/-- A commit leaves the other transactions sound: it has written none of their rows, and
touches no zone of which one of them holds the lock. -/
theorem Inv.commit (inv : Inv md5 ⟨t, before ++ tx :: after⟩) (ended : tx.task.Ended) :
    Inv md5 ⟨tx.writes.view t, before ++ after⟩ := by
  obtain ⟨apart, exclusive⟩ := exclusive_middle.mp inv.exclusive
  obtain ⟨locked, within, does⟩ := inv.sound_middle.ended ended
  refine ⟨exclusive, fun other member => ?_, does.foreignKey inv.key, does.listed inv.listed⟩
  refine (inv.sound_others other member).transfer (fun k written => ?_) fun held => ?_
  · exact (Writes.view_of_free ((apart other member).free written) t).symm
  · have distinct : tx.task.zone ≠ other.task.zone := by
      intro same
      rw [same] at locked
      exact held (((apart other member).symm).free locked)
    refine agreeOn_view (fun k inside => within k fun mine => distinct ?_) t
    exact Eq.trans (Eq.symm mine) inside

theorem Inv.statement {tx' : Tx} (inv : Inv md5 ⟨t, before ++ tx :: after⟩)
    (next : Statement md5 t (Free (before ++ after)) tx tx') :
    Inv md5 ⟨t, before ++ tx' :: after⟩ := by
  obtain ⟨apart, -⟩ := exclusive_middle.mp inv.exclusive
  refine ⟨inv.exclusive.replace fun other member k => ?_, fun other member => ?_, inv.key,
    inv.listed⟩
  · by_cases locked : tx'.writes k = none
    · exact .inl locked
    · rcases next.locks locked with old | free
      · exact .inr ((apart other member k).resolve_left old)
      · exact .inr (free other member)
  · rcases List.mem_append.mp member with early | late
    · exact inv.sound other (List.mem_append_left _ early)
    · rcases List.mem_cons.mp late with rfl | late
      · exact next.sound inv.sound_middle inv.key
      · exact inv.sound other (List.mem_append_right _ (List.mem_cons_of_mem _ late))

theorem Inv.step (inv : Inv md5 s) (step : Step md5 s l s') : Inv md5 s' := by
  cases step with
  | begin now begun =>
      refine ⟨List.pairwise_cons.mpr ⟨fun other _ => apart_empty _, inv.exclusive⟩,
        fun other member => ?_, inv.key, inv.listed⟩
      rcases List.mem_cons.mp member with rfl | old
      · exact .begun begun
      · exact inv.sound other old
  | statement next => exact inv.statement next
  | refuse refuses => exact inv.drop
  | fail => exact inv.drop
  | commit ended => exact inv.commit ended
  | zoneCall single does unlocked => exact inv.zoneCall single does unlocked
  | zoneRefuse refuses => exact inv
  | zoneFail single => exact inv

theorem Inv.run {labels : List Label} (inv : Inv md5 s) (run : Run md5 s labels s') :
    Inv md5 s' := by
  induction run with
  | nil => exact inv
  | cons first _ ih => exact ih (inv.step first)

end Steps

end ShardDNS.Store.Transactions

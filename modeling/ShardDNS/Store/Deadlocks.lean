import ShardDNS.Store.Integrity

/-!
# Calls that wait for each other

`CreateRecord` locks the row of the zone first and then rows of its RRset, and `DeleteZone` that of
the zone and then those of its records; `DeleteRecord` locks the row of its record first and then
that of the zone. So a `DeleteRecord` and either of the others can wait for each other. In every
reachable state in which transactions are in progress one of them can go on, or two wait for each
other in this way, and both kinds of deadlock are reached (`progress_or_deadlock`).

`CreateZone` and `UpdateZone` write one row, and nobody waits for them.
-/

set_option autoImplicit false

namespace ShardDNS.Store.Transactions

open Go ReadCommitted Tables

variable {md5 : Bytes → Bytes} {t : Tables} {s : System} {before after : List Tx} {tx u : Tx}
  {zone : Bytes}

/-! ## Going on -/

/-- The call can go on: its next statement finds its rows free, or the call returns. -/
inductive Moves (md5 : Bytes → Bytes) (t : Tables) (free : RowKey → Prop) : Tx → Prop where
  | statement {tx tx' : Tx} (next : Statement md5 t free tx tx') : Moves md5 t free tx
  | noZone {r : Record} {now : Int} {w : Writes RowKey.Row}
      (absent : w.view t (.zone (normalizeZone r.zone)) = none) :
        Moves md5 t free ⟨.create r .begun, now, w⟩
  | conflicting {r : Record} {now : Int} {w : Writes RowKey.Row}
      (conflicts : Conflicts (w.view t) (r.key md5)) :
      Moves md5 t free ⟨.create r .bumped, now, w⟩
  | noRecord {zone name rtype rdata : Bytes} {now : Int} {w : Writes RowKey.Row}
      (absent : w.view t (.record (keyOf md5 zone name rtype rdata)) = none) :
      Moves md5 t free ⟨.delete zone name rtype rdata .begun, now, w⟩
  | noDrop {name : Bytes} {now : Int} {w : Writes RowKey.Row}
      (absent : w.view t (.zone (normalizeZone name)) = none) :
      Moves md5 t free ⟨.drop name .begun, now, w⟩
  | commit {tx : Tx} (ended : tx.task.Ended) : Moves md5 t free tx

/-- A row of a record that `CreateRecord` or `DeleteZone` is to write next. -/
def Needs (md5 : Bytes → Bytes) (t : Tables) (tx : Tx) (k : RecordKey) : Prop :=
  match tx.task with
  | .create r .checked => k = r.key md5
  | .create r .inserted => Stale (tx.writes.view t) (r.key md5) r.ttl k
  | .drop _ (.cascading (k' :: _)) => k = k'
  | _ => False

/-- The one holds the row of the zone and needs a row that the other has deleted, which waits for
the row of the zone. -/
structure Deadlock (md5 : Bytes → Bytes) (t : Tables) (holder delete : Tx) : Prop where
  locked : holder.writes (.zone holder.task.zone) ≠ none
  same : delete.task.zone = holder.task.zone
  waits : ∃ zone name rtype rdata, delete.task = .delete zone name rtype rdata .deleted ∧
    Needs md5 t holder (keyOf md5 zone name rtype rdata)

/-- A call of the state can go on, or two wait for each other. -/
def Unstuck (md5 : Bytes → Bytes) (s : System) : Prop :=
  (∃ before tx after, s.txs = before ++ tx :: after ∧
    Moves md5 s.tables (Free (before ++ after)) tx) ∨
    ∃ holder ∈ s.txs, ∃ delete ∈ s.txs, Deadlock md5 s.tables holder delete

/-! ## Who holds a row -/

/-- A transaction that has written a record holds the row of its zone, or has just deleted it. -/
theorem Sound.holder (sound : Sound md5 t tx) {k : RecordKey}
    (written : tx.writes (.record k) ≠ none) :
    tx.task.zone = k.zone ∧ (tx.writes (.zone k.zone) ≠ none ∨
      ∃ zone name rtype rdata, tx.task = .delete zone name rtype rdata .deleted ∧
        keyOf md5 zone name rtype rdata = k) := by
  have within : ∀ {zone : Bytes} {w : Writes RowKey.Row} {f : Tables → Tables}, Holds t zone w f →
      w (.record k) ≠ none → zone = k.zone ∧ w (.zone k.zone) ≠ none := by
    intro zone w f holds written
    have inside : zone = k.zone := by
      by_contra apart
      exact written (holds.within _ fun same => apart same.symm)
    exact ⟨inside, inside ▸ holds.locked⟩
  cases sound with
  | begun begun => exact absurd rfl written
  | bumped stored holds => exact (within holds written).imp_right .inl
  | checked stored clear holds => exact (within holds written).imp_right .inl
  | inserted stored clear holds => exact (within holds written).imp_right .inl
  | updated stored clear holds => exact (within holds written).imp_right .inl
  | @deleted zone name rtype rdata now stored =>
      have here : keyOf md5 zone name rtype rdata = k := by
        by_contra apart
        refine written ?_
        dsimp only
        rw [Function.update_of_ne fun keys => apart (RowKey.record.inj keys).symm]
        rfl
      subst here
      exact ⟨rfl, .inr ⟨zone, name, rtype, rdata, rfl, rfl⟩⟩
  | deletedBumped stored holds => exact (within holds written).imp_right .inl
  | dropped stored once inside holds => exact (within holds written).imp_right .inl

/-- A `DeleteRecord` before its last statement holds its record, which is there, and no row of a
zone. -/
theorem Sound.deleted_holds {name rtype rdata : Bytes} (sound : Sound md5 t tx)
    (deletes : tx.task = .delete zone name rtype rdata .deleted) :
    t (.record (keyOf md5 zone name rtype rdata)) ≠ none ∧
      tx.writes (.record (keyOf md5 zone name rtype rdata)) ≠ none ∧
      ∀ name, tx.writes (.zone name) = none := by
  cases sound with
  | begun begun =>
      cases deletes
      cases begun
  | bumped | checked | inserted | updated | deletedBumped | dropped => cases deletes
  | deleted stored =>
      cases deletes
      refine ⟨stored, ?_, fun name => ?_⟩
      · dsimp only
        rw [Function.update_self]
        exact Option.some_ne_none _
      · dsimp only
        rw [Function.update_of_ne (by rintro ⟨⟩)]
        rfl

/-- A row that is not free is held by another. -/
theorem exists_holder {txs : List Tx} {k : RowKey} (taken : ¬ Free txs k) :
    ∃ u ∈ txs, u.writes k ≠ none := by
  simpa only [Free, not_forall, exists_prop] using taken

theorem unstuck_of_moves (moves : Moves md5 t (Free (before ++ after)) tx) :
    Unstuck md5 ⟨t, before ++ tx :: after⟩ :=
  .inl ⟨before, tx, after, rfl, moves⟩

/-- Two transactions that have written one row are one. -/
theorem Inv.not_held (inv : Inv md5 ⟨t, before ++ tx :: after⟩) {other : Tx}
    (member : other ∈ before ++ after) {k : RowKey} (held : tx.writes k ≠ none) :
    other.writes k = none :=
  (((exclusive_middle.mp inv.exclusive).1 other member).symm).free held

theorem mem_of_mem_others (tx : Tx) {other : Tx} (member : other ∈ before ++ after) :
    other ∈ before ++ tx :: after :=
  List.mem_append.mpr ((List.mem_append.mp member).imp_right (List.mem_cons_of_mem _))

/-- **What a call that holds the row of its zone waits for has been deleted by one that waits for
it.** -/
theorem Inv.deadlock_of_needs (inv : Inv md5 ⟨t, before ++ tx :: after⟩)
    (locked : tx.writes (.zone tx.task.zone) ≠ none) {k : RecordKey}
    (inside : k.zone = tx.task.zone) (needs : Needs md5 t tx k)
    (taken : ¬ Free (before ++ after) (.record k)) :
    Unstuck md5 ⟨t, before ++ tx :: after⟩ := by
  obtain ⟨u, member, written⟩ := exists_holder taken
  obtain ⟨same, locked' | ⟨zone, name, rtype, rdata, deletes, rfl⟩⟩ :=
    (inv.sound_others u member).holder written
  · rw [inside] at locked'
    exact absurd (inv.not_held member locked) locked'
  · refine .inr ⟨tx, List.mem_append_cons_self, u, mem_of_mem_others tx member, locked,
      same.trans inside, ?_⟩
    exact ⟨zone, name, rtype, rdata, deletes, needs⟩

/-- **Whoever holds the row of a zone can go on, or is in a deadlock.** -/
theorem Inv.unstuck_of_locked (inv : Inv md5 ⟨t, before ++ tx :: after⟩)
    (locked : tx.writes (.zone zone) ≠ none) :
    Unstuck md5 ⟨t, before ++ tx :: after⟩ := by
  have sound := inv.sound_middle
  cases sound with
  | begun begun => exact absurd rfl locked
  | @bumped r now w stored holds =>
      by_cases conflicts : Conflicts (w.view t) (r.key md5)
      · exact unstuck_of_moves (.conflicting conflicts)
      · exact unstuck_of_moves (.statement (.check conflicts))
  | @checked r now w stored clear holds =>
      by_cases free : Free (before ++ after) (.record (r.key md5))
      · exact unstuck_of_moves (.statement (.insert 0 free))
      · exact inv.deadlock_of_needs holds.locked rfl rfl free
  | @inserted r now w id stored clear holds =>
      by_cases free : ∀ k, Stale (w.view t) (r.key md5) r.ttl k → Free (before ++ after) (.record k)
      · exact unstuck_of_moves (.statement (.update free))
      · simp only [not_forall, exists_prop] at free
        obtain ⟨k, stale, taken⟩ := free
        exact inv.deadlock_of_needs holds.locked stale.1.1 stale taken
  | updated stored clear holds => exact unstuck_of_moves (.commit rfl)
  | deleted stored => exact absurd ((inv.sound_middle.deleted_holds rfl).2.2 zone) locked
  | deletedBumped stored holds => exact unstuck_of_moves (.commit rfl)
  | @dropped name now w rest stored once inside holds =>
      cases rest with
      | nil => exact unstuck_of_moves (.commit rfl)
      | cons k rest =>
          by_cases found : w.view t (.record k) = none
          · exact unstuck_of_moves (.statement (.cascadeNothing found))
          · by_cases free : Free (before ++ after) (.record k)
            · exact unstuck_of_moves (.statement (.cascade found free))
            · exact inv.deadlock_of_needs holds.locked (inside k List.mem_cons_self) rfl free

/-- A call that waits for the row of a zone waits for one that can go on. -/
theorem Inv.unstuck_of_taken (inv : Inv md5 ⟨t, before ++ tx :: after⟩)
    (taken : ¬ Free (before ++ after) (.zone zone)) :
    Unstuck md5 ⟨t, before ++ tx :: after⟩ := by
  obtain ⟨u, member, locked⟩ := exists_holder taken
  obtain ⟨before', after', split⟩ := List.append_of_mem (mem_of_mem_others tx member)
  rw [split] at inv ⊢
  exact inv.unstuck_of_locked locked

/-- A `DeleteRecord` that has deleted its record goes on once the row of the zone is free. -/
theorem Inv.unstuck_of_deleted {name rtype rdata : Bytes} (inv : Inv md5 ⟨t, before ++ tx :: after⟩)
    (deletes : tx.task = .delete zone name rtype rdata .deleted) :
    Unstuck md5 ⟨t, before ++ tx :: after⟩ := by
  obtain ⟨task, now, w⟩ := tx
  cases deletes
  by_cases free : Free (before ++ after) (.zone (normalizeZone zone))
  · cases found : w.view t (.zone (normalizeZone zone)) with
    | none => exact unstuck_of_moves (.statement (.bumpNothing found))
    | some z => exact unstuck_of_moves (.statement (.bumpAfter found free))
  · exact inv.unstuck_of_taken free

/-- A call in progress can go on, or two are in a deadlock. -/
theorem Inv.unstuck (inv : Inv md5 ⟨t, before ++ tx :: after⟩) :
    Unstuck md5 ⟨t, before ++ tx :: after⟩ := by
  have sound := inv.sound_middle
  cases sound with
  | @begun task now begun =>
      cases task with
      | create r point =>
          cases begun
          cases found : t (.zone (normalizeZone r.zone)) with
          | none => exact unstuck_of_moves (.noZone found)
          | some z =>
              by_cases free : Free (before ++ after) (.zone (normalizeZone r.zone))
              · exact unstuck_of_moves (.statement (.bump found free))
              · exact inv.unstuck_of_taken free
      | delete zone name rtype rdata point =>
          cases begun
          by_cases found : t (.record (keyOf md5 zone name rtype rdata)) = none
          · exact unstuck_of_moves (.noRecord found)
          · by_cases free : Free (before ++ after) (.record (keyOf md5 zone name rtype rdata))
            · exact unstuck_of_moves (.statement (.delete found free))
            · -- its record is held by a call that holds the zone, or by one that has deleted it
              obtain ⟨u, member, written⟩ := exists_holder free
              have holder := (inv.sound_others u member).holder written
              obtain ⟨before', after', split⟩ := List.append_of_mem
                (mem_of_mem_others ⟨.delete zone name rtype rdata .begun, now, Writes.empty⟩ member)
              rw [split] at inv ⊢
              obtain ⟨-, locked | ⟨zone', name', rtype', rdata', deletes, -⟩⟩ := holder
              · exact inv.unstuck_of_locked locked
              · exact inv.unstuck_of_deleted deletes
      | drop name point =>
          cases begun
          by_cases found : t (.zone (normalizeZone name)) = none
          · exact unstuck_of_moves (.noDrop found)
          · by_cases free : Free (before ++ after) (.zone (normalizeZone name))
            · obtain ⟨rest, once, all⟩ := inv.listed.ofZone (normalizeZone name)
              exact unstuck_of_moves (.statement (.drop found free once all))
            · exact inv.unstuck_of_taken free
  | bumped stored holds => exact inv.unstuck_of_locked holds.locked
  | checked stored clear holds => exact inv.unstuck_of_locked holds.locked
  | inserted stored clear holds => exact inv.unstuck_of_locked holds.locked
  | updated stored clear holds => exact inv.unstuck_of_locked holds.locked
  | deleted stored => exact inv.unstuck_of_deleted rfl
  | deletedBumped stored holds => exact inv.unstuck_of_locked holds.locked
  | dropped stored once inside holds => exact inv.unstuck_of_locked holds.locked

/-! ## Waiting for each other -/

/-- The one cannot go on: its next statement needs the row that the other has deleted. -/
theorem Inv.not_moves_holder {delete : Tx} (inv : Inv md5 ⟨t, before ++ tx :: after⟩)
    (member : delete ∈ before ++ after) (deadlock : Deadlock md5 t tx delete) :
    ¬ Moves md5 t (Free (before ++ after)) tx := by
  obtain ⟨zone, name, rtype, rdata, deletes, needs⟩ := deadlock.waits
  obtain ⟨stored, held, -⟩ := (inv.sound_others delete member).deleted_holds deletes
  intro moves
  cases moves with
  | statement next =>
      cases next with
      | insert id unlocked =>
          rw [show keyOf md5 zone name rtype rdata = _ from needs] at held
          exact held (unlocked delete member)
      | update unlocked => exact held (unlocked _ needs delete member)
      | cascade found unlocked =>
          rw [show keyOf md5 zone name rtype rdata = _ from needs] at held
          exact held (unlocked delete member)
      | @cascadeNothing _ _ w k _ absent =>
          -- the row is there still, since the other has not committed
          rw [show keyOf md5 zone name rtype rdata = k from needs] at held stored
          have free : w (.record k) = none :=
            ((exclusive_middle.mp inv.exclusive).1 delete member).free held
          rw [Writes.view_of_free free] at absent
          exact stored absent
      | bump | check | delete | bumpAfter | bumpNothing | drop => exact needs
  | noZone | conflicting | noRecord | noDrop => exact needs
  | commit ended =>
      obtain ⟨task, now, w⟩ := tx
      cases task with
      | create r point =>
          cases ended
          exact needs
      | delete zone' name' rtype' rdata' point => exact needs
      | drop name' point =>
          cases ended
          exact needs

/-- Nor can the other: its next statement needs the row of the zone. -/
theorem Inv.not_moves_delete {holder : Tx} (inv : Inv md5 ⟨t, before ++ tx :: after⟩)
    (member : holder ∈ before ++ after) (deadlock : Deadlock md5 t holder tx) :
    ¬ Moves md5 t (Free (before ++ after)) tx := by
  obtain ⟨zone, name, rtype, rdata, deletes, -⟩ := deadlock.waits
  obtain ⟨stored, -, unlocked⟩ := inv.sound_middle.deleted_holds deletes
  have held := deadlock.locked
  have same := deadlock.same
  obtain ⟨task, now, w⟩ := tx
  cases deletes
  intro moves
  cases moves with
  | statement next =>
      cases next with
      | bumpAfter found free =>
          rw [← same] at held
          exact held (free holder member)
      | bumpNothing absent =>
          rw [Writes.view_of_free (unlocked _)] at absent
          exact inv.key _ stored absent
  | commit ended => cases ended

/-! ## Deadlocks that are reached -/

/-- The alias is in the tables. -/
def aliasStored (md5 : Bytes → Bytes) : Tables :=
  aliasTables.createRecord 0 1 (aliasRecord.key md5) 60 (ascii "b.a")

/-- Its zone then. -/
def aliasZoneStored : Zone := { Zone.plain (ascii "a") with serial := 2 }

theorem zone_aliasStored (md5 : Bytes → Bytes) :
    aliasStored md5 (.zone (normalizeZone (ascii "a"))) = some aliasZoneStored := by
  rw [aliasStored, zone_createRecord]
  change aliasTables.bump 0 (normalizeZone (ascii "a")) _ = _
  decide +kernel

theorem record_aliasStored_iff {k : RecordKey} :
    aliasStored md5 (.record k) ≠ none ↔ k = aliasRecord.key md5 := by
  have empty : aliasTables (.record k) = none := update_zone_record ..
  rw [aliasStored, record_createRecord_ne_none, empty]
  simp

theorem not_conflicts_stored (md5 : Bytes → Bytes) :
    ¬ (aliasStored md5).Conflicts (aliasRecord.key md5) := by
  rw [Conflicts, if_pos (type_alias md5)]
  rintro (apex | ⟨k, stored, -, -, other⟩)
  · exact name_alias_ne_zone md5 apex
  · -- the alias is the only record there is
    rw [record_aliasStored_iff.mp stored] at other
    exact other.elim (fun type => type (type_alias md5)) fun digest => digest rfl

/-- The alias is created once more. -/
def recreating (point : CreatePoint) : Tx :=
  ⟨.create aliasRecord point, 0,
    Function.update Writes.empty (.zone (normalizeZone (ascii "a")))
      (some (some (bumpSerial 0 aliasZoneStored)))⟩

/-- Its zone is deleted. -/
def dropping (md5 : Bytes → Bytes) : Tx :=
  ⟨.drop (ascii "a") (.cascading [aliasRecord.key md5]), 0,
    Function.update Writes.empty (.zone (normalizeZone (ascii "a"))) (some none)⟩

/-- And the alias itself is. -/
def deleting (md5 : Bytes → Bytes) : Tx :=
  ⟨.delete (ascii "a") (ascii "w") (ascii "cname") (ascii "b.a") .deleted, 0,
    Function.update Writes.empty (.record (aliasRecord.key md5)) (some none)⟩

/-- A call that has no more than the row of the zone lets another delete the alias. -/
theorem run_deleting {holder : Tx} (apart : holder.writes (.record (aliasRecord.key md5)) = none) :
    Run md5 ⟨aliasStored md5, [holder]⟩
      [.began (deleting md5).task.call, .ran (deleting md5).task.call]
      ⟨aliasStored md5, [deleting md5, holder]⟩ := by
  have stored : aliasStored md5 (.record (aliasRecord.key md5)) ≠ none :=
    record_aliasStored_iff.mpr rfl
  have unlocked : Free [holder] (.record (aliasRecord.key md5)) := by
    intro tx member
    rw [List.mem_singleton.mp member]
    exact apart
  refine .cons (@Step.begin md5 _
    (.delete (ascii "a") (ascii "w") (ascii "cname") (ascii "b.a") .begun) 0 rfl) ?_
  exact .cons (@Step.statement md5 (aliasStored md5) [] [holder] _ (deleting md5)
    (.delete stored unlocked)) .nil

/-- `CreateRecord` comes to its check. -/
theorem run_recreating (md5 : Bytes → Bytes) : Run md5 ⟨aliasStored md5, []⟩
    [.began (.createRecord aliasRecord), .ran (.createRecord aliasRecord),
      .ran (.createRecord aliasRecord)]
    ⟨aliasStored md5, [recreating .checked]⟩ := by
  have found := zone_aliasStored md5
  have free : ∀ k, Free [] k := fun k tx never => by cases never
  have clear : ¬ Conflicts ((recreating .bumped).writes.view (aliasStored md5))
      (aliasRecord.key md5) := by
    have sees : (recreating .bumped).writes.view (aliasStored md5) =
        (aliasStored md5).bump 0 (normalizeZone (ascii "a")) := by
      rw [recreating, Writes.view_set, Writes.view_empty, bump, found]
      rfl
    rw [sees]
    intro conflicts
    exact not_conflicts_stored md5 (by simpa only [Conflicts, record_bump] using conflicts)
  refine .cons (@Step.begin md5 _ (.create aliasRecord .begun) 0 rfl) ?_
  refine .cons (statement_alone (.bump found (free _))) ?_
  exact .cons (@statement_alone md5 _ (recreating .bumped) (recreating .checked) (.check clear))
    .nil

/-- `DeleteZone` comes to the records of the zone. -/
theorem run_dropping (md5 : Bytes → Bytes) : Run md5 ⟨aliasStored md5, []⟩
    [.began (.deleteZone (ascii "a")), .ran (.deleteZone (ascii "a"))]
    ⟨aliasStored md5, [dropping md5]⟩ := by
  have found : aliasStored md5 (.zone (normalizeZone (ascii "a"))) ≠ none := by
    rw [zone_aliasStored]
    exact Option.some_ne_none _
  have all : ∀ k, k ∈ [aliasRecord.key md5] ↔
      k.zone = normalizeZone (ascii "a") ∧ aliasStored md5 (.record k) ≠ none := by
    intro k
    rw [List.mem_singleton, record_aliasStored_iff]
    refine ⟨fun same => ⟨?_, same⟩, fun both => both.2⟩
    rw [same]
    rfl
  refine .cons (@Step.begin md5 _ (.drop (ascii "a") .begun) 0 rfl) ?_
  exact .cons (@statement_alone md5 _ _ (dropping md5)
    (.drop found (fun tx never => by cases never) (List.nodup_singleton _) all)) .nil

/-- The two calls wait for each other. -/
theorem deadlock_of_needs_alias {holder : Tx} (zone : holder.task.zone = normalizeZone (ascii "a"))
    (locked : holder.writes (.zone (normalizeZone (ascii "a"))) ≠ none)
    (needs : Needs md5 (aliasStored md5) holder (aliasRecord.key md5)) :
    Deadlock md5 (aliasStored md5) holder (deleting md5) :=
  ⟨zone ▸ locked, zone.symm, _, _, _, _, rfl, needs⟩

theorem run_aliasStored (md5 : Bytes → Bytes) :
    Run md5 .start (.returned (.createZone (Zone.plain (ascii "a"))) .ok :: aliasLabels)
      ⟨aliasStored md5, []⟩ := (run_aliasZone md5).append (run_createAlias md5)

/-! ## Every reachable state -/

/-- **In every reachable state a transaction in progress can go on, or two wait for each other**: a
`CreateRecord` or a `DeleteZone` that holds the row of its zone, and a `DeleteRecord` that has
deleted a row the first is to write next. Of two such calls neither can go on. Both kinds of
deadlock are reached. -/
theorem progress_or_deadlock (md5 : Bytes → Bytes) :
    (∀ labels s, Run md5 .start labels s →
      (s.txs ≠ [] → Unstuck md5 s) ∧
      (∀ before tx after other, s.txs = before ++ tx :: after → other ∈ before ++ after →
        Deadlock md5 s.tables tx other ∨ Deadlock md5 s.tables other tx →
          ¬ Moves md5 s.tables (Free (before ++ after)) tx)) ∧
    (∃ labels s holder delete r, Run md5 .start labels s ∧ s.txs = [delete, holder] ∧
      holder.task.call = .createRecord r ∧ Deadlock md5 s.tables holder delete) ∧
    ∃ labels s holder delete name, Run md5 .start labels s ∧ s.txs = [delete, holder] ∧
      holder.task.call = .deleteZone name ∧ Deadlock md5 s.tables holder delete := by
  refine ⟨fun labels s run => ?_, ?_, ?_⟩
  · have inv := inv_start.run run
    obtain ⟨t, txs⟩ := s
    constructor
    · intro busy
      obtain ⟨tx, rest, rfl⟩ := List.exists_cons_of_ne_nil busy
      exact @Inv.unstuck md5 t [] rest tx inv
    · rintro before tx after other rfl member (deadlock | deadlock)
      · exact inv.not_moves_holder member deadlock
      · exact inv.not_moves_delete member deadlock
  · have run := ((run_aliasStored md5).append (run_recreating md5)).append
      (run_deleting rfl)
    refine ⟨_, _, _, _, aliasRecord, run, rfl, rfl, deadlock_of_needs_alias rfl ?_ rfl⟩
    dsimp only [recreating]
    rw [Function.update_self]
    exact Option.some_ne_none _
  · have run := ((run_aliasStored md5).append (run_dropping md5)).append
      (run_deleting rfl)
    refine ⟨_, _, _, _, ascii "a", run, rfl, rfl, deadlock_of_needs_alias rfl ?_ rfl⟩
    dsimp only [dropping]
    rw [Function.update_self]
    exact Option.some_ne_none _

end ShardDNS.Store.Transactions

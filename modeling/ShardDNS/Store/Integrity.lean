import ShardDNS.Store.Transactions

/-!
# What every interleaving of write calls keeps

Since every call that succeeds does what it does alone (`Transactions.Step.does`), what
runs of calls one after the other keep is kept by every interleaving of their statements:
CNAME records stand alone (`cnameExclusive_of_run`), an RRset has one TTL, the one asked
for last (`ttl_of_run`), and no two versions of a zone have the same serial
(`serial_of_run`).
-/

set_option autoImplicit false

namespace ShardDNS.Store.Transactions

open Go ReadCommitted Tables

variable {md5 : Bytes → Bytes} {s s' : System} {labels : List Label}

/-! ## Runs -/

theorem Run.append {s'' : System} {more : List Label} (run : Run md5 s labels s')
    (rest : Run md5 s' more s'') : Run md5 s (labels ++ more) s'' := by
  induction run with
  | nil => exact rest
  | cons first _ ih => exact .cons first (ih rest)

/-- A run passes through what happens in it. -/
theorem Run.split {l : Label} {before after : List Label}
    (run : Run md5 s (before ++ l :: after) s') :
    ∃ a b, Run md5 s before a ∧ Step md5 a l b ∧ Run md5 b after s' := by
  induction before generalizing s with
  | nil =>
      cases run with
      | cons first rest => exact ⟨s, _, .nil, first, rest⟩
  | cons first' before ih =>
      cases run with
      | cons first rest =>
          obtain ⟨a, b, early, step, late⟩ := ih rest
          exact ⟨a, b, .cons first early, step, late⟩

/-- What every call keeps that succeeds is kept by every run. -/
theorem Run.keeps {P : Tables → Prop} (run : Run md5 s labels s') (inv : Inv md5 s)
    (kept : ∀ {t t' : Tables} {call : WriteCall}, .returned call .ok ∈ labels → Does md5 t call t' →
      P t → P t')
    (holds : P s.tables) : P s'.tables := by
  induction run with
  | nil => exact holds
  | cons first _ ih =>
      refine ih (inv.step first) (fun member => kept (List.mem_cons_of_mem _ member)) ?_
      rcases first.does inv with ⟨call, rfl, does⟩ | ⟨-, same⟩
      · exact kept List.mem_cons_self does holds
      · rw [same]
        exact holds

/-! ## Calls that run alone -/

theorem statement_alone {t : Tables} {tx tx' : Tx} (next : Statement md5 t (Free []) tx tx') :
    Step md5 ⟨t, [tx]⟩ (.ran tx.task.call) ⟨t, [tx']⟩ :=
  @Step.statement md5 t [] [] tx tx' next

theorem commit_alone {t : Tables} {tx : Tx} (ended : tx.task.Ended) :
    Step md5 ⟨t, [tx]⟩ (.returned tx.task.call .ok) ⟨tx.writes.view t, []⟩ :=
  @Step.commit md5 t [] [] tx ended

/-- A transaction with no other beside it goes through its statements and commits. -/
theorem run_createRecord (md5 : Bytes → Bytes) (t : Tables) (r : Record) (now : Int) (id : Nat)
    (stored : t (.zone (normalizeZone r.zone)) ≠ none) (clear : ¬ t.Conflicts (r.key md5)) :
    Run md5 ⟨t, []⟩
      [.began (.createRecord r), .ran (.createRecord r), .ran (.createRecord r),
        .ran (.createRecord r), .ran (.createRecord r), .returned (.createRecord r) .ok]
      ⟨t.createRecord now id (r.key md5) r.ttl r.rdata, []⟩ := by
  obtain ⟨z, found⟩ := Option.ne_none_iff_exists'.mp stored
  let bumped : Writes RowKey.Row :=
    Function.update Writes.empty (.zone (normalizeZone r.zone)) (some (some (bumpSerial now z)))
  let inserted : Writes RowKey.Row :=
    Function.update bumped (.record (r.key md5))
      (some (some (upsertRow (bumped.view t) id (r.key md5) r.ttl r.rdata)))
  let updated : Writes RowKey.Row := writeTTL inserted (inserted.view t) (r.key md5) r.ttl
  have seesBumped : bumped.view t = t.bump now (normalizeZone r.zone) := by
    rw [Writes.view_set, Writes.view_empty, bump, found]
    rfl
  have seesUpdated : updated.view t = t.createRecord now id (r.key md5) r.ttl r.rdata := by
    rw [view_writeTTL, Writes.view_set, seesBumped]
    rfl
  have free : ∀ k, Free [] k := fun k tx never => by cases never
  have clearStill : ¬ Conflicts (bumped.view t) (r.key md5) := by
    rw [seesBumped]
    exact fun conflicts => clear (by simpa only [Conflicts, record_bump] using conflicts)
  rw [← seesUpdated]
  refine .cons (@Step.begin md5 _ (.create r .begun) now rfl) ?_
  refine .cons (statement_alone (.bump found (free _))) ?_
  refine .cons (statement_alone (.check clearStill)) ?_
  refine .cons (statement_alone (.insert id (free _))) ?_
  refine .cons (statement_alone (.update fun k _ => free _)) ?_
  exact .cons (commit_alone rfl) .nil

/-! ## CNAME records -/

/-- **CNAME records stand alone in every interleaving.** -/
theorem cnameExclusive_of_run (run : Run md5 .start labels s) : s.tables.CnameExclusive :=
  run.keeps inv_start (fun _ does => does.cnameExclusive) cnameExclusive_empty

/-- An alias in the zone `a`. -/
def aliasRecord : Record :=
  { zone := ascii "a", name := ascii "w", type := ascii "cname", ttl := 60, rdata := ascii "b.a" }

/-- The tables once the zone is created. -/
def aliasTables : Tables :=
  Function.update Tables.empty (.zone (ascii "a")) (some (Zone.plain (ascii "a")))

theorem run_aliasZone (md5 : Bytes → Bytes) :
    Run md5 .start [.returned (.createZone (Zone.plain (ascii "a"))) .ok] ⟨aliasTables, []⟩ := by
  have does : Does md5 Tables.empty (.createZone (Zone.plain (ascii "a"))) aliasTables :=
    .createZone 1 (by decide +kernel) rfl
  exact .cons (.zoneCall rfl does fun tx never => by cases never) .nil

theorem type_alias (md5 : Bytes → Bytes) : (aliasRecord.key md5).type = ascii "CNAME" := by
  change normalizeType (ascii "cname") = ascii "CNAME"
  decide +kernel

theorem name_alias_ne_zone (md5 : Bytes → Bytes) :
    (aliasRecord.key md5).name ≠ (aliasRecord.key md5).zone := by
  change normalizeName (normalizeZone (ascii "a")) (ascii "w") ≠ normalizeZone (ascii "a")
  decide +kernel

theorem not_conflicts_alias (md5 : Bytes → Bytes) :
    ¬ aliasTables.Conflicts (aliasRecord.key md5) := by
  rw [Conflicts, if_pos (type_alias md5)]
  rintro (apex | ⟨k, stored, -⟩)
  · exact name_alias_ne_zone md5 apex
  · rw [aliasTables, update_zone_record] at stored
    exact stored rfl

/-- The alias is created, at a time before the zone was. -/
def aliasLabels : List Label :=
  [.began (.createRecord aliasRecord), .ran (.createRecord aliasRecord),
    .ran (.createRecord aliasRecord), .ran (.createRecord aliasRecord),
    .ran (.createRecord aliasRecord), .returned (.createRecord aliasRecord) .ok]

theorem drops_aliasLabels (zone : Bytes) :
    ∀ call, .returned call .ok ∈ aliasLabels → call.drops ≠ some zone := by
  intro call member
  simp only [aliasLabels, List.mem_cons, List.not_mem_nil, reduceCtorEq, or_false, false_or,
    Label.returned.injEq] at member
  rw [member.1]
  exact nofun

theorem run_createAlias (md5 : Bytes → Bytes) : Run md5 ⟨aliasTables, []⟩ aliasLabels
    ⟨aliasTables.createRecord 0 1 (aliasRecord.key md5) 60 (ascii "b.a"), []⟩ :=
  run_createRecord md5 aliasTables aliasRecord 0 1 (by decide +kernel) (not_conflicts_alias md5)

theorem cnameExclusive_of_run_alias : ∃ labels s, Run id .start labels s ∧
    s.tables (.record (aliasRecord.key id)) = some ⟨1, 60, ascii "b.a"⟩ ∧
      s.tables.CnameExclusive := by
  have run := (run_aliasZone id).append (run_createAlias id)
  exact ⟨_, _, run, by decide +kernel, cnameExclusive_of_run run⟩

/-! ## TTLs -/

/-- **An RRset has one TTL in every interleaving, the one the last call to create a record of
it asked for.** -/
theorem ttl_of_run (run : Run md5 .start labels s) :
    s.tables.UniformTTL ∧
      ∀ (before after : List Label) (r : Record),
        labels = before ++ .returned (.createRecord r) .ok :: after →
        (∀ r', .returned (.createRecord r') .ok ∈ after → ¬ SameRRset (r'.key md5) (r.key md5)) →
          s.tables.RRsetTTL (r.key md5) r.ttl := by
  refine ⟨run.keeps inv_start (fun _ does => does.uniformTTL) fun _ _ _ _ never => (by cases never),
    fun before after r split alone => ?_⟩
  subst split
  obtain ⟨a, b, early, step, late⟩ := run.split
  have inv := inv_start.run early
  obtain ⟨_, ⟨⟩, does⟩ | ⟨never, -⟩ := step.does inv
  · refine late.keeps (P := fun t => t.RRsetTTL (r.key md5) r.ttl) (inv.step step)
      (fun member does' => ?_) does.rrsetTTL_of_create
    refine does'.rrsetTTL fun r' made => ?_
    subst made
    exact alone r' member
  · exact absurd rfl (never (.createRecord r))

theorem ttl_of_run_alias : ∃ labels s, Run id .start labels s ∧ s.tables.UniformTTL ∧
    s.tables (.record (aliasRecord.key id)) ≠ none ∧ s.tables.RRsetTTL (aliasRecord.key id) 60 := by
  have run := (run_aliasZone id).append (run_createAlias id)
  have ttl := ttl_of_run run
  exact ⟨_, _, run, ttl.1, by decide +kernel,
    ttl.2 [_, _, _, _, _, _] [] aliasRecord rfl fun _ never => by cases never⟩

/-! ## Serials -/

/-- The call has returned and the zone is a new version of itself. -/
def Label.changes (zone : Bytes) : Label → Bool
  | .returned call .ok => call.bumps = some zone
  | _ => false

/-- Versions of a zone, counted. -/
theorem Run.serial {zone : Bytes} {old : Zone} (run : Run md5 s labels s') (inv : Inv md5 s)
    (stored : s.tables (.zone zone) = some old)
    (kept : ∀ call, .returned call .ok ∈ labels → call.drops ≠ some zone) :
    ∃ new, s'.tables (.zone zone) = some new ∧
      old.serial + labels.countP (Label.changes zone) ≤ new.serial ∧
        (labels.countP (Label.changes zone) = 0 → new = old) := by
  induction run generalizing old with
  | nil => exact ⟨old, stored, by simp, fun _ => rfl⟩
  | @cons s a s' l labels first rest ih =>
      -- the first step leaves a version at least as new
      have next : ∃ mid, a.tables (.zone zone) = some mid ∧
          old.serial + (if l.changes zone then 1 else 0) ≤ mid.serial ∧
            (l.changes zone = false → mid = old) := by
        rcases first.does inv with ⟨call, rfl, does⟩ | ⟨unchanged, same⟩
        · obtain ⟨mid, found, raised, untouched⟩ :=
            does.zone stored (kept call List.mem_cons_self)
          refine ⟨mid, found, ?_, fun other => untouched (of_decide_eq_false other)⟩
          by_cases raises : call.bumps = some zone
          · have := raised raises
            simp only [Label.changes, raises, decide_true, if_true]
            omega
          · rw [untouched raises]
            simp [Label.changes, raises]
        · have quiet : l.changes zone = false := by
            match l with
            | .returned call .ok => exact absurd rfl (unchanged call)
            | .returned _ .notFound | .returned _ .conflict | .returned _ .failed => rfl
            | .began _ | .ran _ => rfl
          exact ⟨old, by rw [same]; exact stored, by simp [quiet], fun _ => rfl⟩
      obtain ⟨mid, found, raised, untouched⟩ := next
      obtain ⟨new, row, later, same⟩ := ih (inv.step first) found fun call member =>
        kept call (List.mem_cons_of_mem _ member)
      rw [List.countP_cons]
      refine ⟨new, row, ?_, fun quiet => ?_⟩
      · push_cast
        omega
      · rw [same (by omega), untouched]
        by_contra changes
        rw [if_pos (Bool.not_eq_false _ ▸ changes)] at quiet
        omega

/-- **No two versions of a zone have the same serial, and calls that fail change nothing.**
Every call that succeeds raises the serial; until the zone is deleted a serial is at least
as high as an earlier one and all changes since; and no step but the return of a call that
succeeds changes either table. -/
theorem serial_of_run (run : Run md5 .start labels s) :
    (∀ {call : WriteCall} {zone : Bytes} {s' : System}, Step md5 s (.returned call .ok) s' →
      call.bumps = some zone →
        ∃ old new, s.tables (.zone zone) = some old ∧ s'.tables (.zone zone) = some new ∧
          old.serial < new.serial) ∧
    (∀ {zone : Bytes} {old : Zone} {later : List Label} {s' : System}, Run md5 s later s' →
      s.tables (.zone zone) = some old →
      (∀ call, .returned call .ok ∈ later → call.drops ≠ some zone) →
        ∃ new, s'.tables (.zone zone) = some new ∧
          old.serial + later.countP (Label.changes zone) ≤ new.serial ∧
            (later.countP (Label.changes zone) = 0 → new = old)) ∧
    (∀ {l : Label} {s' : System}, Step md5 s l s' → (∀ call, l ≠ .returned call .ok) →
      s'.tables = s.tables) := by
  have inv : Inv md5 s := inv_start.run run
  refine ⟨fun step raises => ?_, fun rest stored kept => rest.serial inv stored kept,
    fun step failed => ?_⟩
  · obtain ⟨_, ⟨⟩, does⟩ | ⟨never, -⟩ := step.does inv
    · exact does.serial_lt inv.key raises
    · exact absurd rfl (never _)
  · obtain ⟨call, same, -⟩ | ⟨-, same⟩ := step.does inv
    · exact absurd same (failed call)
    · exact same

theorem serial_of_run_alias : ∃ s s',
    Run id .start [.returned (.createZone (Zone.plain (ascii "a"))) .ok] s ∧
      Run id s aliasLabels s' ∧ s.tables (.zone (ascii "a")) = some (Zone.plain (ascii "a")) ∧
      ∃ new, s'.tables (.zone (ascii "a")) = some new ∧ 2 ≤ new.serial := by
  have stored : aliasTables (.zone (ascii "a")) = some (Zone.plain (ascii "a")) := by decide +kernel
  obtain ⟨new, row, raised, -⟩ :=
    (serial_of_run (run_aliasZone id)).2.1 (run_createAlias id) stored
      (drops_aliasLabels (ascii "a"))
  have changes : aliasLabels.countP (Label.changes (ascii "a")) = 1 := by decide +kernel
  rw [changes] at raised
  exact ⟨_, _, run_aliasZone id, run_createAlias id, stored, new, row, raised⟩

end ShardDNS.Store.Transactions

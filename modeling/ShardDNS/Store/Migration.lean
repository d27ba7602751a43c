import Mathlib.Logic.Relation
import Mathlib.Logic.Function.Basic

/-!
# Migration

Every daemon calls `Migrate` when it starts, and any number of them may start at once. The call
takes an advisory lock of the database, looks whether both tables are there, and if they are not
sends the schema as one text, the statements of which are one transaction. The lock belongs to the
session: it is given back by the deferred call, or by the server once it finds the connection gone.
A call may fail at any point, a daemon may be killed, and what the server has done may not be heard
of.

Whatever happens, at most one session is between the lock and its return at a time, the schema is
committed at most once, and only to a database without the tables; and once some call has returned
without an error, all of the schema is there, the indexes included (`migrated_of_run`).
-/

set_option autoImplicit false

namespace ShardDNS.Store.Migration

/-! ## The schema -/

inductive SchemaObject where
  | zones
  | records
  | recordsRRsetMember
  | recordsNameRev
  deriving DecidableEq, Repr

/-- What `schema.sql` creates, in its order. -/
def schema : List SchemaObject := [.zones, .records, .recordsRRsetMember, .recordsNameRev]

/-- What there is in the database. -/
abbrev Catalog := SchemaObject → Bool

namespace Catalog

/-- `CREATE ... IF NOT EXISTS`. -/
def create (c : Catalog) (x : SchemaObject) : Catalog := Function.update c x true

/-- What a transaction has created is added to what there is. -/
def merge (c seen : Catalog) : Catalog := fun x => c x || seen x

/-- `to_regclass('zones') IS NOT NULL AND to_regclass('records') IS NOT NULL`. -/
def present (c : Catalog) : Bool := c .zones && c .records

def Complete (c : Catalog) : Prop := ∀ x, c x = true

theorem Complete.present {c : Catalog} (complete : c.Complete) : c.present = true := by
  rw [Catalog.present, complete, complete]
  rfl

end Catalog

theorem mem_schema (x : SchemaObject) : x ∈ schema := by
  cases x <;> decide

/-! ## Calls of `Migrate` -/

inductive MigrateError where
  | acquire
  | lock
  | check
  | apply
  | killed

/-- Where a call stands. While the schema is being applied, the transaction has statements left and
sees its own creations; afterwards the deferred call gives the lock back. -/
inductive Stage where
  | called
  | connected
  | locked
  | checked (present : Bool)
  | applying (todo : List SchemaObject) (seen : Catalog)
  | unlocking (result : Except MigrateError Unit)
  | returned (result : Except MigrateError Unit)

/-- The session is between taking the lock and giving it back. -/
def Stage.Inside : Stage → Prop
  | .locked | .checked _ | .applying _ _ | .unlocking _ => True
  | .called | .connected | .returned _ => False

/-- A move of a session that leaves the lock and the database as they are. -/
inductive Move (c : Catalog) : Stage → Stage → Prop where
  | acquire : Move c .called .connected
  | acquireFailed : Move c .called (.returned (.error .acquire))
  | lockFailed : Move c .connected (.returned (.error .lock))
  | check : Move c .locked (.checked c.present)
  | checkFailed : Move c .locked (.unlocking (.error .check))
  | found : Move c (.checked true) (.unlocking (.ok ()))
  | apply : Move c (.checked false) (.applying schema c)
  | create {x : SchemaObject} {todo : List SchemaObject} {seen : Catalog} :
      Move c (.applying (x :: todo) seen) (.applying todo (seen.create x))
  /-- The transaction is rolled back. -/
  | applyFailed {todo : List SchemaObject} {seen : Catalog} :
      Move c (.applying todo seen) (.unlocking (.error .apply))
  /-- The connection is lost before the lock is given back. -/
  | unlockFailed {result : Except MigrateError Unit} : Move c (.unlocking result) (.returned result)
  | killed {stage : Stage} (running : ∀ result, stage ≠ .returned result) :
      Move c stage (.returned (.error .killed))

/-- The database with the number of times the schema was committed, the session that has the lock,
and the calls. -/
structure State (S : Type) where
  catalog : Catalog
  commits : Nat
  holder : Option S
  stage : S → Stage

section Sessions

variable {S : Type} [DecidableEq S]

def start (c : Catalog) : State S :=
  { catalog := c, commits := 0, holder := none, stage := fun _ => .called }

inductive Step : State S → State S → Prop where
  | move {st : State S} {s : S} {stage : Stage} (next : Move st.catalog (st.stage s) stage) :
      Step st { st with stage := Function.update st.stage s stage }
  | lock {st : State S} {s : S} (waits : st.stage s = .connected) (free : st.holder = none) :
      Step st { st with holder := some s, stage := Function.update st.stage s .locked }
  /-- The lock is granted after the call has been given up, and its connection closed. -/
  | lockUnheard {st : State S} {s : S} (waits : st.stage s = .connected) (free : st.holder = none) :
      Step st
        { st with
          holder := some s, stage := Function.update st.stage s (.returned (.error .lock)) }
  | commit {st : State S} {s : S} {seen : Catalog} (ended : st.stage s = .applying [] seen) :
      Step st
        { st with
          catalog := st.catalog.merge seen, commits := st.commits + 1
          stage := Function.update st.stage s (.unlocking (.ok ())) }
  | commitUnheard {st : State S} {s : S} {seen : Catalog} (ended : st.stage s = .applying [] seen) :
      Step st
        { st with
          catalog := st.catalog.merge seen, commits := st.commits + 1
          stage := Function.update st.stage s (.unlocking (.error .apply)) }
  | unlock {st : State S} {s : S} {result : Except MigrateError Unit}
      (ends : st.stage s = .unlocking result)
      (has : st.holder = some s) :
      Step st { st with holder := none, stage := Function.update st.stage s (.returned result) }
  /-- The server finds the connection of the session gone. -/
  | expire {st : State S} {s : S} {result : Except MigrateError Unit}
      (gone : st.stage s = .returned result)
      (has : st.holder = some s) : Step st { st with holder := none }

/-! ## The invariant -/

/-- What is known of a session at a stage. -/
def Fits (c : Catalog) (holder : Option S) (s : S) : Stage → Prop
  | .called | .connected => True
  | .locked => holder = some s
  | .checked present => holder = some s ∧ present = c.present
  | .applying todo seen =>
      holder = some s ∧ c.present = false ∧ (∀ x, c x = true → seen x = true) ∧
        ∀ x, x ∈ todo ∨ seen x = true
  | .unlocking result => holder = some s ∧ (result = .ok () → c.present = true)
  | .returned result => result = .ok () → c.present = true

/-- What holds of all, from a database with this in it. -/
structure Inv (c₀ : Catalog) (st : State S) : Prop where
  once : st.commits = 0 ∧ st.catalog = c₀ ∨ st.commits = 1 ∧ st.catalog.Complete ∧
    c₀.present = false
  fits : ∀ s, Fits st.catalog st.holder s (st.stage s)

end Sessions

section Fits

variable {S : Type} {c c' : Catalog} {holder holder' : Option S} {s : S} {stage stage' : Stage}

/-- Inside, a session has the lock. -/
theorem Fits.holder_eq (fits : Fits c holder s stage) (inside : stage.Inside) :
    holder = some s := by
  cases stage with
  | called => exact inside.elim
  | connected => exact inside.elim
  | locked => exact fits
  | checked present => exact fits.1
  | applying todo seen => exact fits.1
  | unlocking result => exact fits.1
  | returned result => exact inside.elim

/-- Outside, it does not matter who has the lock and what else is created. -/
theorem Fits.outside (fits : Fits c holder s stage) (outside : ¬ stage.Inside)
    (kept : c.present = true → c'.present = true) : Fits c' holder' s stage := by
  cases stage with
  | called => exact trivial
  | connected => exact trivial
  | returned result => exact fun ok => kept (fits ok)
  | locked => exact absurd trivial outside
  | checked present => exact absurd trivial outside
  | applying todo seen => exact absurd trivial outside
  | unlocking result => exact absurd trivial outside

theorem Fits.move (fits : Fits c holder s stage) (next : Move c stage stage') :
    Fits c holder s stage' := by
  cases next with
  | acquire => exact trivial
  | acquireFailed => exact nofun
  | lockFailed => exact nofun
  | check => exact ⟨fits, rfl⟩
  | checkFailed => exact ⟨fits, nofun⟩
  | found => exact ⟨fits.1, fun _ => fits.2.symm⟩
  | apply => exact ⟨fits.1, fits.2.symm, fun _ there => there, fun x => .inl (mem_schema x)⟩
  | @create x todo seen =>
      obtain ⟨has, absent, sees, rest⟩ := fits
      refine ⟨has, absent, fun y there => ?_, fun y => ?_⟩
      · rw [Catalog.create, Function.update_apply]
        split
        · rfl
        · exact sees y there
      · rw [Catalog.create, Function.update_apply]
        rcases rest y with left | created
        · rcases List.mem_cons.mp left with same | left
          · exact .inr (if_pos same)
          · exact .inl left
        · right
          split
          · rfl
          · exact created
  | applyFailed => exact ⟨fits.1, nofun⟩
  | unlockFailed => exact fits.2
  | killed running => exact nofun

/-- When its last statement has run, a transaction sees the whole schema. -/
theorem Fits.complete {seen : Catalog} (fits : Fits c holder s (.applying [] seen)) :
    (c.merge seen).Complete := by
  intro x
  rcases fits.2.2.2 x with never | created
  · cases never
  · rw [Catalog.merge, created, Bool.or_true]

end Fits

section Sessions

variable {S : Type} {c₀ : Catalog} {st st' : State S}

/-- The session that has the lock is the only one inside. -/
theorem Inv.not_inside (inv : Inv c₀ st) {s other : S} (different : other ≠ s)
    (has : ∀ s', st.holder = some s' → s' = s) : ¬ (st.stage other).Inside := by
  intro inside
  exact different (has other ((inv.fits other).holder_eq inside))

variable [DecidableEq S]

/-- One session moves on. -/
theorem fits_update {c : Catalog} {holder : Option S} {s : S} {stage : Stage}
    (mine : Fits c holder s stage)
    (others : ∀ other, other ≠ s → Fits c holder other (st.stage other)) :
    ∀ other, Fits c holder other (Function.update st.stage s stage other) := by
  intro other
  by_cases same : other = s
  · subst same
    rw [Function.update_self]
    exact mine
  · rw [Function.update_of_ne same]
    exact others other same

/-- The schema is committed for the first time, and is all there then. -/
theorem Inv.commit (inv : Inv c₀ st) {s : S} {seen : Catalog}
    (ended : st.stage s = .applying [] seen) {result : Except MigrateError Unit} :
    Inv c₀
      { st with
        catalog := st.catalog.merge seen, commits := st.commits + 1
        stage := Function.update st.stage s (.unlocking result) } := by
  have fits := inv.fits s
  rw [ended] at fits
  have complete := fits.complete
  have holder := fits.1
  refine ⟨.inr ?_, ?_⟩
  · rcases inv.once with ⟨unwritten, same⟩ | ⟨-, already, -⟩
    · refine ⟨by rw [unwritten], complete, ?_⟩
      rw [← same]
      exact fits.2.1
    · have absent := fits.2.1
      rw [already.present] at absent
      cases absent
  · apply fits_update
    · exact ⟨holder, fun _ => complete.present⟩
    · intro other different
      apply (inv.fits other).outside
      · refine inv.not_inside different fun s' has => ?_
        rw [holder] at has
        exact (Option.some.inj has).symm
      · exact fun _ => complete.present

/-- **A step.** -/
theorem Inv.step (inv : Inv c₀ st) (next : Step st st') : Inv c₀ st' := by
  have alone : ∀ {s : S}, st.holder = some s → ∀ other, other ≠ s →
      ∀ {holder : Option S}, Fits st.catalog holder other (st.stage other) := by
    intro s has other different holder
    apply (inv.fits other).outside
    · refine inv.not_inside different fun s' also => ?_
      rw [has] at also
      exact (Option.some.inj also).symm
    · exact id
  have nobody : st.holder = none → ∀ other, ∀ {holder : Option S},
      Fits st.catalog holder other (st.stage other) := by
    intro free other holder
    apply (inv.fits other).outside
    · intro inside
      have has := (inv.fits other).holder_eq inside
      rw [free] at has
      cases has
    · exact id
  cases next with
  | @move s stage next =>
      exact ⟨inv.once, fits_update ((inv.fits s).move next) fun other _ => inv.fits other⟩
  | lock waits free => exact ⟨inv.once, fits_update rfl fun other _ => nobody free other⟩
  | lockUnheard waits free => exact ⟨inv.once, fits_update nofun fun other _ => nobody free other⟩
  | commit ended => exact inv.commit ended
  | commitUnheard ended => exact inv.commit ended
  | @unlock s result ends has =>
      have fits := inv.fits s
      rw [ends] at fits
      exact ⟨inv.once, fits_update fits.2 fun other different => alone has other different⟩
  | @expire s result gone has =>
      refine ⟨inv.once, fun other => ?_⟩
      by_cases same : other = s
      · subst same
        have fits := inv.fits other
        rw [gone] at fits
        change Fits st.catalog none other (st.stage other)
        rw [gone]
        exact fits
      · exact alone has other same

theorem inv_of_run (run : Relation.ReflTransGen Step (start c₀) st) : Inv c₀ st := by
  induction run with
  | refl => exact ⟨.inl ⟨rfl, rfl⟩, fun _ => trivial⟩
  | tail _ next ih => exact ih.step next

/-- What `Migrate` is for: sessions exclude each other, the schema is committed at most once and
only where a table is missing, and where a call returned without an error all of it is there. -/
structure Migrated (c₀ : Catalog) (st : State S) : Prop where
  exclusive : ∀ s s', (st.stage s).Inside → (st.stage s').Inside → s = s'
  once : st.commits ≤ 1
  needed : c₀.present = true → st.commits = 0
  untouched : st.commits = 0 → st.catalog = c₀
  complete : ∀ s, st.stage s = .returned (.ok ()) → st.catalog.Complete

/-- **Daemons that start together find the schema complete.** The database has all of the schema, or
not both of the tables. -/
theorem migrated_of_run (whole : c₀.present = true → c₀.Complete)
    (run : Relation.ReflTransGen Step (start c₀) st) : Migrated c₀ st := by
  have inv := inv_of_run run
  refine ⟨fun s s' inside inside' => ?_, ?_, fun there => ?_, fun unwritten => ?_,
    fun s ended => ?_⟩
  · have first := (inv.fits s).holder_eq inside
    rw [(inv.fits s').holder_eq inside'] at first
    exact (Option.some.inj first).symm
  · rcases inv.once with ⟨unwritten, -⟩ | ⟨one, -⟩ <;> omega
  · rcases inv.once with ⟨unwritten, -⟩ | ⟨-, -, absent⟩
    · exact unwritten
    · rw [there] at absent
      cases absent
  · rcases inv.once with ⟨-, same⟩ | ⟨one, -, -⟩
    · exact same
    · rw [unwritten] at one
      cases one
  · have fits := inv.fits s
    rw [ended] at fits
    rcases inv.once with ⟨-, same⟩ | ⟨-, complete, -⟩
    · rw [same] at fits ⊢
      exact whole (fits rfl)
    · exact complete

/-- One daemon creates the schema, and another that starts later finds it. -/
theorem migrated_of_run_two : ∃ st : State Bool,
    Relation.ReflTransGen Step (start fun _ => false) st ∧ Migrated (fun _ => false) st ∧
      ∀ s, st.stage s = .returned (.ok ()) := by
  have first : Relation.ReflTransGen Step (start fun _ => false) (_ : State Bool) :=
    .head (.move (s := true) .acquire) <| .head (.lock (s := true) rfl rfl) <|
      .head (.move (s := true) .check) <|
    .head (.move (s := true) .apply) <| .head (.move (s := true) .create) <|
      .head (.move (s := true) .create) <|
    .head (.move (s := true) .create) <| .head (.move (s := true) .create) <|
      .head (.commit (s := true) rfl) <|
    .single (.unlock (s := true) rfl rfl)
  have second : Relation.ReflTransGen Step _ (_ : State Bool) :=
    first.tail (.move (s := false) .acquire) |>.tail (.lock (s := false) rfl rfl) |>.tail
      (.move (s := false) .check)
      |>.tail (.move (s := false) .found) |>.tail (.unlock (s := false) rfl rfl)
  refine ⟨_, second, migrated_of_run (fun never => by cases never) second, fun s => ?_⟩
  cases s <;> rfl

end Sessions

end ShardDNS.Store.Migration

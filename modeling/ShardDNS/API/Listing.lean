import Mathlib.Data.List.Lex
import ShardDNS.API.Runs
import ShardDNS.Store.Pages

/-!
# Walks through pages

`ListRecords` and `ListZones` take the size of a page and a token, and answer with a page and
the token of the next, which is empty if there is none. A client asks again with the token it got
until that is empty. In between anything may be written, also between the two queries of one
`ListRecords` call, of which the first only looks whether the zone is there.

Whatever sizes are asked for, such a walk lists ids, or names, in increasing order, misses none
that is there all the time, and ends where the table does (`pagination_complete`).
-/

set_option autoImplicit false

namespace ShardDNS.API

open Go DNS Store

/-! ## The calls -/

structure ListZonesRequest where
  pageSize : Int32 := 0
  pageToken : Bytes := []

structure ListRecordsRequest where
  zone : Bytes
  pageSize : Int32 := 0
  pageToken : Bytes := []

/-- `ListZonesResponse` and `ListRecordsResponse`. -/
structure Listing (α : Type) where
  items : List α
  nextPageToken : Bytes

def defaultPageSize : Nat := 100

def maxPageSize : Nat := 1000

/-- `pageSize`. -/
def pageSize (n : Int32) : Nat :=
  if n.toInt ≤ 0 then defaultPageSize
  else if maxPageSize < n.toInt then maxPageSize
  else n.toInt.toNat

/-- `ListRecords`, with the database as the two queries find it. -/
def listRecords (encode : Option Encoder) (seen db : Database) (m : ListRecordsRequest) :
    Except ConnectError (Listing Record) := do
  if m.zone = [] then .error (invalidArgument (.text (ascii "zone is required")))
  else
    let _ ← (seen.getZone m.zone).mapError (toError (ascii "list records") .internal)
    let (records, next) ← (db.listRecords encode m.zone (pageSize m.pageSize) m.pageToken).mapError
      fun _ => invalidArgument (.text (ascii "store: invalid page token"))
    .ok { items := records, nextPageToken := next }

section Zones

variable {κ : Type} [LinearOrder κ] (collation : Collation κ)

/-- `ListZones`. -/
def listZones (db : Database) (m : ListZonesRequest) : Listing Zone :=
  let (zones, next) := db.listZones collation (pageSize m.pageSize) m.pageToken
  { items := zones, nextPageToken := next }

end Zones

theorem pageSize_pos (n : Int32) : 0 < pageSize n := by
  unfold pageSize
  split
  · decide
  · split
    · decide
    · omega

/-! ## The walks -/

/-- One page of a walk: the database at the time, also as it was seen just before, and the size
asked for. -/
structure Visit where
  db : Database
  size : Int32
  seen : Database := db

/-- A client asks for pages, from a token until it gets an empty one. -/
inductive Walk {α : Type} (ask : Visit → Bytes → Except ConnectError (Listing α)) :
    Bytes → List Visit → List α → Prop where
  | last {token : Bytes} {v : Visit} {listing : Listing α} (got : ask v token = .ok listing)
      (ends : listing.nextPageToken = []) : Walk ask token [v] listing.items
  | more {token : Bytes} {v : Visit} {listing : Listing α} {visits : List Visit} {listed : List α}
      (got : ask v token = .ok listing) (goes : listing.nextPageToken ≠ [])
      (rest : Walk ask listing.nextPageToken visits listed) :
      Walk ask token (v :: visits) (listing.items ++ listed)

/-- A page of the records of a zone is asked for. -/
def askRecords (encode : Option Encoder) (zone : Bytes) (v : Visit) (token : Bytes) :
    Except ConnectError (Listing Record) :=
  listRecords encode v.seen v.db { zone, pageSize := v.size, pageToken := token }

/-- A page of the zones is asked for. -/
def askZones {κ : Type} [LinearOrder κ] (collation : Collation κ) (v : Visit) (token : Bytes) :
    Except ConnectError (Listing Zone) :=
  .ok (listZones collation v.db { pageSize := v.size, pageToken := token })

/-- **What a walk lists**: items that were there at one of its times, in increasing order of
their keys. Each key that was there at all of its times is listed, and at the last time there was
no item after all that are. -/
structure Listed {α κ : Type} [LinearOrder κ] (key : α → κ) (items : Database → List α)
    (visits : List Visit) (listed : List α) : Prop where
  increasing : listed.Pairwise fun a b => key a < key b
  stored : ∀ a ∈ listed, ∃ v ∈ visits, a ∈ items v.db
  complete : ∀ k, (∀ v ∈ visits, ∃ a ∈ items v.db, key a = k) → ∃ a ∈ listed, key a = k
  ended : ∀ v, visits.getLast? = some v → ∀ a ∈ items v.db, ∃ b ∈ listed, key a ≤ key b

/-- The tables as the writes make them, with ids of 64 bits. -/
structure Listable (db : Database) : Prop extends db.Kept where
  bigint : ∀ row ∈ db.records, row.id < 2 ^ 63

theorem kept_settle {α : Type} {db : Database} {result : Except ConnectError (Reply α)}
    (kept : db.Kept) (keeps : ∀ reply, result = .ok reply → reply.effect.db.Kept) :
    (settle db result).Kept := by
  cases result with
  | error e => exact kept
  | ok reply => exact keeps reply rfl

/-- Every call keeps names and ids. -/
theorem kept_after {md5 : Bytes → Bytes} {encode : Option Encoder} {db : Database} (kept : db.Kept)
    (now : Int) (req : Request) : (after md5 encode db now req).Kept := by
  cases req with
  | createZone m =>
      refine kept_settle kept fun reply done => ?_
      obtain ⟨z, created, -⟩ := createZone_eq_ok done
      exact kept.createZone created
  | updateZone m =>
      refine kept_settle kept fun reply done => ?_
      obtain ⟨z, updated, -⟩ := updateZone_eq_ok done
      exact kept.updateZone updated
  | deleteZone name =>
      exact kept_settle kept fun reply done => kept.deleteZone (deleteZone_eq_ok done).1
  | createRecord m =>
      exact kept_settle kept fun reply done => kept.createRecord (createRecord_eq_ok done).2.1
  | deleteRecord m =>
      exact kept_settle kept fun reply done => kept.deleteRecord (deleteRecord_eq_ok done).1

/-- **What calls make of empty tables can be listed**, as long as ids are left. -/
theorem listable_run {md5 : Bytes → Bytes} {encode : Option Encoder} {calls : List (Int × Request)}
    (left : (run md5 encode calls).nextID ≤ 2 ^ 63) : Listable (run md5 encode calls) := by
  have kept : (run md5 encode calls).Kept :=
    run_induction (P := Database.Kept) Database.kept_empty (fun _ now req kept =>
      kept_after kept now req) calls
  exact ⟨kept, fun row member =>
    Nat.lt_of_lt_of_le ((run md5 encode calls).idBound row member) left⟩

/-! ## Walks by key -/

/-- What is listed by key: the rows, how they are shown, and the tokens, each of which stands for
a key. -/
structure Source (α β κ : Type) where
  rows : Database → List β
  key : β → κ
  shown : β → α
  token : β → Bytes
  stands : Bytes → κ → Prop

namespace Source

variable {α β κ : Type} [LinearOrder κ] (source : Source α β κ)

/-- The visit as one of the source's rows. -/
def visit (v : Visit) : Keyset.Visit β := { rows := source.rows v.db, limit := pageSize v.size }

/-- The page after a key. -/
def page (v : Visit) (start : κ) : List β × Option β :=
  Keyset.page source.key (source.visit v).rows start (source.visit v).limit

/-- The calls give pages by key, and the token of a row stands for its key. -/
structure Paged (ask : Visit → Bytes → Except ConnectError (Listing α)) : Prop where
  distinct : ∀ db, ((source.rows db).map source.key).Nodup
  leads : ∀ db, Listable db → ∀ a ∈ source.rows db,
    source.token a ≠ [] ∧ source.stands (source.token a) (source.key a)
  pages : ∀ v token start listing, source.stands token start → ask v token = .ok listing →
    listing = ⟨(source.page v start).1.map source.shown,
      (source.page v start).2.elim [] source.token⟩

variable {source} {ask : Visit → Bytes → Except ConnectError (Listing α)} {token : Bytes}
  {start : κ} {visits : List Visit}

theorem Paged.sound (paged : source.Paged ask) (v : Visit) : (source.visit v).Sound source.key :=
  ⟨paged.distinct v.db, pageSize_pos v.size⟩

/-- The token of the last row of a page leads on from there. -/
theorem Paged.leads_last (paged : source.Paged ask) {v : Visit} (listable : Listable v.db) {b : β}
    (next : (source.page v start).2 = some b) :
    source.token b ≠ [] ∧ source.stands (source.token b) (source.key b) := by
  obtain ⟨distinct, positive⟩ := paged.sound v
  have covers := Keyset.covers_page distinct start positive
  exact paged.leads v.db listable b (covers.after b (covers.greatest b next).1).1

/-- **A walk of a client is one by key.** -/
theorem Paged.toKeyset (paged : source.Paged ask) {listed : List α}
    (walk : Walk ask token visits listed) (listable : ∀ v ∈ visits, Listable v.db)
    (stands : source.stands token start) :
    ∃ rows, Keyset.Walk source.key start (visits.map source.visit) rows ∧
      listed = rows.map source.shown := by
  induction walk generalizing start with
  | @last token v listing got ends =>
      obtain rfl := paged.pages v token start listing stands got
      cases next : (source.page v start).2 with
      | none => exact ⟨_, .last next, rfl⟩
      | some b =>
          rw [next] at ends
          exact absurd ends (paged.leads_last (listable v List.mem_cons_self) next).1
  | @more token v listing visits listed got goes rest ih =>
      obtain rfl := paged.pages v token start listing stands got
      cases next : (source.page v start).2 with
      | none =>
          rw [next] at goes
          exact absurd rfl goes
      | some b =>
          rw [next] at ih
          obtain ⟨rows, later, rfl⟩ :=
            ih (fun w inside => listable w (List.mem_cons_of_mem _ inside))
            (paged.leads_last (listable v List.mem_cons_self) next).2
          exact ⟨_, .more next later, List.map_append.symm⟩

/-- A walk by key is one of a client, if its calls are answered. -/
theorem Paged.ofKeyset (paged : source.Paged ask) {rows : List β}
    (walk : Keyset.Walk source.key start (visits.map source.visit) rows)
    (listable : ∀ v ∈ visits, Listable v.db)
    (answered : ∀ v ∈ visits, ∀ token k, source.stands token k →
      ∃ listing, ask v token = .ok listing)
    (stands : source.stands token start) : Walk ask token visits (rows.map source.shown) := by
  induction visits generalizing rows start token with
  | nil => cases walk
  | cons v visits ih =>
      obtain ⟨listing, got⟩ := answered v List.mem_cons_self token start stands
      obtain rfl := paged.pages v token start listing stands got
      rw [List.map_cons] at walk
      generalize same : visits.map source.visit = others at walk
      cases walk with
      | last ends =>
          rw [List.map_eq_nil_iff] at same
          subst same
          refine .last got ?_
          rw [page, ends]
          rfl
      | @more _ _ b _ rows next later =>
          subst same
          obtain ⟨nonempty, leads⟩ := paged.leads_last (listable v List.mem_cons_self) next
          have rest := ih later (fun w inside => listable w (List.mem_cons_of_mem _ inside))
            (fun w inside => answered w (List.mem_cons_of_mem _ inside)) leads
          rw [List.map_append]
          refine .more got ?_ ?_
          · rw [page, next]
            exact nonempty
          · rw [page, next]
            exact rest

/-- **A walk from before every row lists what it should.** -/
theorem Paged.listed (paged : source.Paged ask) {listed : List α}
    (walk : Walk ask token visits listed) (listable : ∀ v ∈ visits, Listable v.db)
    (stands : source.stands token start)
    (first : ∀ v ∈ visits, ∀ a ∈ source.rows v.db, start < source.key a) {key : α → κ}
    (same : ∀ a, key (source.shown a) = source.key a) :
    Listed key (fun db => (source.rows db).map source.shown) visits listed := by
  obtain ⟨rows, byKey, rfl⟩ := paged.toKeyset walk listable stands
  have sound : ∀ v ∈ visits.map source.visit, v.Sound source.key := by
    intro v member
    obtain ⟨w, -, rfl⟩ := List.mem_map.mp member
    exact paged.sound w
  refine ⟨?_, fun a member => ?_, fun k present => ?_, fun v final a member => ?_⟩
  · rw [List.pairwise_map]
    exact (byKey.increasing sound).imp fun less => by rwa [same, same]
  · obtain ⟨row, inside, rfl⟩ := List.mem_map.mp member
    obtain ⟨-, w, visited, stored⟩ := byKey.later sound row inside
    obtain ⟨v, there, rfl⟩ := List.mem_map.mp visited
    exact ⟨v, there, List.mem_map_of_mem stored⟩
  · have rowWith : ∀ v ∈ visits, ∃ row ∈ source.rows v.db, source.key row = k := by
      intro v inside
      obtain ⟨a, member, rfl⟩ := present v inside
      obtain ⟨row, stored, rfl⟩ := List.mem_map.mp member
      exact ⟨row, stored, (same row).symm⟩
    have after : start < k := by
      cases visits with
      | nil => cases byKey
      | cons v visits =>
          obtain ⟨row, stored, rfl⟩ := rowWith v List.mem_cons_self
          exact first v List.mem_cons_self row stored
    obtain ⟨row, inside, rfl⟩ := byKey.complete sound after (List.forall_mem_map.mpr rowWith)
    exact ⟨_, List.mem_map_of_mem inside, same row⟩
  · obtain ⟨row, stored, rfl⟩ := List.mem_map.mp member
    have last : (visits.map source.visit).getLast? = some (source.visit v) := by
      rw [List.getLast?_map, final]
      rfl
    obtain ⟨b, inside, reaches⟩ :=
      byKey.ended sound last stored (first v (List.mem_of_getLast? final) row stored)
    exact ⟨_, List.mem_map_of_mem inside, by rwa [same, same]⟩

/-- A walk whose calls are answered comes to an end, if only finitely many keys are ever there. -/
theorem Paged.exists_walk (paged : source.Paged ask) {visit : Nat → Visit} (keys : Finset κ)
    (listable : ∀ n, Listable (visit n).db)
    (answered : ∀ n token k, source.stands token k → ∃ listing, ask (visit n) token = .ok listing)
    (among : ∀ n, ∀ a ∈ source.rows (visit n).db, source.key a ∈ keys)
    (stands : source.stands token start) :
    ∃ n listed, Walk ask token ((List.range n).map visit) listed := by
  obtain ⟨n, rows, byKey⟩ := Keyset.exists_walk (fun n => paged.sound (visit n)) among start
  rw [← Function.comp_def, ← List.map_map] at byKey
  refine ⟨n, _, paged.ofKeyset byKey ?_ ?_ stands⟩
  · exact List.forall_mem_map.mpr fun n _ => listable n
  · exact List.forall_mem_map.mpr fun n _ => answered n

end Source

/-! ## Records and zones -/

/-- The records of a zone by id. -/
def recordSource (encode : Option Encoder) (zone : Bytes) : Source Record RecordRow Nat where
  rows db := db.recordsOf (normalizeZone zone)
  key := RecordRow.id
  shown := scanRecord encode
  token row := formatInt row.id
  stands token id := afterID token = .ok id

/-- The zones by name. -/
def zoneSource {κ : Type} [LinearOrder κ] (collation : Collation κ) : Source Zone Zone κ where
  rows := Database.zones
  key z := collation.key z.name
  shown := id
  token := Zone.name
  stands token k := collation.key token = k

theorem paged_records (encode : Option Encoder) (zone : Bytes) :
    (recordSource encode zone).Paged (askRecords encode zone) where
  distinct db := db.nodup_recordsOf _
  leads db listable row member :=
    ⟨formatInt_ne_nil row.id, afterID_formatInt (listable.bigint row (List.mem_filter.mp member).1)⟩
  pages v token id listing stands got := by
    unfold askRecords listRecords at got
    split at got
    · cases got
    · simp only [bind_eq_ok, mapError_eq_ok] at got
      obtain ⟨-, -, ⟨records, next⟩, listed, same⟩ := got
      rw [Database.listRecords_eq (pageSize_pos v.size) stands] at listed
      cases listed
      cases same
      rfl

theorem paged_zones {κ : Type} [LinearOrder κ] (collation : Collation κ) :
    (zoneSource collation).Paged (askZones collation) where
  distinct db := db.nodup_zones collation
  leads db listable z member := ⟨listable.named z member, rfl⟩
  pages v token k listing stands got := by
    cases got
    cases stands
    rw [listZones, Database.listZones_eq (pageSize_pos v.size)]
    exact congrArg (Listing.mk · _) (List.map_id _).symm

/-- The empty token stands before every record. -/
theorem Listable.first_record {db : Database} (listable : Listable db) (encode : Option Encoder)
    (zone : Bytes) : ∀ row ∈ (recordSource encode zone).rows db,
      0 < (recordSource encode zone).key row :=
  fun row member => listable.counted row (List.mem_filter.mp member).1

/-- The empty token stands before every zone. -/
theorem Listable.first_zone {db : Database} (listable : Listable db) {κ : Type} [LinearOrder κ]
    (collation : Collation κ) :
    ∀ z ∈ (zoneSource collation).rows db, collation.key [] < (zoneSource collation).key z := by
  intro z member
  refine lt_of_le_of_ne (collation.empty z.name) fun same => ?_
  exact listable.named z member (collation.injective same).symm

/-- A page of the records of a zone that is found is given. -/
theorem askRecords_answered {encode : Option Encoder} {zone : Bytes} (asked : zone ≠ [])
    {v : Visit} {z : Zone} (found : v.seen.getZone zone = .ok z) {token : Bytes} {id : Nat}
    (stands : afterID token = .ok id) :
    ∃ listing, askRecords encode zone v token = .ok listing := by
  rw [askRecords, listRecords, if_neg asked, found,
    Database.listRecords_eq (pageSize_pos v.size) stands]
  exact ⟨_, rfl⟩

/-- A walk through the records of a zone comes to an end, since ids have 64 bits. -/
theorem exists_recordWalk {encode : Option Encoder} {zone : Bytes} (asked : zone ≠ [])
    {visit : Nat → Visit} (listable : ∀ n, Listable (visit n).db)
    (found : ∀ n, ∃ z, (visit n).seen.getZone zone = .ok z) :
    ∃ n listed, Walk (askRecords encode zone) [] ((List.range n).map visit) listed := by
  refine (paged_records encode zone).exists_walk (Finset.range (2 ^ 63)) listable ?_ ?_ rfl
  · intro n token id stands
    obtain ⟨z, here⟩ := found n
    exact askRecords_answered asked here stands
  · intro n row member
    exact Finset.mem_range.mpr ((listable n).bigint row (List.mem_filter.mp member).1)

/-- A walk through the zones comes to an end, if only finitely many are ever there. -/
theorem exists_zoneWalk {κ : Type} [LinearOrder κ] {collation : Collation κ} {visit : Nat → Visit}
    (listable : ∀ n, Listable (visit n).db) {names : Finset Bytes}
    (among : ∀ n, ∀ z ∈ (visit n).db.zones, z.name ∈ names) :
    ∃ n listed, Walk (askZones collation) [] ((List.range n).map visit) listed := by
  refine (paged_zones collation).exists_walk (names.image collation.key) listable ?_ ?_ rfl
  · exact fun n token k _ => ⟨_, rfl⟩
  · exact fun n z member => Finset.mem_image_of_mem _ (among n z member)

/-- **Pagination loses and repeats nothing.** Whatever page sizes are asked for and whatever the
tables hold at each page, a walk from the empty token to an empty token lists records by
increasing id and zones by increasing name, misses none that is there at every page, and ends
where the table does. It does come to an end, and the tables that calls make are such as it
needs. -/
theorem pagination_complete {κ : Type} [LinearOrder κ] (collation : Collation κ)
    (encode : Option Encoder) :
    (∀ zone visits listed, (∀ v ∈ visits, Listable v.db) →
      Walk (askRecords encode zone) [] visits listed →
      Listed Record.id (fun db => (db.recordsOf (normalizeZone zone)).map (scanRecord encode))
        visits listed) ∧
    (∀ visits listed, (∀ v ∈ visits, Listable v.db) → Walk (askZones collation) [] visits listed →
      Listed (fun z => collation.key z.name) Database.zones visits listed) ∧
    (∀ zone visit, zone ≠ [] → (∀ n, Listable (visit n).db) →
      (∀ n, ∃ z, (visit n).seen.getZone zone = .ok z) →
      ∃ n listed, Walk (askRecords encode zone) [] ((List.range n).map visit) listed) ∧
    (∀ visit (names : Finset Bytes), (∀ n, Listable (visit n).db) →
      (∀ n, ∀ z ∈ (visit n).db.zones, z.name ∈ names) →
      ∃ n listed, Walk (askZones collation) [] ((List.range n).map visit) listed) ∧
    ∀ md5 calls, (run md5 encode calls).nextID ≤ 2 ^ 63 → Listable (run md5 encode calls) := by
  refine ⟨fun zone visits listed listable walk => ?_, fun visits listed listable walk => ?_,
    fun zone visit asked listable found => exists_recordWalk asked listable found,
    fun visit names listable among => exists_zoneWalk listable among,
    fun md5 calls left => listable_run left⟩
  · exact (paged_records encode zone).listed walk listable rfl
      (fun v inside => (listable v inside).first_record encode zone) fun row =>
        id_scanRecord encode row
  · have listing := (paged_zones collation).listed walk listable rfl
      (fun v inside => (listable v inside).first_zone collation) fun z => rfl
    simpa only [zoneSource, List.map_id] using listing

/-- The order of texts by bytes. -/
def byteCollation : Collation (List Nat) where
  key text := text.map UInt8.toNat
  injective := List.map_injective_iff.mpr fun _ _ => UInt8.toNat_inj.mp
  empty _ := not_lt.mp (List.not_lt_nil _)

/-- Two addresses. -/
def pagedContent : Database :=
  ((Database.ofZone (ascii "b.org")).insertRecord (ascii "b.org") (ascii "x.b.org") (ascii "A") 300
    (ascii "192.0.2.1") (by decide)).insertRecord (ascii "b.org") (ascii "y.b.org") (ascii "A") 300
    (ascii "192.0.2.2") (by decide)

/-- One record at a time, and the first is deleted after its page. -/
def pagedVisits : List Visit :=
  [{ db := pagedContent, size := 1 },
    { db := pagedContent.deleteRecords fun row => row.id = 1, size := 1 }]

/-- Both records are listed, of which the second was there at both pages. -/
theorem pagination_complete_deletion :
    ∃ listed, Walk (askRecords none (ascii "b.org")) [] pagedVisits listed ∧
      listed.map Record.id = [1, 2] ∧
      Listed Record.id (fun db =>
        (db.recordsOf (normalizeZone (ascii "b.org"))).map (scanRecord none))
        pagedVisits listed := by
  have listable : ∀ v ∈ pagedVisits, Listable v.db := by
    rintro v (- | ⟨-, - | ⟨-, ⟨⟩⟩⟩)
    · exact ⟨⟨by decide, by decide, by decide⟩, by decide⟩
    · exact ⟨⟨by decide, by decide, by decide⟩, by decide⟩
  have walk : Walk (askRecords none (ascii "b.org")) [] pagedVisits _ :=
    .more rfl (by decide) (.last rfl (by decide))
  exact ⟨_, walk, by decide, (pagination_complete byteCollation none).1 _ _ _ listable walk⟩

end ShardDNS.API

import ShardDNS.API.Runs
import ShardDNS.Store.Journal

/-!
# From the calls to the answers

What a query gets is what the calls say. After any interleaving of write calls, the answer to a
question for a type that its name owns is the RRset that the calls that succeeded have left there:
of each text that was given and not deleted since its RDATA, all with the TTL given last
(`answers_iff_live`).
-/

set_option autoImplicit false

namespace ShardDNS.API

open Go DNS Store History

/-! ## Rows and keys -/

/-- The lists of rows hold what the tables hold, in some order and with some ids. -/
structure Mirrors (md5 : Bytes → Bytes) (db : Database) (t : Tables) : Prop where
  indexed : db.Indexed md5
  same : (db.tables md5).unnumbered = t.unnumbered

section Mirrors

variable {md5 : Bytes → Bytes} {db : Database} {t : Tables}

theorem Mirrors.row (mirrors : Mirrors md5 db t) {row : RecordRow} (stored : row ∈ db.records) :
    ∃ v, t (.record (row.key md5)) = some v ∧ v.ttl = row.ttl ∧ v.rdata = row.rdata := by
  have found := (Database.tables_record_eq_some_iff mirrors.indexed).mpr ⟨row, stored, rfl, rfl⟩
  have seen : t.unnumbered (.record (row.key md5)) = some row.value.unnumbered := by
    rw [← mirrors.same, Tables.unnumbered, found, Option.map_some]
  obtain ⟨v, there, same⟩ := Option.map_eq_some_iff.mp seen
  injection same with _ ttl rdata
  exact ⟨v, there, ttl, rdata⟩

theorem Mirrors.exists_row (mirrors : Mirrors md5 db t) {k : RecordKey} {v : RecordValue}
    (stored : t (.record k) = some v) :
    ∃ row ∈ db.records, row.key md5 = k ∧ row.ttl = v.ttl ∧ row.rdata = v.rdata := by
  have seen : (db.tables md5).unnumbered (.record k) = some v.unnumbered := by
    rw [mirrors.same, Tables.unnumbered, stored, Option.map_some]
  obtain ⟨w, there, same⟩ := Option.map_eq_some_iff.mp seen
  obtain ⟨row, member, key, rfl⟩ := (Database.tables_record_eq_some_iff mirrors.indexed).mp there
  injection same with _ ttl rdata
  exact ⟨row, member, key, ttl, rdata⟩

end Mirrors

/-! ## What the calls leave -/

/-- The record was created, and neither it nor its zone has been deleted since. -/
def Live (md5 : Bytes → Bytes) (calls : List WriteCall) (r : Record) : Prop :=
  Since (· = .createRecord r) (Removes md5 (r.key md5)) calls

/-- The TTL that the last call to create a record of the RRset gave. -/
def LastTTL (md5 : Bytes → Bytes) (calls : List WriteCall) (k : RecordKey) (ttl : Int32) : Prop :=
  ∃ r, Since (· = .createRecord r) (Retimes md5 k) calls ∧ SameRRset (r.key md5) k ∧ ttl = r.ttl

/-- The record is at the name and of the type. -/
def AtName (md5 : Bytes → Bytes) (r : Record) (zone name : Bytes) (type : UInt16) : Prop :=
  (r.key md5).zone = zone ∧ (r.key md5).name = name ∧ typeCode (r.key md5).type = type

/-- What is sent for a record that the calls leave. -/
def SentFor (md5 : Bytes → Bytes) (enc : Option Encoder) (calls : List WriteCall)
    (zone name owner : Bytes) (type : UInt16) (rr : RR) : Prop :=
  ∃ r ttl wire, Live md5 calls r ∧ AtName md5 r zone name type ∧
    LastTTL md5 calls (r.key md5) ttl ∧ sentRData enc type r.rdata = some wire ∧
      rr = { name := owner, type := type, cls := classIN, ttl := ttl.toUInt32, rdata := wire }

/-- No two texts that an RRset is given have the same digest. -/
def NoCollision (md5 : Bytes → Bytes) (calls : List WriteCall) : Prop :=
  ∀ r r', .createRecord r ∈ calls → .createRecord r' ∈ calls → r.key md5 = r'.key md5 →
    r.rdata = r'.rdata

section Calls

variable {md5 : Bytes → Bytes} {calls : List WriteCall} {t : Tables} {db : Database}
  {enc : Option Encoder} {zone name owner : Bytes} {type : UInt16}

theorem LastTTL.unique {k : RecordKey} {ttl ttl' : Int32} (first : LastTTL md5 calls k ttl)
    (second : LastTTL md5 calls k ttl') : ttl = ttl' := by
  obtain ⟨r, since, rrset, rfl⟩ := first
  obtain ⟨r', since', rrset', rfl⟩ := second
  have same : WriteCall.createRecord r = .createRecord r' := since.unique since' rrset rrset'
  injection same with same
  rw [same]

theorem Live.mem {r : Record} (live : Live md5 calls r) : .createRecord r ∈ calls := by
  obtain ⟨call, member, rfl⟩ := Since.mem live
  exact member

/-- A record that the calls leave is stored with its text and the TTL given last. -/
theorem Live.stored {r : Record} (live : Live md5 calls r) (journaled : Journaled md5 calls t)
    (apart : NoCollision md5 calls) :
    ∃ v, t (.record (r.key md5)) = some v ∧ v.rdata = r.rdata ∧
      LastTTL md5 calls (r.key md5) v.ttl := by
  have since : Since (Creates md5 (r.key md5)) (Removes md5 (r.key md5)) calls := by
    refine Since.mono live ?_
    rintro _ rfl
    rfl
  obtain ⟨v, stored⟩ := Option.ne_none_iff_exists'.mp ((journaled.record _).mpr since)
  obtain ⟨r', live', key, text⟩ := journaled.text _ v stored
  obtain ⟨_, member, rfl⟩ := live'.mem
  exact ⟨v, stored, text.trans (apart r' r member live.mem key), journaled.ttl _ v stored⟩

/-- What is stored under a key is what the calls leave. -/
theorem exists_live (journaled : Journaled md5 calls t) {k : RecordKey} {v : RecordValue}
    (stored : t (.record k) = some v) :
    ∃ r, Live md5 calls r ∧ r.key md5 = k ∧ r.rdata = v.rdata ∧ LastTTL md5 calls k v.ttl := by
  obtain ⟨r, live, rfl, text⟩ := journaled.text k v stored
  exact ⟨r, live, rfl, text.symm, journaled.ttl _ v stored⟩

theorem rrOf_scanRecord_eq_some_iff (daemon : enc = none ∨ enc = some daemonEncoder)
    {row : RecordRow} {rr : RR} :
    rrOf owner (scanRecord enc row) = some rr ↔ typeCode row.type ≠ 0 ∧
      ∃ wire, sentRData enc (typeCode row.type) row.rdata = some wire ∧
        rr = { name := owner, type := typeCode row.type, cls := classIN
               ttl := row.ttl.toUInt32, rdata := wire } := by
  unfold rrOf
  dsimp only
  rw [wireOf_scanRecord daemon, type_scanRecord, ttl_scanRecord]
  cases sentRData enc (typeCode row.type) row.rdata with
  | none => simp
  | some wire =>
      dsimp only
      split
      · rename_i unknown
        simp [unknown]
      · rename_i known
        simp only [Option.some.injEq, exists_eq_left', ne_eq, known, not_false_eq_true, true_and]
        exact eq_comm

theorem mem_typedAt_iff {r : Record} : r ∈ typedAt db enc zone name type ↔
    ∃ row ∈ db.records, row.zone = zone ∧ row.name = name ∧ typeCode row.type = type ∧
      r = scanRecord enc row := by
  rw [typedAt, filterType, List.mem_filter, decide_eq_true_eq, Database.recordsAt, List.mem_map]
  constructor
  · rintro ⟨⟨row, selected, rfl⟩, typed⟩
    obtain ⟨stored, sameZone, sameName⟩ := Database.mem_selectAt.mp selected
    rw [type_scanRecord] at typed
    exact ⟨row, stored, sameZone, sameName, typed, rfl⟩
  · rintro ⟨row, stored, sameZone, sameName, typed, rfl⟩
    exact ⟨⟨row, Database.mem_selectAt.mpr ⟨stored, sameZone, sameName⟩, rfl⟩,
      by rw [type_scanRecord]; exact typed⟩

/-- **The RRset of the rows is the RRset of the calls.** -/
theorem sent_iff_sentFor (daemon : enc = none ∨ enc = some daemonEncoder)
    (mirrors : Mirrors md5 db t) (journaled : Journaled md5 calls t) (apart : NoCollision md5 calls)
    (known : type ≠ 0) (rr : RR) :
    (∃ r ∈ typedAt db enc zone name type, rrOf owner r = some rr) ↔
      SentFor md5 enc calls zone name owner type rr := by
  constructor
  · rintro ⟨r, member, sent⟩
    obtain ⟨row, stored, rfl, rfl, rfl, rfl⟩ := mem_typedAt_iff.mp member
    obtain ⟨-, wire, built, rfl⟩ := (rrOf_scanRecord_eq_some_iff daemon).mp sent
    obtain ⟨v, there, ttl, text⟩ := mirrors.row stored
    obtain ⟨r, live, key, given, last⟩ := exists_live journaled there
    refine ⟨r, row.ttl, wire, live, ?_, ?_, ?_, rfl⟩
    · rw [AtName, key]
      exact ⟨rfl, rfl, rfl⟩
    · rw [key, ← ttl]
      exact last
    · rw [given, text]
      exact built
  · rintro ⟨r, ttl, wire, live, ⟨sameZone, sameName, typed⟩, last, built, rfl⟩
    obtain ⟨v, stored, text, last'⟩ := live.stored journaled apart
    obtain ⟨row, member, key, ttl', text'⟩ := mirrors.exists_row stored
    rw [← key] at sameZone sameName typed
    refine ⟨scanRecord enc row, mem_typedAt_iff.mpr ⟨row, member, sameZone, sameName, typed, rfl⟩,
      ?_⟩
    have typed : typeCode row.type = type := typed
    rw [rrOf_scanRecord_eq_some_iff daemon, typed]
    refine ⟨known, wire, ?_, ?_⟩
    · rw [text', text]
      exact built
    · rw [ttl', last.unique last']

/-- The name owns a record of the type if the calls leave one. -/
theorem ownsType_iff_live (mirrors : Mirrors md5 db t) (journaled : Journaled md5 calls t)
    (apart : NoCollision md5 calls) :
    OwnsType db zone name type ↔ ∃ r, Live md5 calls r ∧ AtName md5 r zone name type := by
  constructor
  · rintro ⟨row, stored, rfl, rfl, rfl⟩
    obtain ⟨v, there, -⟩ := mirrors.row stored
    obtain ⟨r, live, key, -⟩ := exists_live journaled there
    refine ⟨r, live, ?_⟩
    rw [AtName, key]
    exact ⟨rfl, rfl, rfl⟩
  · rintro ⟨r, live, here⟩
    obtain ⟨v, stored, -⟩ := live.stored journaled apart
    obtain ⟨row, member, key, -⟩ := mirrors.exists_row stored
    rw [AtName, ← key] at here
    exact ⟨row, member, here⟩

end Calls

/-! ## Answers -/

theorem answer_of_matched {h : Handler} {i : Nat} {resp : Message} {zone : Zone}
    {name owner : Bytes} {qtype : UInt16} {m : Handler.Match} (notANY : qtype ≠ typeANY)
    (notSOA : ¬ (name = zone.name ∧ qtype = typeSOA))
    (matched : filterType m.records qtype ≠ []) :
    ∃ resp', h.answer i resp zone name owner qtype m = (resp', .done) ∧
      resp'.answers = h.appendSet i resp.answers owner (filterType m.records qtype) := by
  have apex : ¬ (decide (name = zone.name) = true ∧ qtype = typeSOA) := by simpa using notSOA
  obtain ⟨r, rest, set⟩ := List.exists_cons_of_ne_nil matched
  unfold Handler.answer
  dsimp only
  rw [if_neg notANY, if_neg apex, set]
  exact ⟨_, rfl, Handler.answers_addAdditional _⟩

/-- A type that the name owns is resolved to the RRset, in some order. -/
theorem resolve_of_ownsType {db : Database} {enc : Option Encoder} {rotate : Nat → UInt32}
    {resp : Message} {zone : Zone} {name owner : Bytes} {qtype : UInt16}
    (plain : qtype ≠ typeANY ∧ ¬ (name = zone.name ∧ qtype = typeSOA))
    (own : name = zone.name ∨ qtype = typeDS ∨ ¬ OwnsType db zone.name name typeNS)
    (typed : OwnsType db zone.name name qtype) :
    ∃ resp', (Handler.serving db enc rotate).resolve resp zone name owner qtype = (resp', none) ∧
      resp'.answers.Perm
        (resp.answers ++ (typedAt db enc zone.name name qtype).filterMap (rrOf owner)) := by
  have looked : (Handler.serving db enc rotate).lookup zone name qtype =
      .ok { records := db.recordsAt enc zone.name name, found := true } :=
    Handler.lookup_of_owns typed.owns own
  have matched : filterType (db.recordsAt enc zone.name name) qtype ≠ [] :=
    typedAt_ne_nil_iff.mpr typed
  obtain ⟨resp', answered, answers⟩ :=
    answer_of_matched (h := Handler.serving db enc rotate) (i := 0)
    (m := { records := db.recordsAt enc zone.name name, found := true }) plain.1 plain.2 matched
  refine ⟨resp', Handler.resolve_of_done ((Handler.hop_of_plain looked rfl rfl).trans answered), ?_⟩
  obtain ⟨start, appended⟩ := (Handler.serving db enc rotate).appendSet_eq 0 resp.answers owner
    (filterType (db.recordsAt enc zone.name name) qtype)
  rw [answers, appended]
  exact ((List.rotate_perm _ start).filterMap _).append_left _

/-- A question for a type that its name owns is answered with the RRset, in some order. -/
theorem answers_of_ownsType {db : Database} {enc : Option Encoder} {rotate : Nat → UInt32}
    {req : Message} {q : Question} {zone : Zone} {name : Bytes} (single : req.questions = [q])
    (reaches : Handler.Reaches req q)
    (asked : questionName q.name = name) (served : db.findZone name = .ok zone)
    (plain : q.type ≠ typeANY ∧ ¬ (name = zone.name ∧ q.type = typeSOA))
    (own : name = zone.name ∨ q.type = typeDS ∨ ¬ OwnsType db zone.name name typeNS)
    (typed : OwnsType db zone.name name q.type) :
    ((Handler.serving db enc rotate).handle req).answers.Perm
      ((typedAt db enc zone.name name q.type).filterMap
        (rrOf (trimSuffix q.name (ascii ".")))) := by
  have zoned : (Handler.serving db enc rotate).resolver.findZone (questionName q.name) =
      .ok zone := by
    rw [Handler.findZone_serving, asked, served]
  obtain ⟨resp, resolved, answers⟩ :=
    @resolve_of_ownsType db enc rotate (Message.newResponse req).setAA zone name
    (trimSuffix q.name (ascii ".")) q.type plain own typed
  have empty : (Message.newResponse req).setAA.answers = [] := (Message.sections_newResponse req).1
  rw [empty, List.nil_append] at answers
  rw [Handler.handle_of_reaches single reaches zoned, asked, resolved]
  exact answers

/-- **A question for a type that its name owns is answered with what the calls say**: after any
interleaving of calls, of each record that they leave at the name and of the type its RDATA, with
the TTL given last. -/
theorem answers_iff_live {md5 : Bytes → Bytes} {labels : List Transactions.Label}
    {s : Transactions.System} {db : Database} {enc : Option Encoder} {rotate : Nat → UInt32}
    {req : Message} {q : Question} {zone : Zone}
    {name : Bytes} (run : Transactions.Run md5 .start labels s) (mirrors : Mirrors md5 db s.tables)
    (daemon : enc = none ∨ enc = some daemonEncoder)
    (apart : NoCollision md5 (Transactions.committed labels))
    (single : req.questions = [q]) (reaches : Handler.Reaches req q)
    (asked : questionName q.name = name) (served : db.findZone name = .ok zone)
    (plain : q.type ≠ 0 ∧ q.type ≠ typeANY ∧ ¬ (name = zone.name ∧ q.type = typeSOA))
    (own : name = zone.name ∨ q.type = typeDS ∨
      ¬ ∃ r, Live md5 (Transactions.committed labels) r ∧ AtName md5 r zone.name name typeNS)
    (typed : ∃ r, Live md5 (Transactions.committed labels) r ∧ AtName md5 r zone.name name q.type)
    (rr : RR) :
    rr ∈ ((Handler.serving db enc rotate).handle req).answers ↔
      SentFor md5 enc (Transactions.committed labels) zone.name name (trimSuffix q.name (ascii "."))
        q.type rr := by
  have journaled : Journaled md5 (Transactions.committed labels) s.tables :=
    run.committed Transactions.inv_start [] (fun does journaled => journaled.concat does)
      (journaled_empty md5)
  rw [← ownsType_iff_live mirrors journaled apart] at own typed
  rw [(answers_of_ownsType single reaches asked served plain.2 own typed).mem_iff,
    List.mem_filterMap, sent_iff_sentFor daemon mirrors journaled apart plain.1]

/-- The database after a write, where it succeeds. -/
def written (result : Except StoreError Database) : Database :=
  match result with
  | .ok db => db
  | .error _ => .empty

theorem eq_ok_written {result : Except StoreError Database} (done : result.isOk = true) :
    result = .ok (written result) := by
  cases result with
  | error e => cases done
  | ok db => rfl

/-- A zone and an alias in it, created one after the other. -/
def aliasCalls : List WriteCall :=
  [.createZone (Zone.plain (ascii "a")), .createRecord Transactions.aliasRecord]

def aliasZoneDB : Database :=
  written ((WriteCall.createZone (Zone.plain (ascii "a"))).write.apply id none 1 .empty)

def aliasDB : Database :=
  written ((WriteCall.createRecord Transactions.aliasRecord).write.apply id none 2 aliasZoneDB)

theorem replays_aliasCalls : Replays id none aliasCalls aliasDB :=
  (Replays.nil.concat 1 (eq_ok_written (by decide +kernel))).concat 2
    (eq_ok_written (by decide +kernel))

/-- A query for the alias, with capitals. -/
def aliasQuestion : Question := { name := ascii "W.a", type := typeCNAME, cls := classIN }

theorem live_alias : Live id aliasCalls Transactions.aliasRecord :=
  ⟨[.createZone (Zone.plain (ascii "a"))], _, [], rfl, rfl, List.forall_mem_nil _⟩

theorem not_live_nameServer (r : Record) (live : Live id aliasCalls r) :
    ¬ AtName id r (ascii "a") (ascii "w.a") typeNS := by
  have made := live.mem
  simp only [aliasCalls, List.mem_cons, List.not_mem_nil, or_false, reduceCtorEq, false_or,
    WriteCall.createRecord.injEq] at made
  rw [made]
  rintro ⟨-, -, type⟩
  exact absurd type (by decide +kernel)

theorem answers_iff_live_alias : ∃ labels s, Transactions.Run id .start labels s ∧
    Transactions.committed labels = aliasCalls ∧ Mirrors id aliasDB s.tables ∧
      (∀ rr, rr ∈ ((Handler.serving aliasDB none fun _ => 0).handle
        { questions := [aliasQuestion] }).answers ↔
        SentFor id none aliasCalls (ascii "a") (ascii "w.a") (ascii "W.a") typeCNAME rr) ∧
      ((Handler.serving aliasDB none fun _ => 0).handle { questions := [aliasQuestion] }).answers =
        [{ name := ascii "W.a", type := typeCNAME, cls := classIN, ttl := 60,
           rdata := [1, 98, 1, 97, 0] }] := by
  obtain ⟨labels, run, made⟩ := Transactions.exists_run_of_replays replays_aliasCalls
  have mirrors : Mirrors id aliasDB (aliasDB.tables id) := ⟨replays_aliasCalls.indexed, rfl⟩
  have served : aliasDB.findZone (ascii "w.a") =
      .ok { (Zone.plain (ascii "a")) with serial := 2 } := by decide +kernel
  refine ⟨labels, _, run, made, mirrors, fun rr => ?_, by decide +kernel⟩
  have answered := @answers_iff_live id labels _ aliasDB none (fun _ =>
    0) { questions := [aliasQuestion] } aliasQuestion
    { (Zone.plain (ascii "a")) with serial := 2 } (ascii "w.a") run mirrors (.inl rfl)
  rw [made] at answered
  refine answered ?_ rfl (by decide +kernel) (by decide +kernel) served (by decide +kernel) ?_ ?_ rr
  · intro r r' _ _ key
    exact congrArg RecordKey.digest key
  · exact .inr (.inr fun ⟨r, live, here⟩ => not_live_nameServer r live here)
  · exact ⟨_, live_alias, by decide +kernel, by decide +kernel, by decide +kernel⟩

end ShardDNS.API

import ShardDNS.API.Runs
import ShardDNS.DNS.RDataSizes

/-!
# Which queries are answered

`CreateRecord` checks that a text can be encoded, and does not check how long the RDATA
becomes. A text of 65280 bytes makes a TXT record that packing refuses, and then nothing is
sent for a question that comes to it. All other questions are answered (`answered_iff`).
-/

set_option autoImplicit false

namespace ShardDNS.API

open Go DNS Store

/-- The RDATA of the record, if its text has one, can be sent. -/
def Sendable (d : RecordData) : Prop :=
  ∀ wire, buildRData (typeCode d.type) d.rdata = .ok wire → wire.length ≤ 0xFFFF

/-- The records that the handler's resolver returns are those of the database. Its calls may
fail, and what it says about zones is not restricted. -/
def Reads (h : Handler) (db : Database) (enc : Option Encoder) : Prop :=
  ∀ zone name set, h.resolver.lookupName zone name = .ok set → set = db.lookupName enc zone name

theorem reads_serving (db : Database) (enc : Option Encoder) (rotate : Nat → UInt32) :
    Reads (Handler.serving db enc rotate) db enc := by
  intro zone name set found
  rw [Handler.lookupName_serving] at found
  exact (Except.ok.inj found).symm

/-- Both ways to pack the response succeed, and a datagram is sent. -/
structure Answered (h : Handler) (data : Bytes) (req : Message) : Prop where
  pack : ∃ out, (h.handle req).pack = .ok out
  packUDP : ∃ out, (h.handle req).packUDP = .ok out
  sent : ∃ out, serveUDP h data = some out

variable {md5 : Bytes → Bytes} {encode enc : Option Encoder} {db : Database} {h : Handler}
  {data : Bytes} {req : Message} {q : Question}

theorem answered_iff_rdataFits (parsed : parseMessage data = .ok req)
    (query : req.flags &&& flagQR = 0) : Answered h data req ↔ (h.handle req).RDataFits := by
  constructor
  · rintro ⟨⟨out, packed⟩, -, -⟩
    exact (Message.pack_eq_ok_iff.mp packed).1
  · intro fits
    obtain ⟨out, packed⟩ := Message.packUDP_of_rdataFits fits
    refine ⟨⟨_, Message.pack_of_rdataFits fits⟩, ⟨out, packed⟩, out, ?_⟩
    have received : ¬ req.flags &&& flagQR ≠ 0 := not_not.mpr query
    simp only [serveUDP, parsed, if_neg received, packed]

/-- The rows behind the records that a lookup returns. -/
theorem mem_of_reads (reads : Reads h db enc) {zone name : Bytes} {set : NameSet}
    (found : h.resolver.lookupName zone name = .ok set) {r : Record} (member : r ∈ set.records) :
    ∃ row ∈ db.records, r = scanRecord enc row := by
  rw [reads zone name set found, Database.records_lookupName] at member
  obtain ⟨row, selected, rfl⟩ := List.mem_map.mp member
  exact ⟨row, (Database.mem_selectAt.mp selected).1, rfl⟩

theorem oversized_scanRecord (daemon : enc = none ∨ enc = some daemonEncoder) {row : RecordRow}
    (stored : Stored row.data) (oversized : Oversized (scanRecord enc row)) :
    ∃ wire, buildRData (typeCode row.type) row.rdata = .ok wire ∧ 0xFFFF < wire.length := by
  obtain ⟨-, sent, encoded, long⟩ := oversized
  obtain ⟨wire, built⟩ : ∃ wire, buildRData (typeCode row.type) row.rdata = .ok wire :=
    stored.encodes
  rw [wireOf_scanRecord daemon, sentRData_of_ok built] at encoded
  cases encoded
  exact ⟨sent, built, long⟩

/-- Addresses and names of the database are short. -/
theorem namesFit_of_reads (daemon : enc = none ∨ enc = some daemonEncoder)
    (reads : Reads h db enc) (stored : ∀ d ∈ db.contents, Stored d) : h.NamesFit := by
  intro zone name set found r member short oversized
  obtain ⟨row, inTable, rfl⟩ := mem_of_reads reads found member
  obtain ⟨wire, built, long⟩ := oversized_scanRecord daemon
    (stored row.data (List.mem_map_of_mem inTable)) oversized
  rw [type_scanRecord] at short
  exact absurd ((length_buildRData short built).trans (by decide)) (Nat.not_le.mpr long)

/-- Where every record can be sent, no question leads to one that cannot. -/
theorem not_asksOversized (daemon : enc = none ∨ enc = some daemonEncoder) (reads : Reads h db enc)
    (stored : ∀ d ∈ db.contents, Stored d) (sendable : ∀ d ∈ db.contents, Sendable d) :
    ¬ h.AsksOversized req q := by
  rintro ⟨-, zone, -, k, last, lastName, m, r, -, -, looked, -, -, member, oversized⟩
  have origin : m.From fun r => ∃ row ∈ db.records, r = scanRecord enc row :=
    Handler.from_lookup (fun _ _ _ found _ member => mem_of_reads reads found member) looked
  obtain ⟨row, inTable, rfl⟩ := origin.records r (Handler.mem_records_of_asked member)
  obtain ⟨wire, built, long⟩ := oversized_scanRecord daemon
    (stored row.data (List.mem_map_of_mem inTable)) oversized
  exact absurd (sendable row.data (List.mem_map_of_mem inTable) wire built)
    (Nat.not_le.mpr long)

/-- What is stored has come with a call. -/
theorem requested_of_run (calls : List (Int × Request)) :
    ∀ d ∈ (run md5 encode calls).contents, ∃ now m, (now, .createRecord m) ∈ calls ∧
      d = m.data := by
  induction calls using List.reverseRecOn with
  | nil => exact nofun
  | append_singleton calls call ih =>
      rw [run_append_singleton]
      have before : ∀ d ∈ (run md5 encode calls).contents, ∃ now m,
          (now, .createRecord m) ∈ calls ++ [call] ∧ d = m.data := by
        intro d member
        obtain ⟨now, m, made, same⟩ := ih d member
        exact ⟨now, m, List.mem_append_left _ made, same⟩
      intro d member
      obtain ⟨m, same, -, -, added⟩ | ⟨-, fewer⟩ := @contents_after md5 encode
        (run md5 encode calls) call.1 call.2
      · rw [added] at member
        split at member
        · exact before d member
        · rcases List.mem_append.mp member with old | new
          · exact before d old
          · refine ⟨call.1, m, List.mem_append_right _ ?_, List.mem_singleton.mp new⟩
            rw [← same]
            exact List.mem_singleton_self _
      · exact before d (fewer.subset member)

/-- **Which queries are answered**: after any run, those that lead to no record too long to be
sent; and after a run whose calls give no text with RDATA too long to be sent, every one. -/
theorem answered_iff (md5 : Bytes → Bytes) (encode enc : Option Encoder)
    (daemon : enc = none ∨ enc = some daemonEncoder) (calls : List (Int × Request)) (h : Handler)
    (reads : Reads h (run md5 encode calls) enc) :
    (∀ data req q, parseMessage data = .ok req → req.flags &&& flagQR = 0 → req.questions = [q] →
      (Answered h data req ↔ ¬ h.AsksOversized req q)) ∧
    ((∀ now m, (now, .createRecord m) ∈ calls → Sendable m.data) →
      (∀ d ∈ (run md5 encode calls).contents, Sendable d) ∧
      ∀ data req q, parseMessage data = .ok req → req.flags &&& flagQR = 0 → req.questions = [q] →
        Answered h data req) := by
  have names := namesFit_of_reads daemon reads (stored_of_run calls)
  constructor
  · intro data req q parsed query single
    rw [answered_iff_rdataFits parsed query, Handler.rdataFits_handle_iff names single]
  · intro sendable
    have stored : ∀ d ∈ (run md5 encode calls).contents, Sendable d := by
      intro d member
      obtain ⟨now, m, made, rfl⟩ := requested_of_run calls d member
      exact sendable now m made
    refine ⟨stored, fun data req q parsed query single => ?_⟩
    rw [answered_iff_rdataFits parsed query, Handler.rdataFits_handle_iff names single]
    exact not_asksOversized daemon reads (stored_of_run calls) stored

/-! ## A text that is too long -/

theorem trimSpace_replicate (n : Nat) :
    trimSpace (List.replicate n 120) = List.replicate n 120 := by
  have letter : ∀ space ∈ spaceEncodings, (120 : UInt8) ∉ space := by decide +kernel
  obtain ⟨front, back, split, spaces⟩ := trimSpace_split (List.replicate n 120)
  have noByte : ∀ b, ¬ (b ∈ front ∨ b ∈ back) := by
    intro b occurs
    have same : b = 120 := by
      refine List.eq_of_mem_replicate (n := n) ?_
      rw [split, List.append_assoc, List.mem_append, List.mem_append]
      tauto
    obtain ⟨space, member, inside⟩ := spaces b occurs
    rw [same] at inside
    exact letter space member inside
  have noFront : front = [] :=
    List.eq_nil_iff_forall_not_mem.mpr fun b occurs => noByte b (.inl occurs)
  have noBack : back = [] :=
    List.eq_nil_iff_forall_not_mem.mpr fun b occurs => noByte b (.inr occurs)
  rw [noFront, noBack, List.nil_append, List.append_nil] at split
  exact split.symm

/-- Every text of one letter can be encoded. -/
theorem buildRData_replicate (n : Nat) : ∃ wire,
    buildRData typeTXT (List.replicate n 120) = .ok wire ∧ n + n / 255 ≤ wire.length := by
  have chunks := le_length_txtChunks (Nat.le_refl (List.replicate n (120 : UInt8)).length)
  rw [List.length_replicate] at chunks
  have unquoted : hasPrefix (List.replicate n 120) [quote] = false := by
    cases n <;> rfl
  have built : buildRData typeTXT (List.replicate n 120) = buildTXT (List.replicate n 120) := by
    rw [buildRData, trimSpace_replicate]
    rfl
  rw [built, buildTXT, unquoted]
  refine ⟨_, rfl, ?_⟩
  rw [List.flatMap_singleton, List.length_replicate]
  split
  · rename_i empty
    rw [empty] at chunks
    exact chunks.trans (Nat.zero_le _)
  · exact chunks

/-- A call for a zone, and one for a TXT record at its apex. -/
def zoneCalls : List (Int × Request) := [(1, .createZone { name := ascii "a" })]

def textRequest (text : Bytes) : CreateRecordRequest :=
  { zone := ascii "a", name := ascii "@", type := ascii "TXT", rdata := text }

def textCalls (text : Bytes) : List (Int × Request) :=
  zoneCalls ++ [(2, .createRecord (textRequest text))]

theorem record_textRequest {text : Bytes} (trimmed : trimSpace text = text) :
    (textRequest text).record =
      { zone := ascii "a", name := ascii "a", type := ascii "TXT", ttl := 300, rdata := text } := by
  have zone : normalizeZone (ascii "a") = ascii "a" := by decide +kernel
  have name : normalizeName (ascii "a") (ascii "@") = ascii "a" := by decide +kernel
  have type : normalizeType (ascii "TXT") = ascii "TXT" := by decide +kernel
  simp only [CreateRecordRequest.record, textRequest, zone, name, type, trimmed]
  rfl

theorem valid_textRequest {text : Bytes} (trimmed : trimSpace text = text)
    (encodes : ∃ wire, buildRData typeTXT text = .ok wire) : (textRequest text).Valid := by
  have named : ascii "a" ≠ [] := by decide
  have name : validateName (ascii "a") = .ok () := by decide +kernel
  have code : typeCode (ascii "TXT") = typeTXT := by decide +kernel
  constructor
  all_goals rw [record_textRequest trimmed]
  · exact named
  · exact name
  · rw [code]
    decide
  · rw [code]
    exact encodes

/-- The store accepts any text for the record. -/
theorem createRecord_text (text : Bytes) : ∃ effect, (run id none zoneCalls).createRecord id none 2
    { zone := ascii "a", name := ascii "a", type := ascii "TXT", ttl := 300, rdata := text } =
      .ok effect ∧ effect.db.zones.map Zone.name = [ascii "a"] := by
  have zone : normalizeZone (ascii "a") = ascii "a" := by decide +kernel
  have name : normalizeName (ascii "a") (ascii "a") = ascii "a" := by decide +kernel
  have type : normalizeType (ascii "TXT") = ascii "TXT" := by decide +kernel
  have stored : ascii "a" ∈ (run id none zoneCalls).zones.map Zone.name := by decide +kernel
  have alone : (run id none zoneCalls).cnameConflict id (ascii "a") (ascii "a") (ascii "TXT") text =
    none := by rfl
  unfold Database.createRecord
  simp only [zone, name, type, dif_pos stored, alone]
  exact ⟨_, rfl, by rfl⟩

/-- So does the API. -/
theorem run_textCalls {text : Bytes} (trimmed : trimSpace text = text)
    (encodes : ∃ wire, buildRData typeTXT text = .ok wire) :
    Accepted id none (run id none zoneCalls) 2 (textRequest text) ∧
      (run id none (textCalls text)).zones.map Zone.name = [ascii "a"] ∧
      (run id none (textCalls text)).contents = [⟨ascii "a", ascii "a", ascii "TXT", text⟩] := by
  obtain ⟨effect, created, zones⟩ := createRecord_text text
  have record := record_textRequest trimmed
  have valid := valid_textRequest trimmed encodes
  rw [← record] at created
  have inRange : ¬ ((textRequest text).record.ttl < 0 ∨
      maxTTL < (textRequest text).record.ttl) := by
    rw [record]
    dsimp only
    decide
  have accepted := createRecord_of_valid valid (show ascii "@" ≠ [] by decide)
    (show ascii "TXT" ≠ [] by decide) inRange created
  have reached : run id none (textCalls text) = effect.db := by
    rw [textCalls, run_append_singleton]
    dsimp only [after]
    rw [accepted, settle]
  refine ⟨⟨_, accepted⟩, by rw [reached, zones], ?_⟩
  rw [reached, Database.contents_createRecord created, valid.data_eq,
    CreateRecordRequest.data, record]
  rfl

/-- A query for the record. -/
def textQuery : Bytes :=
  [0, 1, 0, 0, 0, 1, 0, 0, 0, 0, 0, 0] ++ [1, 97, 0] ++ [0, 16, 0, 1]

def textRequested : Message :=
  { id := 1, qdCount := 1, questions := [{ name := ascii "a", type := typeTXT, cls := classIN }] }

/-- The query leads to the record, whatever its text. -/
theorem asksOversized_text {text wire : Bytes} (trimmed : trimSpace text = text)
    (built : buildRData typeTXT text = .ok wire) (long : 0xFFFF < wire.length)
    (rotate : Nat → UInt32) :
    (Handler.serving (run id none (textCalls text)) none rotate).AsksOversized textRequested
      { name := ascii "a", type := typeTXT, cls := classIN } := by
  obtain ⟨-, zones, contents⟩ := run_textCalls trimmed ⟨wire, built⟩
  generalize run id none (textCalls text) = db at zones contents
  obtain ⟨z, stored, named⟩ : ∃ z, db.zones = [z] ∧ z.name = ascii "a" := by
    obtain ⟨z, rest, split, named, last⟩ := List.map_eq_cons_iff.mp zones
    rw [List.map_eq_nil_iff.mp last] at split
    exact ⟨z, split, named⟩
  obtain ⟨row, rows, same⟩ : ∃ row, db.records = [row] ∧
      row.data = ⟨ascii "a", ascii "a", ascii "TXT", text⟩ := by
    obtain ⟨row, rest, split, same, last⟩ := List.map_eq_cons_iff.mp contents
    rw [List.map_eq_nil_iff.mp last] at split
    exact ⟨row, split, same⟩
  have code : typeCode (ascii "TXT") = typeTXT := by decide +kernel
  obtain ⟨sameZone, sameName, sameType, sameText⟩ : row.zone = ascii "a" ∧ row.name = ascii "a" ∧
      row.type = ascii "TXT" ∧ row.rdata = text := by
    simpa only [RecordRow.data, RecordData.mk.injEq] using same
  have asked : questionName (ascii "a") = ascii "a" := by decide +kernel
  have served : db.findZone (ascii "a") = .ok z := by
    have candidate : Database.candidates (normalizeZone (ascii "a")) = [ascii "a"] := by
      decide +kernel
    rw [Database.findZone_eq_ok_iff, stored, candidate]
    refine ⟨List.mem_singleton_self z, by rw [named]; exact List.mem_singleton_self _, ?_⟩
    intro w member _
    rw [List.mem_singleton.mp member]
  have owned : db.Owns z.name (ascii "a") :=
    ⟨row, by rw [rows]; exact List.mem_singleton_self row, by rw [sameZone, named], sameName⟩
  have here : db.recordsAt none z.name (ascii "a") = [scanRecord none row] := by
    simp [Database.recordsAt, Database.selectAt, rows, sameZone, sameName, named]
  refine ⟨by decide +kernel, z, ?_, 0, z, ascii "a", _, scanRecord none row, Nat.zero_le _, ?_,
    Handler.lookup_of_owns owned (.inl named.symm), rfl, rfl, ?_, ?_⟩
  · dsimp only
    rw [asked]
    exact served
  · dsimp only
    rw [asked]
    exact .here z (ascii "a")
  · have notANY : typeTXT ≠ typeANY := by decide
    have notSOA : ¬ (ascii "a" = z.name ∧ typeTXT = typeSOA) := fun soa => absurd soa.2 (by decide)
    rw [Handler.asked, if_neg notANY, if_neg notSOA, here, Handler.mem_filterType, type_scanRecord,
      sameType]
    exact ⟨List.mem_singleton_self _, code⟩
  · refine ⟨?_, wire, ?_, long⟩
    · rw [type_scanRecord, sameType, code]
      decide
    · rw [wireOf_scanRecord (.inl rfl), sameType, sameText, code]
      exact sentRData_of_ok built

/-- **A text of 65280 bytes is accepted, and the query for it is not answered.** -/
theorem longText_unanswered :
    Accepted id none (run id none zoneCalls) 2 (textRequest (List.replicate 65280 120)) ∧
      parseMessage textQuery = .ok textRequested ∧ textRequested.flags &&& flagQR = 0 ∧
      ∀ rotate, ((Handler.serving (run id none (textCalls (List.replicate 65280 120))) none
          rotate).handle textRequested).pack = .error .rdataTooLong ∧
        serveUDP (Handler.serving (run id none (textCalls (List.replicate 65280 120))) none rotate)
          textQuery = none := by
  obtain ⟨wire, built, long⟩ := buildRData_replicate 65280
  have trimmed := trimSpace_replicate 65280
  have parsed : parseMessage textQuery = .ok textRequested := by decide +kernel
  refine ⟨(run_textCalls trimmed ⟨wire, built⟩).1, parsed, by decide, fun rotate => ?_⟩
  have asks := asksOversized_text trimmed built (Nat.lt_of_lt_of_le (by decide) long) rotate
  have names := namesFit_of_reads (.inl rfl)
    (reads_serving (run id none (textCalls (List.replicate 65280 120))) none rotate)
    (stored_of_run _)
  have unfit := mt (Handler.rdataFits_handle_iff names (by rfl)).mp (not_not.mpr asks)
  refine ⟨Message.pack_of_not_rdataFits unfit, ?_⟩
  have received : ¬ textRequested.flags &&& flagQR ≠ 0 := by decide
  simp only [serveUDP, parsed, if_neg received, Message.packUDP_of_not_rdataFits unfit]

/-- A short one is. -/
theorem answered_iff_shortText : Reads
      (Handler.serving (run id none (textCalls [120])) none fun _ => 0)
        (run id none (textCalls [120])) none ∧
    (∀ now m, (now, .createRecord m) ∈ textCalls [120] → Sendable m.data) ∧
    Answered (Handler.serving (run id none (textCalls [120])) none fun _ => 0) textQuery
      textRequested := by
  have reads := reads_serving (run id none (textCalls [120])) none fun _ => 0
  have short : ∀ now m, (now, .createRecord m) ∈ textCalls [120] → Sendable m.data := by
    intro now m member wire encoded
    simp only [textCalls, zoneCalls, List.cons_append, List.nil_append, List.mem_cons,
      Prod.mk.injEq, reduceCtorEq, and_false, Request.createRecord.injEq,
      List.not_mem_nil, or_false,
      false_or] at member
    rw [member.2] at encoded
    have built : buildRData (typeCode (textRequest [120]).data.type)
        (textRequest [120]).data.rdata =
        .ok [1, 120] := by decide +kernel
    rw [← Except.ok.inj (built.symm.trans encoded)]
    decide
  refine ⟨reads, short, ?_⟩
  exact ((answered_iff id none none (.inl rfl) (textCalls [120]) _ reads).2 short).2 textQuery
    textRequested { name := ascii "a", type := typeTXT, cls := classIN } (by decide +kernel)
    (by decide) rfl

end ShardDNS.API

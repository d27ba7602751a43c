import ShardDNS.DNS.MessageCodec

/-!
# A packed message is read back

Reading a packed message gives the message again, up to what the wire does not
carry: the counts become the true sizes of the sections, a trailing dot of a name
is lost, an EDNS0 size of zero has become the server's own, and EDNS0 data is only
there when the message had it (`Message.readBack`).

Each loop of the reader is run over the octets of the loop that wrote them
(`parseQuestions_encode`, `parseRRs_encode`), behind any octets already read and
in front of any still to come. The counts do not wrap because every question
takes at least 5 octets and every record at least 11.
-/

set_option autoImplicit false

namespace ShardDNS.DNS

open Go LabelTree

/-! ## What is read back -/

def Question.readBack (q : Question) : Question := { q with name := DNS.readBack q.name }

def RR.readBack (rr : RR) : RR := { rr with name := DNS.readBack rr.name }

/-- The message as it is read back. -/
def Message.readBack (m : Message) : Message :=
  { m.setCounts with
    questions := m.questions.map Question.readBack
    answers := m.answers.map RR.readBack
    authority := m.authority.map RR.readBack
    additional := m.additional.map RR.readBack
    edns0DO := m.edns0 && m.edns0DO
    edns0Size :=
      if m.edns0 then if m.edns0Size = 0 then UInt16.ofNat maxEDNSUDPSize else m.edns0Size
      else 0 }

/-- `PackName` accepts the name. -/
def Packable (name : Bytes) : Prop := ∃ out, packName [] name = .ok out

theorem packable_iff {name : Bytes} :
    Packable name ↔ LabelsFit (textLabels name) ∧ wireLength (textLabels name) ≤ maxNameLen := by
  constructor
  · rintro ⟨out, packed⟩
    exact ⟨(packName_eq_ok_iff.mp packed).1, (packName_eq_ok_iff.mp packed).2.1⟩
  · rintro ⟨fit, short⟩
    exact ⟨_, packName_eq_ok_iff.mpr ⟨fit, short, rfl⟩⟩

variable {buf back : Bytes} {m : Message}

/-- A packable name is read back where it was written. -/
theorem parseName_of_drop {name : Bytes} {i : Nat} (packable : Packable name)
    (here : buf.drop i = appendName [] name ++ back) :
    parseName buf i = .ok (readBack name, i + (appendName [] name).length) := by
  obtain ⟨fit, short⟩ := packable_iff.mp packable
  have inside := length_of_drop here (length_appendName_pos name)
  have size := length_encodeLabels (textLabels name)
  rw [appendName_of_fit fit short] at here ⊢
  have read := parseName_packName fit short (buf.take i) back
  have layout : buf.take i ++ (encodeLabels (textLabels name) ++ 0 :: back) = buf := by
    rw [List.append_cons, ← here, List.take_append_drop]
  rw [layout, List.length_take, Nat.min_eq_left (by omega)] at read
  rw [read, List.length_append, List.length_singleton, size]

/-! ## The loops -/

theorem length_question_encode (q : Question) :
    q.encode.length = (appendName [] q.name).length + 4 := by
  simp [Question.encode]

theorem length_rr_encode (rr : RR) :
    rr.encode.length = (appendName [] rr.name).length + 10 + rr.rdata.length := by
  simp only [RR.encode, List.length_append, length_putUint16, length_putUint32]
  omega

/-- A question takes at least 5 octets. -/
theorem length_flatMap_question_encode (questions : List Question) :
    questions.length * 5 ≤ (questions.flatMap Question.encode).length := by
  induction questions with
  | nil => simp
  | cons q questions ih =>
      have positive := length_appendName_pos q.name
      rw [List.flatMap_cons, List.length_append, length_question_encode, List.length_cons]
      omega

/-- A record takes at least 11 octets. -/
theorem length_flatMap_rr_encode (rrs : List RR) :
    rrs.length * 11 ≤ (rrs.flatMap RR.encode).length := by
  induction rrs with
  | nil => simp
  | cons rr rrs ih =>
      have positive := length_appendName_pos rr.name
      rw [List.flatMap_cons, List.length_append, length_rr_encode, List.length_cons]
      omega

theorem parseQuestions_encode {i : Nat} {questions : List Question}
    (packable : ∀ q ∈ questions, Packable q.name)
    (here : buf.drop i = questions.flatMap Question.encode ++ back) :
    parseQuestions buf questions.length i =
      .ok (questions.map Question.readBack, i + (questions.flatMap Question.encode).length) := by
  induction questions generalizing i with
  | nil => simp [parseQuestions]
  | cons q questions ih =>
      have atName : buf.drop i = appendName [] q.name ++ (putUint16 q.type ++ (putUint16 q.cls ++
          (questions.flatMap Question.encode ++ back))) := by
        simpa [Question.encode] using here
      have name := parseName_of_drop (packable q (by simp)) atName
      have atType := drop_advance atName
      have atClass := drop_advance atType
      have atRest := drop_advance atClass
      have inside := length_of_drop atClass (by simp)
      simp only [length_putUint16] at atClass atRest inside
      have rest := ih (fun q' member => packable q' (by simp [member])) atRest
      simp only [List.length_cons, parseQuestions, name, mapError_ok, ok_bind]
      rw [if_neg (by omega), uint16At_of_drop atType, uint16At_of_drop atClass]
      simp only [ok_bind, rest]
      simp [Question.readBack, length_question_encode]
      omega

theorem parseRRs_encode {i : Nat} {rrs : List RR} (packable : ∀ rr ∈ rrs, Packable rr.name)
    (fits : ∀ rr ∈ rrs, rr.rdata.length ≤ 0xFFFF)
    (here : buf.drop i = rrs.flatMap RR.encode ++ back) :
    parseRRs buf rrs.length i =
      .ok (rrs.map RR.readBack, i + (rrs.flatMap RR.encode).length) := by
  induction rrs generalizing i with
  | nil => simp [parseRRs]
  | cons rr rrs ih =>
      have size : (UInt16.ofNat rr.rdata.length).toNat = rr.rdata.length := by
        have fit := fits rr (by simp)
        rw [UInt16.toNat_ofNat']
        omega
      have atName : buf.drop i = appendName [] rr.name ++ (putUint16 rr.type ++
          (putUint16 rr.cls ++ (putUint32 rr.ttl ++ (putUint16 (UInt16.ofNat rr.rdata.length) ++
            (rr.rdata ++ (rrs.flatMap RR.encode ++ back)))))) := by
        simpa [RR.encode] using here
      have name := parseName_of_drop (packable rr (by simp)) atName
      have atType := drop_advance atName
      have atClass := drop_advance atType
      have atTTL := drop_advance atClass
      have atLength := drop_advance atTTL
      have atRData := drop_advance atLength
      have atRest := drop_advance atRData
      have inside := length_of_drop atLength (by simp)
      simp only [length_putUint16, length_putUint32, List.length_append]
        at atClass atTTL atLength atRData atRest inside
      have rest := ih (fun rr' member => packable rr' (by simp [member]))
        (fun rr' member => fits rr' (by simp [member])) atRest
      simp only [List.length_cons, parseRRs, name, mapError_ok, ok_bind]
      rw [if_neg (by omega), uint16At_of_drop atType, uint16At_of_drop atClass,
        uint32At_of_drop atTTL, uint16At_of_drop atLength]
      simp only [ok_bind, size]
      rw [if_neg (by omega), slice_of_drop atRData (by omega)]
      simp only [ok_bind, rest]
      simp [RR.readBack, length_rr_encode]
      omega

/-- A section of records whose count does not wrap. -/
theorem parseRRSection_encode {i : Nat} {rrs : List RR} {count : UInt16}
    (packable : ∀ rr ∈ rrs, Packable rr.name) (fits : ∀ rr ∈ rrs, rr.rdata.length ≤ 0xFFFF)
    (here : buf.drop i = rrs.flatMap RR.encode ++ back) (counted : count.toNat = rrs.length) :
    parseRRSection buf i count =
      .ok (rrs.map RR.readBack, i + (rrs.flatMap RR.encode).length) := by
  have read := parseRRs_encode packable fits here
  unfold parseRRSection
  split
  · rename_i zero
    have empty : rrs = [] := List.length_eq_zero_iff.mp (by simpa [zero] using counted.symm)
    simp [empty]
  · rename_i nonzero
    have enough := length_flatMap_rr_encode rrs
    have positive : 0 < count.toNat := by
      rcases Nat.eq_zero_or_pos count.toNat with zero | positive
      · exact absurd (UInt16.toNat_inj.mp zero) nonzero
      · exact positive
    have inside := length_of_drop here (by omega)
    rw [if_neg (by omega), counted, read]

/-! ## The whole message -/

/-- Taking the OPT records out leaves the others, when these hold none. -/
theorem foldl_filterOPT_of_ne {rrs : List RR} (noOPT : ∀ rr ∈ rrs, rr.type ≠ typeOPT) :
    rrs.foldl filterOPT m = { m with additional := m.additional ++ rrs } := by
  induction rrs generalizing m with
  | nil => simp
  | cons rr rrs ih =>
      rw [List.foldl_cons, ih fun rr' member => noOPT rr' (by simp [member]), filterOPT,
        if_neg (noOPT rr (by simp))]
      simp

namespace Message

/-- The reader recovers the EDNS0 data from the OPT record. -/
theorem foldl_filterOPT_optRecords (m : Message) (base : Message) (plain : base.edns0 = false)
    (noDO : base.edns0DO = false) (noSize : base.edns0Size = 0) :
    (m.optRecords.map RR.readBack).foldl filterOPT base =
      { base with
        edns0 := m.edns0
        edns0DO := m.edns0 && m.edns0DO
        edns0Size :=
          if m.edns0 then if m.edns0Size = 0 then UInt16.ofNat maxEDNSUDPSize else m.edns0Size
          else 0 } := by
  cases edns : m.edns0 with
  | false =>
      cases base
      simp_all [optRecords]
  | true =>
      cases flag : m.edns0DO with
      | false => simp [optRecords, edns, flag, RR.readBack, filterOPT]
      | true => simp [optRecords, edns, flag, RR.readBack, filterOPT]

theorem packable_optRecords (m : Message) : ∀ rr ∈ m.optRecords, Packable rr.name := by
  intro rr member
  have root : rr.name = ascii "." := by
    unfold optRecords at member
    split at member
    · simp_all
    · simp at member
  rw [root]
  exact ⟨[0], by decide⟩

theorem rdata_optRecords (m : Message) : ∀ rr ∈ m.optRecords, rr.rdata.length ≤ 0xFFFF := by
  intro rr member
  unfold optRecords at member
  split at member
  · simp_all
  · simp at member

theorem length_optRecords (m : Message) :
    m.optRecords.length = (if m.edns0 then 1 else 0) := by
  unfold optRecords
  split <;> rfl

/-- The counts of the packed header are the sizes of the sections. -/
structure Counted (m : Message) : Prop where
  questions : m.setCounts.qdCount.toNat = m.questions.length
  answers : m.setCounts.anCount.toNat = m.answers.length
  authority : m.setCounts.nsCount.toNat = m.authority.length
  additional : m.setCounts.arCount.toNat = (m.additional ++ m.optRecords).length

/-- The counts of a message that fits 65535 octets do not wrap. -/
theorem counted_of_short (short : m.encode.length ≤ 65535) : m.Counted := by
  have questions := length_flatMap_question_encode m.questions
  have answers := length_flatMap_rr_encode m.answers
  have authority := length_flatMap_rr_encode m.authority
  have additional := length_flatMap_rr_encode (m.additional ++ m.optRecords)
  have opt := m.length_optRecords
  simp only [encode, List.length_append] at short additional
  refine ⟨?_, ?_, ?_, ?_⟩
  · simp only [setCounts, UInt16.toNat_ofNat']
    omega
  · simp only [setCounts, UInt16.toNat_ofNat']
    omega
  · simp only [setCounts, UInt16.toNat_ofNat']
    omega
  · simp only [setCounts, List.length_append, UInt16.toNat_add, UInt16.toNat_ofNat', opt]
    split
    · rename_i edns
      simp only [edns, if_true] at opt
      simp only [UInt16.toNat_one]
      omega
    · simp only [UInt16.toNat_zero]
      omega

/-- Nor do those of a truncated message, however long it is. -/
theorem counted_truncated (few : m.questions.length < 65536) : m.truncated.Counted := by
  refine ⟨?_, rfl, rfl, ?_⟩
  · simp only [setCounts, truncated, UInt16.toNat_ofNat']
    omega
  · rw [List.length_append, length_optRecords]
    simp only [setCounts, truncated]
    by_cases edns : m.edns0 = true <;> simp [edns]

/-- **A packed message is read back.** -/
theorem parseMessage_encode (questions : ∀ q ∈ m.questions, Packable q.name)
    (records : ∀ rr ∈ m.answers ++ m.authority ++ m.additional, Packable rr.name)
    (noOPT : ∀ rr ∈ m.additional, rr.type ≠ typeOPT) (fits : m.RDataFits) (counted : m.Counted) :
    parseMessage m.encode = .ok m.readBack := by
  obtain ⟨qdCount, anCount, nsCount, arCount⟩ := counted
  simp only [RDataFits, List.forall_mem_append] at records fits
  have atID : m.encode.drop 0 = putUint16 m.id ++ (putUint16 m.flags ++
      (putUint16 m.setCounts.qdCount ++ (putUint16 m.setCounts.anCount ++
        (putUint16 m.setCounts.nsCount ++ (putUint16 m.setCounts.arCount ++
          (m.questions.flatMap Question.encode ++ (m.answers.flatMap RR.encode ++
            (m.authority.flatMap RR.encode ++
              ((m.additional ++ m.optRecords).flatMap RR.encode ++ []))))))))) := by
    simp [encode, header, setCounts]
  have atFlags := drop_advance atID
  have atQD := drop_advance atFlags
  have atAN := drop_advance atQD
  have atNS := drop_advance atAN
  have atAR := drop_advance atNS
  have atQuestions := drop_advance atAR
  have atAnswers := drop_advance atQuestions
  have atAuthority := drop_advance atAnswers
  have atAdditional := drop_advance atAuthority
  have size := length_of_drop atAR (by simp)
  have enough := length_flatMap_question_encode m.questions
  simp only [length_putUint16, Nat.reduceAdd, List.length_append]
    at atFlags atQD atAN atNS atAR atQuestions atAnswers atAuthority atAdditional size
  have readQuestions := parseQuestions_encode questions atQuestions
  have readAnswers := parseRRSection_encode records.1.1 fits.1.1 atAnswers anCount
  have readAuthority := parseRRSection_encode records.1.2 fits.1.2 atAuthority nsCount
  have readAdditional := parseRRSection_encode
    (List.forall_mem_append.mpr ⟨records.2, m.packable_optRecords⟩)
    (List.forall_mem_append.mpr ⟨fits.2, m.rdata_optRecords⟩) atAdditional arCount
  have plain : ∀ rr ∈ m.additional.map RR.readBack, rr.type ≠ typeOPT := by
    intro rr member
    obtain ⟨source, sourceMember, rfl⟩ := List.mem_map.mp member
    exact noOPT source sourceMember
  unfold parseMessage
  rw [if_neg (by omega), uint16At_of_drop atID, uint16At_of_drop atFlags, uint16At_of_drop atQD,
    uint16At_of_drop atAN, uint16At_of_drop atNS, uint16At_of_drop atAR]
  simp only [ok_bind, qdCount]
  rw [if_neg (by omega), readQuestions]
  simp only [ok_bind, readAnswers, readAuthority, readAdditional, mapError_ok]
  rw [List.map_append, List.foldl_append, foldl_filterOPT_of_ne plain,
    m.foldl_filterOPT_optRecords _ rfl rfl rfl]
  simp [readBack, setCounts]

/-- **Message round trip.** A message with packable names, no OPT record of its own
among the additional ones, and RDATA and packed form of at most 65535 octets is
packed and read back, with counts that are the true sizes of its sections. -/
theorem parseMessage_pack (m : Message) (questions : ∀ q ∈ m.questions, Packable q.name)
    (records : ∀ rr ∈ m.answers ++ m.authority ++ m.additional, Packable rr.name)
    (noOPT : ∀ rr ∈ m.additional, rr.type ≠ typeOPT)
    (fits : ∀ rr ∈ m.answers ++ m.authority ++ m.additional, rr.rdata.length ≤ 65535)
    (short : ∀ out, m.pack = .ok out → out.length ≤ 65535) :
    ∃ out, m.pack = .ok out ∧ parseMessage out = .ok m.readBack ∧
      m.readBack.qdCount.toNat = m.questions.length ∧
      m.readBack.anCount.toNat = m.answers.length ∧
      m.readBack.nsCount.toNat = m.authority.length ∧
      m.readBack.arCount.toNat = m.additional.length + if m.edns0 then 1 else 0 := by
  have packed := pack_of_rdataFits fits
  have size := short _ packed
  have counted := counted_of_short size
  refine ⟨m.encode, packed, parseMessage_encode questions records noOPT fits counted,
    counted.questions, counted.answers, counted.authority, ?_⟩
  have additional := counted.additional
  rw [List.length_append, length_optRecords] at additional
  exact additional

/-- An address answered over EDNS0, with a trailing dot in the owner. -/
def addressResponse : Message :=
  { id := 7
    flags := flagQR ||| flagAA
    questions := [{ name := ascii "www.a.org", type := typeA, cls := classIN }]
    answers :=
      [{ name := ascii "www.a.org.", type := typeA, cls := classIN, ttl := 60
         rdata := [192, 0, 2, 1] }]
    edns0 := true }

theorem parseMessage_pack_addressResponse :
    ∃ out, addressResponse.pack = .ok out ∧ parseMessage out = .ok addressResponse.readBack ∧
      addressResponse.readBack.qdCount.toNat = 1 ∧ addressResponse.readBack.anCount.toNat = 1 ∧
      addressResponse.readBack.nsCount.toNat = 0 ∧ addressResponse.readBack.arCount.toNat = 1 := by
  have packed : addressResponse.pack = .ok addressResponse.encode := by decide
  refine addressResponse.parseMessage_pack ?_ ?_ ?_ ?_ ?_
  · exact List.forall_mem_singleton.mpr ⟨_, rfl⟩
  · exact List.forall_mem_singleton.mpr ⟨_, rfl⟩
  · decide
  · decide
  · rw [packed]
    rintro out ⟨⟩
    decide

end Message

/-! ## Names that cannot be packed -/

/-- The name that is written for a name: the root for one that cannot be packed. -/
def writtenName (name : Bytes) : Bytes :=
  match packName [] name with
  | .ok _ => name
  | .error _ => ascii "."

theorem packable_writtenName (name : Bytes) : Packable (writtenName name) := by
  unfold writtenName
  split
  · rename_i out packed
    exact ⟨out, packed⟩
  · exact ⟨[0], by decide⟩

theorem appendName_writtenName (name : Bytes) :
    appendName [] (writtenName name) = appendName [] name := by
  unfold writtenName
  cases packed : packName [] name with
  | ok out => rfl
  | error e =>
      rw [Message.appendName_root, appendName, packed]
      rfl

def Question.asWritten (q : Question) : Question := { q with name := writtenName q.name }

def RR.asWritten (rr : RR) : RR := { rr with name := writtenName rr.name }

namespace Message

/-- The message with the names that are written for its own. -/
def asWritten (m : Message) : Message :=
  { m with
    questions := m.questions.map Question.asWritten
    answers := m.answers.map RR.asWritten
    authority := m.authority.map RR.asWritten
    additional := m.additional.map RR.asWritten }

theorem encode_asWritten (m : Message) : m.asWritten.encode = m.encode := by
  have questions : ∀ q : Question, q.asWritten.encode = q.encode := fun q => by
    rw [Question.encode, Question.asWritten, appendName_writtenName]
    rfl
  have records : ∀ rr : RR, rr.asWritten.encode = rr.encode := fun rr => by
    rw [RR.encode, RR.asWritten, appendName_writtenName]
    rfl
  simp only [encode, asWritten, setCounts, header, optRecords, List.length_map, List.flatMap_map,
    List.flatMap_append, questions, records]
  rfl

/-- **Every packed message is read back**, with the names that were written. -/
theorem parseMessage_encode_asWritten (noOPT : ∀ rr ∈ m.additional, rr.type ≠ typeOPT)
    (fits : m.RDataFits) (counted : m.Counted) :
    parseMessage m.encode = .ok m.asWritten.readBack := by
  rw [← encode_asWritten]
  have names : ∀ rrs : List RR, ∀ rr ∈ rrs.map RR.asWritten, Packable rr.name := by
    intro rrs rr member
    obtain ⟨source, -, rfl⟩ := List.mem_map.mp member
    exact packable_writtenName source.name
  have kept : ∀ (P : RR → Prop), (∀ rr, P rr → P rr.asWritten) → ∀ rrs : List RR,
      (∀ rr ∈ rrs, P rr) → ∀ rr ∈ rrs.map RR.asWritten, P rr := by
    intro P same rrs all rr member
    obtain ⟨source, inside, rfl⟩ := List.mem_map.mp member
    exact same source (all source inside)
  refine parseMessage_encode ?_ ?_ ?_ ?_ ?_
  · intro q member
    obtain ⟨source, -, rfl⟩ := List.mem_map.mp member
    exact packable_writtenName source.name
  · simp only [asWritten, ← List.map_append]
    exact names _
  · exact kept (fun rr => rr.type ≠ typeOPT) (fun _ other => other) _ noOPT
  · simp only [RDataFits, asWritten, ← List.map_append]
    exact kept (fun rr => rr.rdata.length ≤ 0xFFFF) (fun _ short => short) _ fits
  · obtain ⟨questions, answers, authority, additional⟩ := counted
    constructor
    all_goals simp only [setCounts, asWritten, List.length_map, List.length_append] at *
    all_goals assumption

end Message

end ShardDNS.DNS

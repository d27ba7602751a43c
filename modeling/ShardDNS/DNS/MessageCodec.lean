import ShardDNS.DNS.NameCodec

/-!
# Messages on the wire

`parseMessage` reads a header, the four sections its counts announce, and takes
the OPT records out of the additional section; `pack` writes a message with
counts of its own and an OPT record last; `packUDP` packs into a datagram,
dropping first the additional section and then every record when the message
is too large.

Packing fails only for RDATA longer than its length field can say (`pack_eq_ok_iff`,
`packUDP_of_not_rdataFits`), and what it writes otherwise is `encode`, whole or cut down
(`packUDP_cases`).
-/

set_option autoImplicit false

namespace ShardDNS.DNS

open Go LabelTree

/-! ## Reading -/

/-- The errors of `parseRRSection`. `outOfRange` never occurs, since every access
follows a check of its bounds. -/
inductive SectionError where
  | countExceedsSize
  | name (e : NameError)
  | truncatedHeader
  | truncatedRData
  | outOfRange
  deriving DecidableEq, Repr

/-- The errors of `ParseMessage`. -/
inductive ParseError where
  | tooShort
  | questionCount
  | questionName (e : NameError)
  | truncatedQuestion
  | answers (e : SectionError)
  | authority (e : SectionError)
  | additional (e : SectionError)
  | outOfRange
  deriving DecidableEq, Repr

/-- The loop over the questions. -/
def parseQuestions (buf : Bytes) : Nat → Nat → Except ParseError (List Question × Nat)
  | 0, off => .ok ([], off)
  | count + 1, off => do
      let (name, next) ← (parseName buf off).mapError .questionName
      if buf.length < next + 4 then .error .truncatedQuestion
      else do
        let type ← uint16At .outOfRange buf next
        let cls ← uint16At .outOfRange buf (next + 2)
        let (rest, off') ← parseQuestions buf count (next + 4)
        .ok ({ name := name, type := type, cls := cls } :: rest, off')

/-- The loop of `parseRRSection`. -/
def parseRRs (buf : Bytes) : Nat → Nat → Except SectionError (List RR × Nat)
  | 0, off => .ok ([], off)
  | count + 1, off => do
      let (name, next) ← (parseName buf off).mapError .name
      if buf.length < next + 10 then .error .truncatedHeader
      else do
        let type ← uint16At .outOfRange buf next
        let cls ← uint16At .outOfRange buf (next + 2)
        let ttl ← uint32At .outOfRange buf (next + 4)
        let rdlen ← uint16At .outOfRange buf (next + 8)
        if buf.length < next + 10 + rdlen.toNat then .error .truncatedRData
        else do
          let rdata ← slice .outOfRange buf (next + 10) (next + 10 + rdlen.toNat)
          let (rest, off') ← parseRRs buf count (next + 10 + rdlen.toNat)
          .ok ({ name := name, type := type, cls := cls, ttl := ttl, rdata := rdata } :: rest, off')

/-- A section of `count` records at `off`. Every record takes at least 11 octets,
so a count the buffer cannot hold is refused before anything is read. -/
def parseRRSection (buf : Bytes) (off : Nat) (count : UInt16) :
    Except SectionError (List RR × Nat) :=
  if count = 0 then .ok ([], off)
  else if buf.length < off + count.toNat * 11 then .error .countExceedsSize
  else parseRRs buf count.toNat off

/-- The loop that takes the OPT records out of the additional section; the last
one gives the EDNS0 data. -/
def filterOPT (m : Message) (rr : RR) : Message :=
  if rr.type = typeOPT then
    { m with edns0 := true, edns0Size := rr.cls, edns0DO := (rr.ttl &&& 0x00008000) != 0 }
  else { m with additional := m.additional ++ [rr] }

/-- `ParseMessage`. -/
def parseMessage (buf : Bytes) : Except ParseError Message :=
  if buf.length < 12 then .error .tooShort
  else do
    let id ← uint16At .outOfRange buf 0
    let flags ← uint16At .outOfRange buf 2
    let qdCount ← uint16At .outOfRange buf 4
    let anCount ← uint16At .outOfRange buf 6
    let nsCount ← uint16At .outOfRange buf 8
    let arCount ← uint16At .outOfRange buf 10
    if buf.length < 12 + qdCount.toNat * 5 then .error .questionCount
    else do
      let (questions, off) ← parseQuestions buf qdCount.toNat 12
      let (answers, off) ← (parseRRSection buf off anCount).mapError .answers
      let (authority, off) ← (parseRRSection buf off nsCount).mapError .authority
      let (additional, _) ← (parseRRSection buf off arCount).mapError .additional
      .ok (additional.foldl filterOPT
        { id := id, flags := flags, qdCount := qdCount, anCount := anCount, nsCount := nsCount,
          arCount := arCount, questions := questions, answers := answers,
          authority := authority })

/-! ## Writing -/

/-- The error of `Pack`. -/
inductive PackError where
  | rdataTooLong
  deriving DecidableEq, Repr

def appendQuestion (buf : Bytes) (q : Question) : Bytes :=
  appendName buf q.name ++ putUint16 q.type ++ putUint16 q.cls

def appendRRs (buf : Bytes) : List RR → Except PackError Bytes
  | [] => .ok buf
  | rr :: rrs =>
      let header := appendName buf rr.name ++ putUint16 rr.type ++ putUint16 rr.cls ++
        putUint32 rr.ttl
      if 0xFFFF < rr.rdata.length then .error .rdataTooLong
      else appendRRs (header ++ putUint16 (UInt16.ofNat rr.rdata.length) ++ rr.rdata) rrs

/-- The OPT record: the root, the type, the size in the place of the class, and the
DO bit in the TTL; no options. -/
def appendOPT (buf : Bytes) (size : UInt16) (dobit : Bool) : Bytes :=
  let size := if size = 0 then UInt16.ofNat maxEDNSUDPSize else size
  buf ++ [0] ++ putUint16 typeOPT ++ putUint16 size ++
    putUint32 (if dobit then 0x00008000 else 0) ++ putUint16 0

namespace Message

/-- The counts `Pack` sets; the OPT record is one more additional record. -/
def setCounts (m : Message) : Message :=
  { m with
    qdCount := UInt16.ofNat m.questions.length
    anCount := UInt16.ofNat m.answers.length
    nsCount := UInt16.ofNat m.authority.length
    arCount := UInt16.ofNat m.additional.length + if m.edns0 then 1 else 0 }

def header (m : Message) : Bytes :=
  putUint16 m.id ++ putUint16 m.flags ++ putUint16 m.qdCount ++ putUint16 m.anCount ++
    putUint16 m.nsCount ++ putUint16 m.arCount

/-- `Pack`, into an empty buffer. -/
def pack (m : Message) : Except PackError Bytes := do
  let buf := m.setCounts.header
  let buf := m.questions.foldl appendQuestion buf
  let buf ← appendRRs buf m.answers
  let buf ← appendRRs buf m.authority
  let buf ← appendRRs buf m.additional
  return if m.edns0 then appendOPT buf m.edns0Size m.edns0DO else buf

/-- The message of last resort: the questions and the EDNS0 data, with the TC bit. -/
def truncated (m : Message) : Message :=
  { toHeader := { m.toHeader with flags := m.flags ||| flagTC }
    questions := m.questions
    edns0 := m.edns0
    edns0DO := m.edns0DO
    edns0Size := m.edns0Size }

/-- `PackUDP`. -/
def packUDP (m : Message) : Except PackError Bytes := do
  let limit := m.udpSize
  let out ← m.pack
  if out.length ≤ limit then .ok out
  else if 0 < m.additional.length then do
    let out ← { m with additional := [] }.pack
    if out.length ≤ limit then .ok out else m.truncated.pack
  else m.truncated.pack

end Message

/-! ## What packing writes -/

def Question.encode (q : Question) : Bytes :=
  appendName [] q.name ++ (putUint16 q.type ++ putUint16 q.cls)

def RR.encode (rr : RR) : Bytes :=
  appendName [] rr.name ++ (putUint16 rr.type ++ (putUint16 rr.cls ++ (putUint32 rr.ttl ++
    (putUint16 (UInt16.ofNat rr.rdata.length) ++ rr.rdata))))

theorem foldl_appendQuestion (buf : Bytes) (questions : List Question) :
    questions.foldl appendQuestion buf = buf ++ questions.flatMap Question.encode := by
  induction questions generalizing buf with
  | nil => simp
  | cons q questions ih =>
      rw [List.foldl_cons, ih, appendQuestion, appendName_eq]
      simp [Question.encode]

theorem appendRRs_eq_ok_iff {buf out : Bytes} {rrs : List RR} :
    appendRRs buf rrs = .ok out ↔
      (∀ rr ∈ rrs, rr.rdata.length ≤ 0xFFFF) ∧ out = buf ++ rrs.flatMap RR.encode := by
  induction rrs generalizing buf with
  | nil => simp [appendRRs, eq_comm]
  | cons rr rrs ih =>
      simp only [appendRRs, List.forall_mem_cons]
      split
      · rename_i long
        simp [Nat.not_le.mpr long]
      · rename_i short
        rw [ih, appendName_eq]
        simp [RR.encode, Nat.not_lt.mp short]

namespace Message

/-- The OPT record a message is packed with. -/
def optRecords (m : Message) : List RR :=
  if m.edns0 then
    [{ name := ascii "."
       type := typeOPT
       cls := if m.edns0Size = 0 then UInt16.ofNat maxEDNSUDPSize else m.edns0Size
       ttl := if m.edns0DO then 0x00008000 else 0
       rdata := [] }]
  else []

/-- The octets of a message. -/
def encode (m : Message) : Bytes :=
  m.setCounts.header ++ (m.questions.flatMap Question.encode ++ (m.answers.flatMap RR.encode ++
    (m.authority.flatMap RR.encode ++ (m.additional ++ m.optRecords).flatMap RR.encode)))

/-- Every record has RDATA that its length field can count. -/
def RDataFits (m : Message) : Prop :=
  ∀ rr ∈ m.answers ++ m.authority ++ m.additional, rr.rdata.length ≤ 0xFFFF

theorem appendName_root : appendName [] (ascii ".") = [0] := by decide

theorem appendOPT_eq (m : Message) (buf : Bytes) :
    (if m.edns0 then appendOPT buf m.edns0Size m.edns0DO else buf) =
      buf ++ m.optRecords.flatMap RR.encode := by
  unfold optRecords
  split
  · simp [appendOPT, RR.encode, appendName_root]
  · simp

/-- **Packing succeeds exactly when every RDATA fits its length field.** -/
theorem pack_eq_ok_iff {m : Message} {out : Bytes} :
    m.pack = .ok out ↔ m.RDataFits ∧ out = m.encode := by
  simp only [pack, bind_eq_ok, appendRRs_eq_ok_iff, foldl_appendQuestion, Pure.pure, Except.pure,
    Except.ok.injEq, appendOPT_eq, RDataFits, List.forall_mem_append]
  constructor
  · rintro ⟨_, ⟨answers, rfl⟩, _, ⟨authority, rfl⟩, _, ⟨additional, rfl⟩, rfl⟩
    exact ⟨⟨⟨answers, authority⟩, additional⟩, by simp [encode]⟩
  · rintro ⟨⟨⟨answers, authority⟩, additional⟩, rfl⟩
    exact ⟨_, ⟨answers, rfl⟩, _, ⟨authority, rfl⟩, _, ⟨additional, rfl⟩, by simp [encode]⟩

theorem pack_of_rdataFits {m : Message} (fits : m.RDataFits) : m.pack = .ok m.encode :=
  pack_eq_ok_iff.mpr ⟨fits, rfl⟩

theorem pack_of_not_rdataFits {m : Message} (unfit : ¬ m.RDataFits) :
    m.pack = .error .rdataTooLong := by
  cases packed : m.pack with
  | ok out => exact absurd (pack_eq_ok_iff.mp packed).1 unfit
  | error e => rfl

theorem packUDP_of_not_rdataFits {m : Message} (unfit : ¬ m.RDataFits) :
    m.packUDP = .error .rdataTooLong := by
  rw [packUDP, pack_of_not_rdataFits unfit]
  rfl

theorem rdataFits_truncated (m : Message) : m.truncated.RDataFits := by
  simp [RDataFits, truncated]

theorem RDataFits.trimmed {m : Message} (fits : m.RDataFits) :
    { m with additional := [] }.RDataFits := by
  intro rr member
  rw [List.append_nil] at member
  exact fits rr (List.mem_append_left _ member)

theorem packUDP_of_rdataFits {m : Message} (fits : m.RDataFits) : ∃ out, m.packUDP = .ok out := by
  simp only [packUDP, pack_of_rdataFits fits, pack_of_rdataFits fits.trimmed,
    pack_of_rdataFits m.rdataFits_truncated, ok_bind]
  split
  · exact ⟨_, rfl⟩
  · split
    · split <;> exact ⟨_, rfl⟩
    · exact ⟨_, rfl⟩

/-- **What a datagram holds**: the whole message or the message without its
additional section if that fits, the questions alone otherwise. -/
theorem packUDP_cases {m : Message} {out : Bytes} (packed : m.packUDP = .ok out) :
    (out = m.encode ∧ out.length ≤ m.udpSize) ∨
      (out = { m with additional := [] }.encode ∧ out.length ≤ m.udpSize) ∨
        (out = m.truncated.encode ∧ m.udpSize < m.encode.length) := by
  simp only [packUDP, bind_eq_ok] at packed
  obtain ⟨whole, wholePacked, packed⟩ := packed
  obtain ⟨-, rfl⟩ := pack_eq_ok_iff.mp wholePacked
  split at packed
  · rename_i short
    cases packed
    exact .inl ⟨rfl, short⟩
  · rename_i long
    have exceeds := Nat.not_le.mp long
    split at packed
    · obtain ⟨trimmed, trimmedPacked, packed⟩ := bind_eq_ok.mp packed
      obtain ⟨-, rfl⟩ := pack_eq_ok_iff.mp trimmedPacked
      split at packed
      · rename_i short
        cases packed
        exact .inr (.inl ⟨rfl, short⟩)
      · exact .inr (.inr ⟨(pack_eq_ok_iff.mp packed).2, exceeds⟩)
    · exact .inr (.inr ⟨(pack_eq_ok_iff.mp packed).2, exceeds⟩)

end Message

end ShardDNS.DNS

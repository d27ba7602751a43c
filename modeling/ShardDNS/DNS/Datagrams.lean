import ShardDNS.DNS.RoundTrip

/-!
# What a datagram carries

`PackUDP` chooses among three forms of a message: the message as it is, the message
without its additional records, and its questions with the TC bit. `Message.datagram` says
which one is sent, and `packUDP_of_fits` that `packUDP` writes its octets.

A reader of the datagram gets that form up to what the wire does not carry
(`Message.readBack`): it is the message itself only if its names have no trailing dot,
its counts are right and its EDNS0 data is in order. Nothing is said here about the
length of the last form, which `PackUDP` does not check.
-/

set_option autoImplicit false

namespace ShardDNS.DNS

open Go

namespace Message

/-- The message without its additional records. -/
def trimmed (m : Message) : Message := { m with additional := [] }

/-- The form of the message that is sent in a datagram. -/
def datagram (m : Message) : Message :=
  if m.encode.length ≤ m.udpSize then m
  else if m.additional ≠ [] ∧ m.trimmed.encode.length ≤ m.udpSize then m.trimmed
  else m.truncated

variable {m : Message}

theorem datagram_of_short (short : m.encode.length ≤ m.udpSize) : m.datagram = m :=
  if_pos short

theorem datagram_of_trimmed (long : m.udpSize < m.encode.length) (more : m.additional ≠ [])
    (short : m.trimmed.encode.length ≤ m.udpSize) : m.datagram = m.trimmed := by
  rw [datagram, if_neg (Nat.not_le.mpr long), if_pos ⟨more, short⟩]

theorem datagram_of_long (long : m.udpSize < m.encode.length)
    (either : m.additional = [] ∨ m.udpSize < m.trimmed.encode.length) :
    m.datagram = m.truncated := by
  rw [datagram, if_neg (Nat.not_le.mpr long), if_neg]
  rintro ⟨more, short⟩
  rcases either with empty | long
  · exact more empty
  · exact Nat.not_le.mpr long short

/-- The datagram is one of the three forms. -/
theorem datagram_cases (m : Message) :
    m.datagram = m ∨ m.datagram = m.trimmed ∨ m.datagram = m.truncated := by
  unfold datagram
  split
  · exact .inl rfl
  · split
    · exact .inr (.inl rfl)
    · exact .inr (.inr rfl)

/-- **`PackUDP` writes the octets of the datagram.** -/
theorem packUDP_of_fits (fits : m.RDataFits) : m.packUDP = .ok m.datagram.encode := by
  have trimmed : { m with additional := [] }.pack = .ok m.trimmed.encode :=
    pack_of_rdataFits fits.trimmed
  simp only [packUDP, pack_of_rdataFits fits, trimmed, pack_of_rdataFits m.rdataFits_truncated,
    ok_bind, datagram, List.length_pos_iff]
  by_cases whole : m.encode.length ≤ m.udpSize
  · rw [if_pos whole, if_pos whole]
  · rw [if_neg whole, if_neg whole]
    by_cases more : m.additional ≠ []
    · by_cases short : m.trimmed.encode.length ≤ m.udpSize
      · rw [if_pos more, if_pos short, if_pos ⟨more, short⟩]
      · rw [if_pos more, if_neg short, if_neg fun both => short both.2]
    · rw [if_neg more, if_neg fun both => more both.1]

/-! ## Reading a datagram -/

/-- The conditions under which a message is read back, the length apart. -/
structure Readable (m : Message) : Prop where
  questions : ∀ q ∈ m.questions, Packable q.name
  records : ∀ rr ∈ m.answers ++ m.authority ++ m.additional, Packable rr.name
  noOPT : ∀ rr ∈ m.additional, rr.type ≠ typeOPT
  fits : m.RDataFits

theorem Readable.trimmed (readable : m.Readable) : m.trimmed.Readable := by
  refine ⟨readable.questions, fun rr member => ?_, fun rr member => ?_, readable.fits.trimmed⟩
  · rw [Message.trimmed, List.append_nil] at member
    exact readable.records rr (List.mem_append_left _ member)
  · cases member

theorem Readable.truncated (readable : m.Readable) : m.truncated.Readable := by
  refine ⟨readable.questions, fun rr member => ?_, fun rr member => ?_, m.rdataFits_truncated⟩
  · cases member
  · cases member

/-- Leaving records out makes the packed form no longer. -/
theorem length_encode_trimmed (m : Message) : m.trimmed.encode.length ≤ m.encode.length := by
  have opt : m.trimmed.optRecords = m.optRecords := rfl
  simp only [encode, opt, List.length_append, List.flatMap_append]
  simp only [trimmed, header, List.length_append, List.flatMap_nil, List.length_nil,
    length_putUint16]
  omega

theorem readable_datagram (readable : m.Readable) (short : m.encode.length ≤ 65535) :
    m.datagram.Readable ∧ m.datagram.Counted := by
  have counted := counted_of_short short
  rcases m.datagram_cases with same | same | same
  · rw [same]
    exact ⟨readable, counted⟩
  · rw [same]
    exact ⟨readable.trimmed, counted_of_short (Nat.le_trans m.length_encode_trimmed short)⟩
  · rw [same]
    have few := counted.questions
    have bound := m.setCounts.qdCount.toNat_lt
    exact ⟨readable.truncated, counted_truncated (by omega)⟩

theorem parseMessage_datagram (readable : m.Readable) (short : m.encode.length ≤ 65535) :
    parseMessage m.datagram.encode = .ok m.datagram.readBack := by
  obtain ⟨inside, counted⟩ := readable_datagram readable short
  exact parseMessage_encode inside.questions inside.records inside.noOPT inside.fits counted

/-- A truncated message has the TC bit. -/
theorem flags_truncated (m : Message) : m.truncated.flags &&& flagTC ≠ 0 := by
  intro clear
  rw [truncated, or_and_mask] at clear
  exact absurd (UInt16.or_eq_zero_iff.mp clear).2 (by decide)

/-- **A datagram is the most complete form that fits.** It is read as the message when its
packed form fits the limit, as the message without its additional records when it has some and
only that form fits, and as the truncated message otherwise; all of them up to what the wire
does not carry. The counts are the sizes of the sections that are read, and without the
TC bit no answer or authority record is missing. -/
theorem packUDP_most_complete (m : Message) (questions : ∀ q ∈ m.questions, Packable q.name)
    (records : ∀ rr ∈ m.answers ++ m.authority ++ m.additional, Packable rr.name)
    (noOPT : ∀ rr ∈ m.additional, rr.type ≠ typeOPT)
    (fits : ∀ rr ∈ m.answers ++ m.authority ++ m.additional, rr.rdata.length ≤ 65535)
    (short : ∀ out, m.pack = .ok out → out.length ≤ 65535) :
    ∃ whole bare out read, m.pack = .ok whole ∧ { m with additional := [] }.pack = .ok bare ∧
      m.packUDP = .ok out ∧ parseMessage out = .ok read ∧
      (whole.length ≤ m.udpSize → read = m.readBack) ∧
      (m.udpSize < whole.length → m.additional ≠ [] → bare.length ≤ m.udpSize →
        read = { m with additional := [] }.readBack) ∧
      (m.udpSize < whole.length → m.additional = [] ∨ m.udpSize < bare.length →
        read = m.truncated.readBack) ∧
      read.qdCount.toNat = read.questions.length ∧
      read.anCount.toNat = read.answers.length ∧
      read.nsCount.toNat = read.authority.length ∧
      read.arCount.toNat = read.additional.length + (if read.edns0 then 1 else 0) ∧
      (read.flags &&& flagTC = 0 →
        read.answers = m.answers.map RR.readBack ∧
        read.authority = m.authority.map RR.readBack) := by
  have packed := pack_of_rdataFits fits
  have readable : m.Readable := ⟨questions, records, noOPT, fits⟩
  have size := short _ packed
  obtain ⟨-, counted⟩ := readable_datagram readable size
  refine ⟨m.encode, m.trimmed.encode, m.datagram.encode, m.datagram.readBack, packed,
    pack_of_rdataFits readable.fits.trimmed, packUDP_of_fits fits,
    parseMessage_datagram readable size, ?_, ?_, ?_, ?_, ?_, ?_, ?_, ?_⟩
  · intro whole
    rw [datagram_of_short whole]
  · intro long some bare
    rw [datagram_of_trimmed long some bare]
    rfl
  · intro long either
    rw [datagram_of_long long either]
  · rw [readBack, List.length_map]
    exact counted.questions
  · rw [readBack, List.length_map]
    exact counted.answers
  · rw [readBack, List.length_map]
    exact counted.authority
  · have additional := counted.additional
    rw [List.length_append, length_optRecords] at additional
    rw [readBack, List.length_map]
    exact additional
  · intro clear
    rcases m.datagram_cases with same | same | same
    · rw [same]
      exact ⟨rfl, rfl⟩
    · rw [same]
      exact ⟨rfl, rfl⟩
    · rw [same] at clear
      exact absurd clear m.flags_truncated

/-- A question for a name that is written with its trailing dot. -/
def dottedQuestion : Message :=
  { id := 7
    flags := 0
    qdCount := 1
    questions := [{ name := ascii "a.", type := typeA, cls := classIN }] }

/-- The datagram is not always read as the message itself: a trailing dot is lost, though the
message fits and its counts are right. -/
theorem dottedQuestion_not_itself :
    Packable (ascii "a.") ∧ dottedQuestion.setCounts = dottedQuestion ∧
      ∃ out, dottedQuestion.pack = .ok out ∧ out.length ≤ dottedQuestion.udpSize ∧
        dottedQuestion.packUDP = .ok out ∧ parseMessage out ≠ .ok dottedQuestion := by
  refine ⟨⟨_, rfl⟩, rfl, dottedQuestion.encode, ?_, ?_, ?_, ?_⟩
  · decide +kernel
  · decide +kernel
  · decide +kernel
  · decide +kernel

/-- The question fits a datagram and is read back without its dot. -/
theorem packUDP_most_complete_dottedQuestion :
    ∃ out, dottedQuestion.packUDP = .ok out ∧
      parseMessage out = .ok dottedQuestion.readBack := by
  have packed : dottedQuestion.pack = .ok dottedQuestion.encode := by decide +kernel
  obtain ⟨whole, bare, out, read, wholePacked, -, sent, parsed, itself, -⟩ :=
    dottedQuestion.packUDP_most_complete (List.forall_mem_singleton.mpr ⟨_, rfl⟩)
      (List.forall_mem_nil _) (List.forall_mem_nil _) (List.forall_mem_nil _) (by
        rw [packed]
        rintro out ⟨⟩
        decide +kernel)
  rw [packed] at wholePacked
  cases wholePacked
  refine ⟨out, sent, ?_⟩
  rw [parsed, itself (by decide +kernel)]

end Message

end ShardDNS.DNS

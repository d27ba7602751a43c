import ShardDNS.DNS.QuestionEcho
import ShardDNS.DNS.Datagrams

/-!
# Serving datagrams

`serveUDP` reads a datagram, answers it and packs the answer into a datagram;
`serveTCP` does the same for a message of a stream.

How large a datagram may be is decided on the response, which advertises the
server's own EDNS0 size instead of the client's (`udpSize_handle`). The last
resort of packing, questions and OPT record alone, is not measured again. So two
limits can be passed:

* a response is larger than its own limit exactly when its questions, written
  without compression, do not fit (`packUDP_within_limit_iff`); with one question
  they always do;
* for one question, the datagram is larger than what the client advertised exactly
  when the client uses EDNS0 with a size below 1232 and the form of the response that
  is chosen for 1232 octets takes more than that size
  (`serveUDP_within_advertised_iff`).
-/

set_option autoImplicit false

namespace ShardDNS.DNS

open Go Store

/-! ## The server -/

/-- `formErr`: a header with the request's ID, opcode and RD bit. -/
def formErr (req : Bytes) : Bytes :=
  req.take 2 ++ [0x80 ||| ((req[2]?).getD 0 &&& 0x79), 1] ++ List.replicate 8 0

/-- What is sent in answer to a datagram. -/
def serveUDP (h : Handler) (data : Bytes) : Option Bytes :=
  match parseMessage data with
  | .error _ =>
      if 12 ≤ data.length ∧ (data[2]?).getD 0 &&& 0x80 = 0 then some (formErr data) else none
  | .ok req =>
      if req.flags &&& flagQR ≠ 0 then none
      else
        match (h.handle req).packUDP with
        | .ok out => some out
        | .error _ => none

/-- What is sent in answer to a message of a stream; otherwise the stream is closed. -/
def serveTCP (h : Handler) (data : Bytes) : Option Bytes :=
  if data.length < 12 then none
  else
    match parseMessage data with
    | .error _ => if (data[2]?).getD 0 &&& 0x80 = 0 then some (formErr data) else none
    | .ok req =>
        if req.flags &&& flagQR ≠ 0 then none
        else
          match (h.handle req).pack with
          | .ok out => if 65535 < out.length then none else some out
          | .error _ => none

/-! ## Sizes -/

namespace Message

/-- The octets of the header, the questions and the OPT record. -/
def echoLength (m : Message) : Nat :=
  12 + (m.questions.flatMap Question.encode).length + if m.edns0 then 11 else 0

theorem length_optRecords_encode (m : Message) :
    (m.optRecords.flatMap RR.encode).length = if m.edns0 then 11 else 0 := by
  unfold optRecords
  split
  · rw [List.flatMap_singleton, length_rr_encode, appendName_root]
    rfl
  · rfl

theorem length_encode (m : Message) :
    m.encode.length = m.echoLength + (m.answers.flatMap RR.encode).length +
      (m.authority.flatMap RR.encode).length + (m.additional.flatMap RR.encode).length := by
  have header : m.setCounts.header.length = 12 := rfl
  simp only [encode, echoLength, List.length_append, List.flatMap_append, header,
    length_optRecords_encode]
  omega

theorem length_encode_truncated (m : Message) : m.truncated.encode.length = m.echoLength := by
  have same : m.truncated.echoLength = m.echoLength := rfl
  rw [length_encode, same]
  rfl

theorem udpSize_bounds (m : Message) :
    maxUDPMessageSize ≤ m.udpSize ∧ m.udpSize ≤ maxEDNSUDPSize := by
  unfold udpSize
  constructor <;> split_ifs <;> simp only [maxUDPMessageSize, maxEDNSUDPSize] at * <;> omega

/-- Sizes above the largest one count as that. -/
theorem udpSize_of_large {m : Message} (large : maxEDNSUDPSize ≤ m.edns0Size.toNat) :
    m.udpSize = if m.edns0 then maxEDNSUDPSize else maxUDPMessageSize := by
  have above : ¬ m.edns0Size.toNat < maxUDPMessageSize := by
    simp only [maxUDPMessageSize, maxEDNSUDPSize] at large ⊢
    omega
  cases edns : m.edns0 with
  | false => simp [udpSize, edns]
  | true =>
      simp only [udpSize, edns, Bool.not_true, Bool.false_eq_true, if_false, if_neg above, if_true]
      split
      · rfl
      · omega

/-- One question leaves the limit of any message alone. -/
theorem echoLength_single {m : Message} {q : Question} (single : m.questions = [q]) :
    m.echoLength ≤ maxUDPMessageSize := by
  have name := length_appendName_le q.name
  simp only [echoLength, single, List.flatMap_singleton, length_question_encode,
    maxUDPMessageSize]
  simp only [maxNameLen] at name
  split <;> omega

/-- A message without records is packed as it is or, being too large, as its own
questions. -/
theorem length_packUDP_bare {m : Message} {out : Bytes} (answers : m.answers = [])
    (authority : m.authority = []) (additional : m.additional = [])
    (packed : m.packUDP = .ok out) : out.length = m.echoLength := by
  have bare : { m with additional := [] } = m := by rw [← additional]
  have size : m.encode.length = m.echoLength := by
    rw [length_encode]
    simp [answers, authority, additional]
  rcases packUDP_cases packed with ⟨rfl, -⟩ | ⟨rfl, -⟩ | ⟨rfl, -⟩
  · exact size
  · rw [bare, size]
  · exact m.length_encode_truncated

/-- A message without records can be packed. -/
theorem packUDP_bare {m : Message} (answers : m.answers = []) (authority : m.authority = [])
    (additional : m.additional = []) : ∃ out, m.packUDP = .ok out := by
  have fits : m.RDataFits := by
    intro rr member
    simp [answers, authority, additional] at member
  exact packUDP_of_rdataFits fits

/-- A datagram never passes the limit when the questions do not. -/
theorem packUDP_within {m : Message} {out : Bytes} (short : m.echoLength ≤ m.udpSize)
    (packed : m.packUDP = .ok out) : out.length ≤ m.udpSize := by
  rcases packUDP_cases packed with ⟨-, within⟩ | ⟨-, within⟩ | ⟨rfl, -⟩
  · exact within
  · exact within
  · rwa [length_encode_truncated]

/-- What the limit of a message lets through keeps to another size: the whole of it or, where
that is too long, the message without its additional records. -/
structure KeepsTo (m : Message) (size : Nat) : Prop where
  whole : m.encode.length ≤ m.udpSize → m.encode.length ≤ size
  trimmed : m.udpSize < m.encode.length → m.trimmed.encode.length ≤ m.udpSize →
    m.trimmed.encode.length ≤ size

instance (m : Message) (size : Nat) : Decidable (m.KeepsTo size) :=
  decidable_of_iff
    ((m.encode.length ≤ m.udpSize → m.encode.length ≤ size) ∧
      (m.udpSize < m.encode.length → m.trimmed.encode.length ≤ m.udpSize →
        m.trimmed.encode.length ≤ size))
    ⟨fun ⟨whole, trimmed⟩ => ⟨whole, trimmed⟩, fun ⟨whole, trimmed⟩ => ⟨whole, trimmed⟩⟩

/-- A datagram keeps to a size that its questions keep to exactly when the form that is chosen
does. -/
theorem length_datagram_le_iff {m : Message} {size : Nat} (short : m.echoLength ≤ size) :
    m.datagram.encode.length ≤ size ↔ m.KeepsTo size := by
  by_cases whole : m.encode.length ≤ m.udpSize
  · rw [datagram_of_short whole]
    exact ⟨fun kept => ⟨fun _ => kept, fun long => absurd whole (Nat.not_le.mpr long)⟩,
      fun keeps => keeps.whole whole⟩
  · have long := Nat.not_le.mp whole
    by_cases lean : m.additional ≠ [] ∧ m.trimmed.encode.length ≤ m.udpSize
    · rw [datagram_of_trimmed long lean.1 lean.2]
      exact ⟨fun kept => ⟨fun fits => absurd fits whole, fun _ _ => kept⟩,
        fun keeps => keeps.trimmed long lean.2⟩
    · have last : m.additional = [] ∨ m.udpSize < m.trimmed.encode.length := by
        by_contra neither
        push Not at neither
        exact lean neither
      rw [datagram_of_long long last, length_encode_truncated]
      refine iff_of_true short ⟨fun fits => absurd fits whole, fun _ fits => ?_⟩
      rcases last with bare | exceeds
      · have same : m.trimmed = m := by rw [Message.trimmed, ← bare]
        rw [same] at fits
        exact absurd fits whole
      · exact absurd fits (Nat.not_le.mpr exceeds)

end Message

/-! ## The limit of the response -/

namespace Handler

variable (h : Handler)

/-- A response is limited by the server's EDNS0 size, whatever the client's is. -/
theorem udpSize_handle (req : Message) :
    (h.handle req).udpSize = if req.edns0 then maxEDNSUDPSize else maxUDPMessageSize := by
  rw [Message.udpSize, h.edns0_handle, h.edns0Size_handle]
  cases req.edns0 <;> decide

theorem echoLength_handle (req : Message) : (h.handle req).echoLength = req.echoLength := by
  rw [Message.echoLength, Message.echoLength, questions_handle, edns0_handle]

/-- **A response keeps to its own limit exactly when its questions do.** -/
theorem packUDP_within_limit_iff (req : Message) :
    (∀ out, (h.handle req).packUDP = .ok out → out.length ≤ (h.handle req).udpSize) ↔
      req.echoLength ≤ if req.edns0 then maxEDNSUDPSize else maxUDPMessageSize := by
  by_cases reached : ∃ q, req.questions = [q]
  · -- one question always fits, so both sides hold
    obtain ⟨q, single⟩ := reached
    have small := Message.echoLength_single single
    have limit := (h.handle req).udpSize_bounds.1
    rw [← h.udpSize_handle, ← h.echoLength_handle]
    rw [← h.echoLength_handle] at small
    exact iff_of_true (fun out packed => Message.packUDP_within (Nat.le_trans small limit) packed)
      (Nat.le_trans small limit)
  · obtain ⟨answers, authority, additional⟩ := h.sections_handle_of_not_reaches
      fun q single => absurd ⟨q, single⟩ reached
    rw [← h.udpSize_handle, ← h.echoLength_handle]
    refine ⟨fun within => ?_, fun short out packed => Message.packUDP_within short packed⟩
    obtain ⟨out, packed⟩ := Message.packUDP_bare answers authority additional
    rw [← Message.length_packUDP_bare answers authority additional packed]
    exact within out packed

/-- Eight questions for one name of 63 letters, seven of them by a compression
pointer to the first. -/
def pointerQuery : Bytes :=
  [0, 7, 0, 0, 0, 8, 0, 0, 0, 0, 0, 0] ++ [63] ++ List.replicate 63 97 ++ [0, 0, 1, 0, 1] ++
    (List.replicate 7 [0xC0, 0x0C, 0, 1, 0, 1]).flatten

/-- The request the parser makes of it. -/
def pointerRequest : Message :=
  { id := 7, qdCount := 8
    questions := List.replicate 8
      { name := List.replicate 63 97, type := typeA, cls := classIN } }

/-- The 123 octets of the query are answered with 564, over the limit of 512. -/
theorem pointerQuery_over_limit :
    ∃ req out, pointerQuery.length = 123 ∧ parseMessage pointerQuery = .ok req ∧
      req.flags &&& flagQR = 0 ∧ (refusingHandler.handle req).packUDP = .ok out ∧
      (refusingHandler.handle req).udpSize = 512 ∧ out.length = 564 := by
  refine ⟨pointerRequest, (refusingHandler.handle pointerRequest).truncated.encode, ?_⟩
  decide +kernel

/-! ## The limit of the client -/

/-- What is sent in answer to a query whose response can be packed. -/
theorem serveUDP_of_rdataFits {data : Bytes} {req : Message} (parsed : parseMessage data = .ok req)
    (query : req.flags &&& flagQR = 0) (fits : (h.handle req).RDataFits) :
    serveUDP h data = some (h.handle req).datagram.encode := by
  simp only [serveUDP, parsed, query, ne_eq, not_true_eq_false, if_false,
    Message.packUDP_of_fits fits]

/-- A response that cannot be packed is not sent. -/
theorem serveUDP_of_not_rdataFits {data : Bytes} {req : Message}
    (parsed : parseMessage data = .ok req) (unfit : ¬ (h.handle req).RDataFits) :
    serveUDP h data = none := by
  simp only [serveUDP, parsed, Message.packUDP_of_not_rdataFits unfit, ite_self]

/-- A client without EDNS0, or with a size of at least 1232 octets, has the limit of the
response. -/
theorem udpSize_handle_eq {req : Message}
    (plain : req.edns0 = false ∨ maxEDNSUDPSize ≤ req.edns0Size.toNat) :
    (h.handle req).udpSize = req.udpSize := by
  rw [h.udpSize_handle]
  rcases plain with plain | large
  · simp [Message.udpSize, plain]
  · exact (Message.udpSize_of_large large).symm

/-- **When the client's limit is kept.** A datagram with one question is answered within the
size the client advertised exactly when it is itself a response, the client does not use EDNS0
or advertises at least 1232 octets, the response cannot be packed, or the form of it that is
chosen for 1232 octets takes no more than that size. -/
theorem serveUDP_within_advertised_iff (data : Bytes) (req : Message) (q : Question)
    (parsed : parseMessage data = .ok req) (single : req.questions = [q]) :
    (∀ out, serveUDP h data = some out → out.length ≤ req.udpSize) ↔
      req.flags &&& flagQR ≠ 0 ∨ req.edns0 = false ∨ maxEDNSUDPSize ≤ req.edns0Size.toNat ∨
        ¬ (h.handle req).RDataFits ∨ (h.handle req).KeepsTo req.udpSize := by
  by_cases query : req.flags &&& flagQR = 0
  swap
  · refine iff_of_true (fun out sent => ?_) (.inl query)
    simp only [serveUDP, parsed, if_pos query, reduceCtorEq] at sent
  by_cases fits : (h.handle req).RDataFits
  swap
  · refine iff_of_true (fun out sent => ?_) (.inr (.inr (.inr (.inl fits))))
    rw [h.serveUDP_of_not_rdataFits parsed fits] at sent
    cases sent
  have small : (h.handle req).echoLength ≤ req.udpSize := by
    rw [h.echoLength_handle]
    exact (Message.echoLength_single single).trans req.udpSize_bounds.1
  rw [h.serveUDP_of_rdataFits parsed query fits]
  simp only [Option.some.injEq, forall_eq', Message.length_datagram_le_iff small]
  constructor
  · exact fun keeps => .inr (.inr (.inr (.inr keeps)))
  · rintro (response | plain | large | unfit | keeps)
    · exact absurd query response
    · exact ⟨fun short => h.udpSize_handle_eq (.inl plain) ▸ short,
        fun _ short => h.udpSize_handle_eq (.inl plain) ▸ short⟩
    · exact ⟨fun short => h.udpSize_handle_eq (.inr large) ▸ short,
        fun _ short => h.udpSize_handle_eq (.inr large) ▸ short⟩
    · exact absurd fits unfit
    · exact keeps

/-- A query of type TXT for `t.a` that advertises 512 octets. -/
def smallClientQuery : Bytes :=
  [0, 7, 0, 0, 0, 1, 0, 0, 0, 0, 0, 1, 1, 116, 1, 97, 0, 0, 16, 0, 1,
    0, 0, 41, 2, 0, 0, 0, 0, 0, 0, 0]

/-- The request the parser makes of it. -/
def smallClientRequest : Message :=
  { id := 7, qdCount := 1, arCount := 1
    questions := [{ name := ascii "t.a", type := typeTXT, cls := classIN }]
    edns0 := true, edns0Size := 512 }

/-- A short reply is sent to that client as it is. -/
theorem serveUDP_within_advertised_iff_smallClient :
    (refusingHandler.handle smallClientRequest).encode.length = 32 ∧
      ∀ out, serveUDP refusingHandler smallClientQuery = some out →
        out.length ≤ smallClientRequest.udpSize :=
  ⟨by decide +kernel, (serveUDP_within_advertised_iff refusingHandler smallClientQuery
    smallClientRequest { name := ascii "t.a", type := typeTXT, cls := classIN } (by decide)
    rfl).mpr (.inr (.inr (.inr (.inr (by decide +kernel)))))⟩

/-- A text of 500 letters. -/
def longText : Bytes := List.replicate 500 120

/-- A zone with that text at one name. -/
def textZone : Database :=
  { zones :=
      [{ name := ascii "a", primaryNS := ascii "ns.a", adminEmail := ascii "m.a", serial := 1
         refresh := 3600, retry := 900, expire := 604800, minTTL := 300 }]
    records :=
      [{ id := 1, zone := ascii "a", name := ascii "t.a", nameRev := reverseName (ascii "t.a")
         type := ascii "TXT", ttl := 300, rdata := longText, reversed := rfl }]
    nextID := 2
    zoneKey := by simp
    foreignKey := by simp
    idKey := by simp
    idBound := fun row member => by
      cases List.mem_singleton.mp member
      exact Nat.lt_succ_self 1 }

/-- The handler over that zone. -/
def textHandler : Handler :=
  { resolver := textZone.resolver (some daemonEncoder), rotate := fun _ => 0 }

/-- The client that advertises 512 octets is sent 549. -/
theorem smallClientQuery_over_advertised :
    ∃ out, parseMessage smallClientQuery = .ok smallClientRequest ∧
      smallClientRequest.questions.length = 1 ∧ smallClientRequest.udpSize = 512 ∧
      serveUDP textHandler smallClientQuery = some out ∧ out.length = 549 := by
  have sent : (serveUDP textHandler smallClientQuery).map List.length = some 549 := by
    decide +kernel
  obtain ⟨out, served, size⟩ := Option.map_eq_some_iff.mp sent
  exact ⟨out, by decide, rfl, by decide, served, size⟩

end Handler

end ShardDNS.DNS

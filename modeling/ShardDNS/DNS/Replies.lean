import ShardDNS.DNS.Server

/-!
# What is sent

A server that answered a response would be answered in turn, so it sends nothing for a message
with the QR bit set, nor for one without a whole header. What it sends it makes in two places:
`formErr` writes the octets of a header for a message that cannot be parsed, and `NewResponse`
makes the flags of every other reply, which resolution and packing then change. Both keep to
the same rules (`Reply`), for every message and every answer of the resolver
(`reply_discipline`).

The OPT record of a message is the one that `ParseMessage` takes out of its additional section.
The resolver's records get there as glue, which is addresses only.
-/

set_option autoImplicit false

namespace ShardDNS.DNS

open Go Store Program

/-! ## The server, call by call -/

variable {data out : Bytes}

namespace Calls

/-- `serveUDP`, call by call. -/
def serveUDP (h : Handler) (data : Bytes) : Calling (Option Bytes) :=
  match parseMessage data with
  | .error _ =>
      if 12 ≤ data.length ∧ (data[2]?).getD 0 &&& 0x80 = 0 then return some (formErr data)
      else return none
  | .ok req =>
      if req.flags &&& flagQR ≠ 0 then return none
      else do
        let resp ← handle h req
        match resp.packUDP with
        | .ok out => return some out
        | .error _ => return none

/-- One message of `tcpConnLoop`, call by call. -/
def serveTCP (h : Handler) (data : Bytes) : Calling (Option Bytes) :=
  if data.length < 12 then return none
  else
    match parseMessage data with
    | .error _ =>
        if (data[2]?).getD 0 &&& 0x80 = 0 then return some (formErr data) else return none
    | .ok req =>
        if req.flags &&& flagQR ≠ 0 then return none
        else do
          let resp ← handle h req
          match resp.pack with
          | .ok out => if 65535 < out.length then return none else return some out
          | .error _ => return none

theorem answer_serveUDP (h : Handler) (data : Bytes) :
    (serveUDP h data).answer (service h) = DNS.serveUDP h data := by
  unfold serveUDP DNS.serveUDP
  cases parseMessage data with
  | error e => dsimp only; split <;> rfl
  | ok req =>
      dsimp only
      split
      · rfl
      · rw [answer_bind, answer_handle]
        cases (h.handle req).packUDP <;> rfl

theorem answer_serveTCP (h : Handler) (data : Bytes) :
    (serveTCP h data).answer (service h) = DNS.serveTCP h data := by
  unfold serveTCP DNS.serveTCP
  split
  · rfl
  · cases parseMessage data with
    | error e => dsimp only; split <;> rfl
    | ok req =>
        dsimp only
        split
        · rfl
        · rw [answer_bind, answer_handle]
          cases (h.handle req).pack with
          | error e => rfl
          | ok out => dsimp only; split <;> rfl

/-- A datagram is sent by `formErr` or with the packed response of the handler. -/
theorem runs_serveUDP {h : Handler} {trace : List (Event Call.Answer)}
    (run : (serveUDP h data).Runs trace (some out)) :
    (∃ e, parseMessage data = .error e ∧ 12 ≤ data.length ∧ (data[2]?).getD 0 &&& 0x80 = 0 ∧
      out = formErr data) ∨
    ∃ req resp, parseMessage data = .ok req ∧ req.flags &&& flagQR = 0 ∧
      (handle h req).Runs trace resp ∧ resp.packUDP = .ok out := by
  unfold serveUDP at run
  cases parsed : parseMessage data with
  | error e =>
      rw [parsed] at run
      dsimp only at run
      split at run
      · rename_i whole
        obtain ⟨-, ⟨⟩⟩ := runs_pure_iff.mp run
        exact .inl ⟨e, rfl, whole.1, whole.2, rfl⟩
      · cases (runs_pure_iff.mp run).2
  | ok req =>
      rw [parsed] at run
      dsimp only at run
      split at run
      · cases (runs_pure_iff.mp run).2
      · rename_i query
        obtain ⟨first, second, resp, rfl, handled, run⟩ := runs_bind_iff.mp run
        cases packed : resp.packUDP with
        | error e =>
            rw [packed] at run
            cases (runs_pure_iff.mp run).2
        | ok sent =>
            rw [packed] at run
            obtain ⟨rfl, ⟨⟩⟩ := runs_pure_iff.mp run
            rw [List.append_nil]
            exact .inr ⟨req, resp, rfl, not_not.mp query, handled, packed⟩

/-- So is a message of a stream, if it is not too long for a frame. -/
theorem runs_serveTCP {h : Handler} {trace : List (Event Call.Answer)}
    (run : (serveTCP h data).Runs trace (some out)) :
    (∃ e, parseMessage data = .error e ∧ 12 ≤ data.length ∧ (data[2]?).getD 0 &&& 0x80 = 0 ∧
      out = formErr data) ∨
    ∃ req resp, parseMessage data = .ok req ∧ req.flags &&& flagQR = 0 ∧
      (handle h req).Runs trace resp ∧ resp.pack = .ok out ∧ out.length ≤ 65535 := by
  unfold serveTCP at run
  split at run
  · cases (runs_pure_iff.mp run).2
  · rename_i long
    cases parsed : parseMessage data with
    | error e =>
        rw [parsed] at run
        dsimp only at run
        split at run
        · rename_i query
          obtain ⟨-, ⟨⟩⟩ := runs_pure_iff.mp run
          exact .inl ⟨e, rfl, Nat.not_lt.mp long, query, rfl⟩
        · cases (runs_pure_iff.mp run).2
    | ok req =>
        rw [parsed] at run
        dsimp only at run
        split at run
        · cases (runs_pure_iff.mp run).2
        · rename_i query
          obtain ⟨first, second, resp, rfl, handled, run⟩ := runs_bind_iff.mp run
          cases packed : resp.pack with
          | error e =>
              rw [packed] at run
              cases (runs_pure_iff.mp run).2
          | ok sent =>
              rw [packed] at run
              dsimp only at run
              split at run
              · cases (runs_pure_iff.mp run).2
              · rename_i short
                obtain ⟨rfl, ⟨⟩⟩ := runs_pure_iff.mp run
                rw [List.append_nil]
                exact .inr ⟨req, resp, rfl, not_not.mp query, handled, packed, Nat.not_lt.mp short⟩

end Calls

/-! ## The words of a header -/

/-- The word at an offset of a message. -/
def wordAt (data : Bytes) (i : Nat) : UInt16 := uint16 ((data.drop i).take 2)

def idOf (data : Bytes) : UInt16 := wordAt data 0

def flagsOf (data : Bytes) : UInt16 := wordAt data 2

theorem wordAt_of_drop {back : Bytes} {i : Nat} {v : UInt16}
    (here : data.drop i = putUint16 v ++ back) : wordAt data i = v := by
  rw [wordAt, here]
  exact uint16_putUint16 v

theorem toHeader_filterOPT (m : Message) (rrs : List RR) :
    (rrs.foldl filterOPT m).toHeader = m.toHeader := by
  induction rrs generalizing m with
  | nil => rfl
  | cons rr rrs ih =>
      rw [List.foldl_cons, ih, filterOPT]
      split <;> rfl

theorem header_of_parseMessage {req : Message} (parsed : parseMessage data = .ok req) :
    12 ≤ data.length ∧ req.id = idOf data ∧ req.flags = flagsOf data := by
  unfold parseMessage at parsed
  split at parsed
  · cases parsed
  · rename_i long
    simp only [bind_eq_ok, uint16At_eq_ok_iff] at parsed
    obtain ⟨id, ⟨_, atID⟩, flags, ⟨_, atFlags⟩, _, -, _, -, _, -, _, -, parsed⟩ := parsed
    split at parsed
    · cases parsed
    · simp only [bind_eq_ok] at parsed
      obtain ⟨_, -, _, -, _, -, _, -, result⟩ := parsed
      have header := congrArg Message.toHeader (Except.ok.inj result)
      rw [toHeader_filterOPT] at header
      refine ⟨Nat.not_lt.mp long, ?_, ?_⟩
      · rw [idOf, wordAt_of_drop atID, ← congrArg Header.id header]
      · rw [flagsOf, wordAt_of_drop atFlags, ← congrArg Header.flags header]

theorem idOf_encode (m : Message) : idOf m.encode = m.id := by
  have here : m.encode.drop 0 = putUint16 m.id ++ m.encode.drop 2 := rfl
  exact wordAt_of_drop here

theorem flagsOf_encode (m : Message) : flagsOf m.encode = m.flags := by
  have here : m.encode.drop 2 = putUint16 m.flags ++ m.encode.drop 4 := rfl
  exact wordAt_of_drop here

/-- A mask of the first octet does not see the second. -/
theorem uint16_and_high {mask : UInt16} (high : ∀ y : UInt8, uint16 [0, y] &&& mask = 0)
    (x y : UInt8) : uint16 [x, y] &&& mask = uint16 [x, 0] &&& mask := by
  rw [uint16_pair, Message.or_and_mask, high, UInt16.or_zero]

/-! ## Replies -/

/-- The opcode and the RD bit. -/
def flagsEcho : UInt16 := 0x7900

/-- RA, and the three bits behind it: Z, AD and CD. -/
def flagsReserved : UInt16 := flagRA ||| 0x0070

/-- The octets sent in answer to a message keep to the rules. -/
structure Reply (data out : Bytes) : Prop where
  long : 12 ≤ data.length
  query : flagsOf data &&& flagQR = 0
  id : idOf out = idOf data
  response : flagsOf out &&& flagQR = flagQR
  echo : flagsOf out &&& flagsEcho = flagsOf data &&& flagsEcho
  clear : flagsOf out &&& flagsReserved = 0
  opt : ∃ sent, parseMessage out = .ok sent ∧
    (sent.edns0 = true ↔ ∃ req, parseMessage data = .ok req ∧ req.edns0 = true)

theorem Reply.not_unanswered (reply : Reply data out) :
    ¬ (data.length < 12 ∨ flagsOf data &&& flagQR ≠ 0) := by
  rintro (short | response)
  · exact absurd reply.long (Nat.not_le.mpr short)
  · exact response reply.query

/-- What a packed message has to be for that. -/
theorem reply_encode {m : Message} (long : 12 ≤ data.length) (query : flagsOf data &&& flagQR = 0)
    (sameID : m.id = idOf data) (response : m.flags &&& flagQR = flagQR)
    (echo : m.flags &&& flagsEcho = flagsOf data &&& flagsEcho)
    (clear : m.flags &&& flagsReserved = 0)
    (edns0 : m.edns0 = true ↔ ∃ req, parseMessage data = .ok req ∧ req.edns0 = true)
    (noOPT : m.NoOPT) (fits : m.RDataFits) (counted : m.Counted) : Reply data m.encode where
  long := long
  query := query
  id := by rw [idOf_encode, sameID]
  response := by rw [flagsOf_encode, response]
  echo := by rw [flagsOf_encode, echo]
  clear := by rw [flagsOf_encode, clear]
  opt := ⟨_, m.parseMessage_encode_asWritten noOPT fits counted, edns0⟩

/-! ## A message that cannot be parsed -/

/-- A message with a whole header starts with its four octets. -/
theorem exists_header (long : 12 ≤ data.length) :
    ∃ a b c d rest, data = a :: b :: c :: d :: rest := by
  match data with
  | a :: b :: c :: d :: rest => exact ⟨a, b, c, d, rest, rfl⟩
  | [] | [_] | [_, _] | [_, _, _] => simp at long

/-- What `formErr` writes is an empty message. -/
theorem formErr_eq_encode (a b c d : UInt8) (rest : Bytes) :
    formErr (a :: b :: c :: d :: rest) =
      ({ id := uint16 [a, b], flags := uint16 [0x80 ||| (c &&& 0x79), 1] } : Message).encode := by
  have zeros : List.replicate 8 (0 : UInt8) = putUint16 0 ++ putUint16 0 ++ putUint16 0 ++
      putUint16 0 :=
    by decide
  simp only [Message.encode, Message.header, Message.setCounts, putUint16_uint16, formErr, zeros]
  rfl

/-- The bit that `formErr` is guarded by is QR. -/
theorem flagsOf_and_QR {a b c d : UInt8} {rest : Bytes} :
    flagsOf (a :: b :: c :: d :: rest) &&& flagQR = 0 ↔ c &&& 0x80 = 0 := by
  have high : ∀ y : UInt8, uint16 [0, y] &&& flagQR = 0 := by decide +kernel
  have bit : ∀ x : UInt8, uint16 [x, 0] &&& flagQR = 0 ↔ x &&& 0x80 = 0 := by decide +kernel
  have word : flagsOf (a :: b :: c :: d :: rest) = uint16 [c, d] := rfl
  rw [word, uint16_and_high high, bit]

theorem reply_formErr {e : ParseError} (long : 12 ≤ data.length)
    (query : (data[2]?).getD 0 &&& 0x80 = 0) (failed : parseMessage data = .error e) :
    Reply data (formErr data) ∧ flagsOf (formErr data) &&& flagTC = 0 := by
  obtain ⟨a, b, c, d, rest, rfl⟩ := exists_header long
  have word : flagsOf (a :: b :: c :: d :: rest) = uint16 [c, d] := rfl
  have high : ∀ y : UInt8, uint16 [0, y] &&& flagsEcho = 0 := by decide +kernel
  have response : ∀ x : UInt8, uint16 [0x80 ||| (x &&& 0x79), 1] &&& flagQR = flagQR := by
    decide +kernel
  have echo : ∀ x : UInt8, uint16 [0x80 ||| (x &&& 0x79), 1] &&& flagsEcho =
      uint16 [x, 0] &&& flagsEcho := by decide +kernel
  have clear : ∀ x : UInt8, uint16 [0x80 ||| (x &&& 0x79), 1] &&& flagsReserved = 0 := by
    decide +kernel
  have untruncated : ∀ x : UInt8, uint16 [0x80 ||| (x &&& 0x79), 1] &&& flagTC = 0 := by
    decide +kernel
  rw [formErr_eq_encode]
  refine ⟨reply_encode long (flagsOf_and_QR.mpr query) rfl (response c) ?_ (clear c) ?_ nofun nofun
    ⟨rfl, rfl, rfl, rfl⟩, by rw [flagsOf_encode]; exact untruncated c⟩
  · rw [word]
    exact (echo c).trans (uint16_and_high high c d).symm
  · refine iff_of_false (by simp) ?_
    rintro ⟨req, parsed, -⟩
    rw [failed] at parsed
    cases parsed

/-! ## A message that is answered -/

section Answered

variable {data : Bytes} {req resp m : Message}

/-- A response is a reply in every form it is packed in: packing changes the TC bit only. -/
theorem reply_of_envelope (parsed : parseMessage data = .ok req) (query : req.flags &&& flagQR = 0)
    (kept : resp.envelope = (Message.newResponse req).envelope) (answersID : m.id = resp.id)
    (flags : m.flags &&& ~~~flagTC = resp.flags &&& ~~~flagTC) (edns0 : m.edns0 = resp.edns0)
    (noOPT : m.NoOPT) (fits : m.RDataFits) (counted : m.Counted) : Reply data m.encode := by
  obtain ⟨long, sameID, sameFlags⟩ := header_of_parseMessage parsed
  have same := Message.eq_of_envelope kept
  have bits : ∀ {mask : UInt16}, ~~~flagTC &&& mask = mask →
      ~~~Message.resolutionFlags &&& mask = mask →
        m.flags &&& mask = (Message.newResponse req).flags &&& mask := by
    intro mask noTC outside
    rw [← Message.and_and_of_subset m.flags noTC, flags, Message.and_and_of_subset resp.flags noTC,
      same.flags outside]
  refine reply_encode long (by rw [← sameFlags, query]) ?_ ?_ ?_ ?_ ?_ noOPT fits counted
  · rw [answersID, same.id, Message.id_newResponse, sameID]
  · rw [bits (by decide) (by decide), Message.flags_newResponse_QR]
  · rw [bits (by decide) (by decide), ← sameFlags]
    exact Message.flags_newResponse_echo req
  · rw [bits (by decide) (by decide), Message.flags_newResponse_of_disjoint req (by decide)]
  · rw [edns0, same.edns0, Message.edns0_newResponse, parsed]
    simp

theorem untruncated_of_envelope (kept : resp.envelope = (Message.newResponse req).envelope) :
    resp.flags &&& flagTC = 0 := by
  rw [(Message.eq_of_envelope kept).flags (by decide),
    Message.flags_newResponse_of_disjoint req (by decide)]

/-- A message that is parsed has as many questions as its header can say. -/
theorem length_questions_of_parseMessage (parsed : parseMessage data = .ok req) :
    req.questions.length < 65536 := by
  obtain ⟨qs, carried, reported, -⟩ := questionSection_of_parseMessage parsed
  rw [reported, List.length_map]
  exact count_of_questionSection carried

/-- What a datagram is sent with, for a response that resolution has made. -/
theorem reply_packUDP (parsed : parseMessage data = .ok req) (query : req.flags &&& flagQR = 0)
    (kept : resp.envelope = (Message.newResponse req).envelope) (noOPT : resp.NoOPT)
    (packed : resp.packUDP = .ok out) :
    Reply data out ∧ (flagsOf out &&& flagTC ≠ 0 →
      out = resp.truncated.encode ∧ resp.udpSize < resp.encode.length) := by
  have fits : resp.RDataFits := by
    by_contra unfit
    rw [Message.packUDP_of_not_rdataFits unfit] at packed
    cases packed
  have untruncated := untruncated_of_envelope kept
  have limit := resp.udpSize_bounds.2
  rcases Message.packUDP_cases packed with ⟨rfl, short⟩ | ⟨rfl, short⟩ | ⟨rfl, long⟩
  · refine ⟨reply_of_envelope parsed query kept rfl rfl rfl noOPT fits
      (Message.counted_of_short ?_), fun truncated => ?_⟩
    · exact short.trans (limit.trans (by decide))
    · rw [flagsOf_encode] at truncated
      exact absurd untruncated truncated
  · refine ⟨reply_of_envelope parsed query kept rfl rfl rfl nofun fits.trimmed
      (Message.counted_of_short ?_), fun truncated => ?_⟩
    · exact short.trans (limit.trans (by decide))
    · rw [flagsOf_encode] at truncated
      exact absurd untruncated truncated
  · refine ⟨reply_of_envelope parsed query kept rfl ?_ rfl nofun resp.rdataFits_truncated
      (Message.counted_truncated ?_), fun _ => ⟨rfl, long⟩⟩
    · change (resp.flags ||| flagTC) &&& ~~~flagTC = resp.flags &&& ~~~flagTC
      rw [Message.or_and_mask, show flagTC &&& ~~~flagTC = 0 by decide, UInt16.or_zero]
    · rw [(Message.eq_of_envelope kept).questions, Message.questions_newResponse]
      exact length_questions_of_parseMessage parsed

/-- And a message of a stream. -/
theorem reply_pack (parsed : parseMessage data = .ok req) (query : req.flags &&& flagQR = 0)
    (kept : resp.envelope = (Message.newResponse req).envelope) (noOPT : resp.NoOPT)
    (packed : resp.pack = .ok out) (short : out.length ≤ 65535) :
    Reply data out ∧ flagsOf out &&& flagTC = 0 := by
  obtain ⟨fits, rfl⟩ := Message.pack_eq_ok_iff.mp packed
  refine ⟨reply_of_envelope parsed query kept rfl rfl rfl noOPT fits
    (Message.counted_of_short short), ?_⟩
  rw [flagsOf_encode, untruncated_of_envelope kept]

end Answered

/-- **Reply discipline**: nothing is sent for a message that is shorter than a header or has QR
set, and everything that is sent is a reply, with TC set only in the truncated form of a
datagram. -/
theorem reply_discipline (h : Handler) (data : Bytes) :
    (data.length < 12 ∨ flagsOf data &&& flagQR ≠ 0 →
      (Calls.serveUDP h data).Ensures (· = none) ∧ (Calls.serveTCP h data).Ensures (· = none)) ∧
    (∀ trace out, (Calls.serveUDP h data).Runs trace (some out) → Reply data out ∧
      (flagsOf out &&& flagTC ≠ 0 → ∃ req resp, parseMessage data = .ok req ∧
        (Calls.handle h req).Runs trace resp ∧ out = resp.truncated.encode ∧
          resp.udpSize < resp.encode.length)) ∧
    ∀ trace out, (Calls.serveTCP h data).Runs trace (some out) → Reply data out ∧
      flagsOf out &&& flagTC = 0 := by
  have udp : ∀ trace out, (Calls.serveUDP h data).Runs trace (some out) → Reply data out ∧
      (flagsOf out &&& flagTC ≠ 0 → ∃ req resp, parseMessage data = .ok req ∧
        (Calls.handle h req).Runs trace resp ∧ out = resp.truncated.encode ∧
          resp.udpSize < resp.encode.length) := by
    intro trace out run
    obtain ⟨e, failed, long, query, rfl⟩ | ⟨req, resp, parsed, query, handled, packed⟩ :=
      Calls.runs_serveUDP run
    · obtain ⟨reply, untruncated⟩ := reply_formErr long query failed
      exact ⟨reply, fun truncated => absurd untruncated truncated⟩
    · obtain ⟨reply, truncated⟩ := reply_packUDP parsed query (Calls.envelope_handle h req handled)
        (Calls.noOPT_handle h req handled) packed
      exact ⟨reply, fun set => ⟨req, resp, parsed, handled, truncated set⟩⟩
  have tcp : ∀ trace out, (Calls.serveTCP h data).Runs trace (some out) → Reply data out ∧
      flagsOf out &&& flagTC = 0 := by
    intro trace out run
    obtain ⟨e, failed, long, query, rfl⟩ | ⟨req, resp, parsed, query, handled, packed, short⟩ :=
      Calls.runs_serveTCP run
    · exact reply_formErr long query failed
    · exact reply_pack parsed query (Calls.envelope_handle h req handled)
        (Calls.noOPT_handle h req handled) packed short
  refine ⟨fun unanswered => ⟨fun trace reply run => ?_, fun trace reply run => ?_⟩, udp, tcp⟩
  · cases reply with
    | none => rfl
    | some out => exact ((udp trace out run).1.not_unanswered unanswered).elim
  · cases reply with
    | none => rfl
    | some out => exact ((tcp trace out run).1.not_unanswered unanswered).elim

end ShardDNS.DNS

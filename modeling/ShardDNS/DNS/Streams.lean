import ShardDNS.DNS.Replies

/-!
# Streams of messages

Over TCP a message is sent behind its length. `messages` splits a stream the way `tcpConnLoop`
reads it: as long as a whole frame is there, and up to a length below that of a header. It finds
the messages that were framed (`messages_flatMap_frame`), whatever stands behind them.

A talk is a list of exchanges, and `Between` says how much of one has been read and written. At
any time the responses are to the first messages of the stream, in their order
(`Spoken.messages`).
-/

set_option autoImplicit false

namespace ShardDNS.DNS

open Go Store Program

/-! ## Frames -/

/-- A message behind its length. -/
def frame (msg : Bytes) : Bytes := putUint16 (UInt16.ofNat msg.length) ++ msg

/-- The length of the next message. -/
def frameLength (unread : Bytes) : Nat := (uint16 (unread.take 2)).toNat

/-- The messages of a stream that `tcpConnLoop` reads whole. -/
def messages (stream : Bytes) : List Bytes :=
  if stream.length < 2 ∨ frameLength stream < 12 ∨ stream.length < 2 + frameLength stream then []
  else (stream.drop 2).take (frameLength stream) :: messages (stream.drop (2 + frameLength stream))
termination_by stream.length
decreasing_by
  simp only [List.length_drop]
  omega

/-- A message that a frame can hold and the server reads. -/
def Framed (msg : Bytes) : Prop := 12 ≤ msg.length ∧ msg.length ≤ 65535

theorem frameLength_lt (unread : Bytes) : frameLength unread ≤ 65535 :=
  Nat.le_of_lt_succ (uint16 (unread.take 2)).toNat_lt

theorem frameLength_frame {msg : Bytes} (short : msg.length ≤ 65535) (rest : Bytes) :
    frameLength (frame msg ++ rest) = msg.length := by
  have front : (frame msg ++ rest).take 2 = putUint16 (UInt16.ofNat msg.length) := rfl
  rw [frameLength, front, uint16_putUint16, UInt16.toNat_ofNat', Nat.mod_eq_of_lt (by omega)]

theorem length_frame (msg : Bytes) : (frame msg).length = 2 + msg.length := by
  rw [frame, List.length_append, length_putUint16]

/-- Two octets are the length that they write. -/
theorem putUint16_frameLength {unread : Bytes} (whole : 2 ≤ unread.length) :
    putUint16 (UInt16.ofNat (frameLength unread)) = unread.take 2 := by
  match unread, whole with
  | x :: y :: rest, _ =>
      rw [frameLength, UInt16.ofNat_toNat]
      exact putUint16_uint16 x y

theorem messages_frame_append {msg : Bytes} (framed : Framed msg) (rest : Bytes) :
    messages (frame msg ++ rest) = msg :: messages rest := by
  have size : (frame msg ++ rest).length = 2 + msg.length + rest.length := by
    rw [List.length_append, length_frame]
  have whole : ¬ ((frame msg ++ rest).length < 2 ∨ frameLength (frame msg ++ rest) < 12 ∨
      (frame msg ++ rest).length < 2 + frameLength (frame msg ++ rest)) := by
    rw [frameLength_frame framed.2, size]
    have := framed.1
    omega
  have body : ((frame msg ++ rest).drop 2).take msg.length = msg := by
    have front : (frame msg ++ rest).drop 2 = msg ++ rest := rfl
    rw [front, List.take_left]
  have behind : (frame msg ++ rest).drop (2 + msg.length) = rest := by
    rw [← length_frame, List.drop_left]
  rw [messages, if_neg whole, frameLength_frame framed.2, body, behind]

/-- **The messages of a stream are those that were framed.** -/
theorem messages_flatMap_frame {msgs : List Bytes} (framed : ∀ msg ∈ msgs, Framed msg)
    (rest : Bytes) :
    messages (msgs.flatMap frame ++ rest) = msgs ++ messages rest := by
  induction msgs with
  | nil => rfl
  | cons msg msgs ih =>
      rw [List.forall_mem_cons] at framed
      rw [List.flatMap_cons, List.append_assoc, messages_frame_append framed.1, ih framed.2,
        List.cons_append]

/-! ## Outcomes -/

/-- The handler makes this response of the request, whatever its resolver answers and its
counter says. -/
def Handles (req resp : Message) : Prop := ∃ h trace, (Calls.handle h req).Runs trace resp

/-- The datagram is answered so, or not at all. -/
def OutcomeUDP (data : Bytes) (result : Option Bytes) : Prop :=
  ∃ h trace, (Calls.serveUDP h data).Runs trace result

/-- The message of a stream is answered so, or the stream ended. -/
def OutcomeTCP (data : Bytes) (result : Option Bytes) : Prop :=
  ∃ h trace, (Calls.serveTCP h data).Runs trace result

/-- The octets are a query. -/
def Asks (data : Bytes) (req : Message) : Prop :=
  parseMessage data = .ok req ∧ ¬ req.flags &&& flagQR ≠ 0

/-- A handler for outcomes that need none. -/
def idleHandler : Handler where
  resolver := { findZone := fun _ => .error .notFound, lookupName := fun _ _ => .error .notFound }
  rotate := fun _ => 0

section Outcomes

variable {data : Bytes} {req resp : Message} {out : Bytes}

theorem outcomeUDP_handled (asks : Asks data req) (handled : Handles req resp) :
    OutcomeUDP data (match resp.packUDP with
      | .ok out => some out
      | .error _ => none) := by
  obtain ⟨h, trace, run⟩ := handled
  refine ⟨h, trace ++ [], ?_⟩
  unfold Calls.serveUDP
  rw [asks.1]
  dsimp only
  rw [if_neg asks.2]
  refine runs_bind_iff.mpr ⟨trace, [], resp, rfl, run, ?_⟩
  cases resp.packUDP with
  | ok out => exact .done _
  | error e => exact .done _

theorem outcomeTCP_handled (long : 12 ≤ data.length) (asks : Asks data req)
    (handled : Handles req resp) :
    OutcomeTCP data (match resp.pack with
      | .ok out => if 65535 < out.length then none else some out
      | .error _ => none) := by
  obtain ⟨h, trace, run⟩ := handled
  refine ⟨h, trace ++ [], ?_⟩
  unfold Calls.serveTCP
  rw [if_neg (Nat.not_lt.mpr long), asks.1]
  dsimp only
  rw [if_neg asks.2]
  refine runs_bind_iff.mpr ⟨trace, [], resp, rfl, run, ?_⟩
  cases resp.pack with
  | ok out =>
      dsimp only
      split
      · exact .done _
      · exact .done _
  | error e => exact .done _

/-- Octets that are no message are answered, if they look like a query, without the handler. -/
theorem outcomeUDP_of_error {e : ParseError} (failed : parseMessage data = .error e) :
    OutcomeUDP data (if 12 ≤ data.length ∧
      (data[2]?).getD 0 &&& 0x80 = 0 then some (formErr data) else none) := by
  refine ⟨idleHandler, [], ?_⟩
  unfold Calls.serveUDP
  rw [failed]
  dsimp only
  split
  · exact .done _
  · exact .done _

theorem outcomeUDP_of_response (parsed : parseMessage data = .ok req)
    (response : req.flags &&& flagQR ≠ 0) :
    OutcomeUDP data none := by
  refine ⟨idleHandler, [], ?_⟩
  unfold Calls.serveUDP
  rw [parsed]
  dsimp only
  rw [if_pos response]
  exact .done _

theorem outcomeTCP_of_error {e : ParseError} (long : 12 ≤ data.length)
    (failed : parseMessage data = .error e) (query : (data[2]?).getD 0 &&& 0x80 = 0) :
    OutcomeTCP data (some (formErr data)) := by
  refine ⟨idleHandler, [], ?_⟩
  unfold Calls.serveTCP
  rw [if_neg (Nat.not_lt.mpr long), failed]
  dsimp only
  rw [if_pos query]
  exact .done _

end Outcomes

/-! ## Talks -/

/-- Of a talk, all exchanges have been read and written, and some octets more of each side. -/
def Between (taken sent rest part : Bytes) : Prop :=
  ∃ talk : List (Bytes × Bytes), (∀ x ∈ talk, Framed x.1 ∧ OutcomeTCP x.1 (some x.2)) ∧
    taken = (talk.map Prod.fst).flatMap frame ++ rest ∧
      sent = (talk.map Prod.snd).flatMap frame ++ part

section Talks

variable {taken sent rest part data out : Bytes}

theorem between_nil : Between [] [] [] [] := ⟨[], nofun, rfl, rfl⟩

theorem Between.read (between : Between taken sent rest part) (more : Bytes) :
    Between (taken ++ more) sent (rest ++ more) part := by
  obtain ⟨talk, answered, rfl, written⟩ := between
  exact ⟨talk, answered, List.append_assoc .., written⟩

theorem Between.write (between : Between taken sent rest part) (more : Bytes) :
    Between taken (sent ++ more) rest (part ++ more) := by
  obtain ⟨talk, answered, read, rfl⟩ := between
  exact ⟨talk, answered, read, List.append_assoc ..⟩

/-- A response that is written completes an exchange. -/
theorem Between.complete (between : Between taken sent (frame data) (frame out))
    (framed : Framed data) (answered : OutcomeTCP data (some out)) : Between taken sent [] [] := by
  obtain ⟨talk, before, read, written⟩ := between
  refine ⟨talk ++ [(data, out)], ?_, ?_, ?_⟩
  · intro x member
    rcases List.mem_append.mp member with old | last
    · exact before x old
    · rw [List.mem_singleton.mp last]
      exact ⟨framed, answered⟩
  · simpa using read
  · simpa using written

/-- All that can have been read and written: some exchanges, and of the response to the next
message the first octets. -/
inductive Spoken (taken sent : Bytes) : Prop where
  | silent {rest : Bytes} (between : Between taken sent rest [])
  | broken {data out part : Bytes} (between : Between taken sent (frame data) part)
      (framed : Framed data)
      (answered : OutcomeTCP data (some out)) (cut : part <+: frame out)

/-- **The responses are to the first messages of the stream**, in their order and none left out;
of the response to the next one, the first octets may have been written. -/
theorem Spoken.messages (spoken : Spoken taken sent) (unread : Bytes) :
    ∃ (talk : List (Bytes × Bytes)) (part : Bytes), (∀ x ∈ talk, OutcomeTCP x.1 (some x.2)) ∧
      sent = (talk.map Prod.snd).flatMap frame ++ part ∧
      talk.map Prod.fst <+: messages (taken ++ unread) ∧
      (part = [] ∨ ∃ data out, OutcomeTCP data (some out) ∧ part <+: frame out ∧
        talk.map Prod.fst ++ [data] <+: messages (taken ++ unread)) := by
  have split : ∀ {talk : List (Bytes × Bytes)} (rest : Bytes),
      (∀ x ∈ talk, Framed x.1 ∧ OutcomeTCP x.1 (some x.2)) →
      DNS.messages ((talk.map Prod.fst).flatMap frame ++ rest) =
        talk.map Prod.fst ++ DNS.messages rest := by
    intro talk rest answered
    refine messages_flatMap_frame (fun msg member => ?_) rest
    obtain ⟨x, inside, rfl⟩ := List.mem_map.mp member
    exact (answered x inside).1
  cases spoken with
  | @silent rest between =>
      obtain ⟨talk, answered, rfl, written⟩ := between
      refine ⟨talk, [], fun x member => (answered x member).2, written, ?_, .inl rfl⟩
      rw [List.append_assoc, split _ answered]
      exact List.prefix_append _ _
  | @broken data out part between framed reply cut =>
      obtain ⟨talk, answered, rfl, written⟩ := between
      have whole : DNS.messages ((talk.map Prod.fst).flatMap frame ++ frame data ++ unread) =
          talk.map Prod.fst ++ data :: DNS.messages unread := by
        rw [List.append_assoc, split _ answered, messages_frame_append framed]
      refine ⟨talk, part, fun x member => (answered x member).2, written, ?_,
        .inr ⟨data, out, reply, cut, ?_⟩⟩
      · rw [whole]
        exact List.prefix_append _ _
      · rw [whole]
        exact ⟨DNS.messages unread, List.append_assoc ..⟩

end Talks

end ShardDNS.DNS

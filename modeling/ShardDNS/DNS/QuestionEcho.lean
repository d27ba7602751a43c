import ShardDNS.DNS.Envelope
import ShardDNS.DNS.MessageCodec

/-!
# Questions on the wire and in responses

`QuestionSection` says which questions a datagram carries: for each one its
labels, with compression pointers followed, its type and its class. A datagram
carries at most one such list (`QuestionSection.unique`), and every datagram the
parser accepts carries one (`questionSection_of_parseMessage`).

The parser joins the labels of a question by dots and the encoder cuts the text
at its dots again. A response therefore carries the request's questions, for
every resolver, exactly when no label of these holds a dot byte
(`question_echo_iff`).
-/

set_option autoImplicit false

namespace ShardDNS.DNS

open Go LabelTree Store

/-! ## The question section of a datagram -/

/-- A question as it is on the wire. -/
structure WireQuestion where
  labels : List Bytes
  type : UInt16
  cls : UInt16
  deriving DecidableEq, Repr

/-- The questions at an offset, and the offset after them. -/
inductive QuestionsAt (buf : Bytes) : Nat → List WireQuestion → Nat → Prop where
  | nil {off : Nat} : QuestionsAt buf off [] off
  | cons {off stop hops fin : Nat} {names : List Bytes} {type cls : UInt16} {back : Bytes}
      {qs : List WireQuestion} :
      NameAt buf off names stop hops → buf.drop stop = putUint16 type ++ (putUint16 cls ++ back) →
        QuestionsAt buf (stop + 4) qs fin →
          QuestionsAt buf off ({ labels := names, type := type, cls := cls } :: qs) fin

/-- The questions that the count in the header of a datagram announces. -/
def QuestionSection (buf : Bytes) (qs : List WireQuestion) : Prop :=
  ∃ (count : UInt16) (back : Bytes) (stop : Nat), buf.drop 4 = putUint16 count ++ back ∧
    count.toNat = qs.length ∧ QuestionsAt buf 12 qs stop

theorem putUint16_append_inj {v v' : UInt16} {back back' : Bytes}
    (same : putUint16 v ++ back = putUint16 v' ++ back') : v = v' ∧ back = back' := by
  obtain ⟨number, rest⟩ := List.append_inj same rfl
  have value := congrArg uint16 number
  rw [uint16_putUint16, uint16_putUint16] at value
  exact ⟨value, rest⟩

theorem QuestionsAt.unique {buf : Bytes} {off stop stop' : Nat} {qs qs' : List WireQuestion}
    (first : QuestionsAt buf off qs stop) (second : QuestionsAt buf off qs' stop')
    (same : qs.length = qs'.length) : qs = qs' := by
  induction first generalizing qs' stop' with
  | nil => exact (List.length_eq_zero_iff.mp same.symm).symm
  | cons name fixed _ ih =>
      cases second with
      | nil => simp at same
      | cons name' fixed' rest' =>
          obtain ⟨rfl, rfl, -⟩ := name.unique name'
          obtain ⟨rfl, tail⟩ := putUint16_append_inj (fixed.symm.trans fixed')
          obtain ⟨rfl, -⟩ := putUint16_append_inj tail
          rw [ih rest' (by simpa using same)]

/-- **A datagram carries one list of questions.** -/
theorem QuestionSection.unique {buf : Bytes} {qs qs' : List WireQuestion}
    (first : QuestionSection buf qs) (second : QuestionSection buf qs') : qs = qs' := by
  obtain ⟨count, back, stop, header, counted, questions⟩ := first
  obtain ⟨count', back', stop', header', counted', questions'⟩ := second
  obtain ⟨rfl, -⟩ := putUint16_append_inj (header.symm.trans header')
  exact questions.unique questions' (counted.symm.trans counted')

/-! ## What the parser makes of the questions -/

/-- The question the parser reports. -/
def WireQuestion.parsed (q : WireQuestion) : Question :=
  { name := nameText q.labels, type := q.type, cls := q.cls }

/-- A name the parser accepts: labels of 1 to 63 bytes, at most 255 octets in all. -/
def WireQuestion.Fits (q : WireQuestion) : Prop :=
  LabelsFit q.labels ∧ wireLength q.labels ≤ maxNameLen

theorem questionsAt_of_parseQuestions {buf : Bytes} {count off stop : Nat}
    {questions : List Question} (parsed : parseQuestions buf count off = .ok (questions, stop)) :
    ∃ qs, QuestionsAt buf off qs stop ∧ qs.length = count ∧ questions = qs.map WireQuestion.parsed ∧
      ∀ q ∈ qs, q.Fits := by
  induction count generalizing off questions with
  | zero =>
      cases parsed
      exact ⟨[], .nil, rfl, rfl, by simp⟩
  | succ count ih =>
      simp only [parseQuestions, bind_eq_ok, mapError_eq_ok, Prod.exists] at parsed
      obtain ⟨name, next, named, parsed⟩ := parsed
      split at parsed
      · cases parsed
      · simp only [bind_eq_ok, uint16At_eq_ok_iff, Prod.exists, Except.ok.injEq,
          Prod.mk.injEq] at parsed
        obtain ⟨type, ⟨back, atType⟩, cls, ⟨rest, atClass⟩, tail, fin, tailParsed, rfl, rfl⟩ :=
          parsed
        obtain ⟨names, hops, nameAt, -, short, rfl⟩ := parseName_eq_ok_iff.mp named
        obtain ⟨qs, questionsAt, counted, rfl, fits⟩ := ih tailParsed
        have fixed : buf.drop next = putUint16 type ++ (putUint16 cls ++ rest) := by
          have moved := drop_advance atType
          rw [length_putUint16, atClass] at moved
          rw [atType, moved]
        refine ⟨{ labels := names, type := type, cls := cls } :: qs, .cons nameAt fixed questionsAt,
          by simp [counted], rfl, ?_⟩
        exact List.forall_mem_cons.mpr ⟨⟨nameAt.label_length, short⟩, fits⟩

theorem questions_filterOPT (m : Message) (rrs : List RR) :
    (rrs.foldl filterOPT m).questions = m.questions := by
  induction rrs generalizing m with
  | nil => rfl
  | cons rr rrs ih =>
      rw [List.foldl_cons, ih, filterOPT]
      split <;> rfl

/-- **An accepted datagram carries the questions the parser reports.** -/
theorem questionSection_of_parseMessage {buf : Bytes} {m : Message}
    (parsed : parseMessage buf = .ok m) :
    ∃ qs, QuestionSection buf qs ∧ m.questions = qs.map WireQuestion.parsed ∧
      ∀ q ∈ qs, q.Fits := by
  unfold parseMessage at parsed
  split at parsed
  · cases parsed
  · simp only [bind_eq_ok] at parsed
    obtain ⟨_, _, _, _, count, counted, _, _, _, _, _, _, parsed⟩ := parsed
    split at parsed
    · cases parsed
    · simp only [bind_eq_ok, Prod.exists] at parsed
      obtain ⟨questions, stop, questionsParsed, _, _, _, _, _, _, _, _, _, result⟩ := parsed
      obtain ⟨qs, questionsAt, length, rfl, fits⟩ := questionsAt_of_parseQuestions questionsParsed
      obtain ⟨back, header⟩ := uint16At_eq_ok_iff.mp counted
      refine ⟨qs, ⟨count, back, stop, header, length.symm, questionsAt⟩, ?_, fits⟩
      cases result
      rw [questions_filterOPT]

/-! ## What the encoder makes of the questions -/

/-- The labels `AppendName` writes: those of the text, or none when these do not
fit. -/
def writtenLabels (name : Bytes) : List Bytes :=
  match packName [] name with
  | .ok _ => textLabels name
  | .error _ => []

/-- The question the encoder writes. -/
def Question.written (q : Question) : WireQuestion :=
  { labels := writtenLabels q.name, type := q.type, cls := q.cls }

theorem appendName_eq_encode (name : Bytes) :
    appendName [] name = encodeLabels (writtenLabels name) ++ [0] := by
  unfold appendName writtenLabels
  cases packed : packName [] name with
  | ok out =>
      obtain ⟨-, -, rfl⟩ := packName_eq_ok_iff.mp packed
      rfl
  | error e => rfl

theorem labelsFit_writtenLabels (name : Bytes) : LabelsFit (writtenLabels name) := by
  unfold writtenLabels
  split
  · rename_i packed
    exact (packName_eq_ok_iff.mp packed).1
  · simp [LabelsFit]

theorem dot_not_mem_writtenLabels {name label : Bytes} (member : label ∈ writtenLabels name) :
    dot ∉ label := by
  unfold writtenLabels at member
  split at member
  · exact dot_not_mem_of_mem_textLabels member
  · simp at member

/-- Labels without dots survive being read and written. -/
theorem writtenLabels_nameText {names : List Bytes} (fit : LabelsFit names)
    (short : wireLength names ≤ maxNameLen) (dotless : ∀ label ∈ names, dot ∉ label) :
    writtenLabels (nameText names) = names := by
  have same := textLabels_nameText fit dotless
  have packed : packName [] (nameText names) = .ok (encodeLabels names ++ [0]) := by
    rw [packName_eq_ok_iff, same]
    exact ⟨fit, short, rfl⟩
  rw [writtenLabels, packed, same]

theorem nameAt_of_drop {buf back : Bytes} {i : Nat} {names : List Bytes} (fit : LabelsFit names)
    (here : buf.drop i = encodeLabels names ++ 0 :: back) :
    NameAt buf i names (i + wireLength names) 0 := by
  have inside : i ≤ buf.length := by
    have size := congrArg List.length here
    rw [List.length_drop, List.length_append, List.length_cons] at size
    omega
  have placed := nameAt_encodeLabels (buf.take i) back fit
  rw [← here, List.take_append_drop, List.length_take, Nat.min_eq_left inside] at placed
  exact placed

theorem questionsAt_encode {buf back : Bytes} {i : Nat} {questions : List Question}
    (here : buf.drop i = questions.flatMap Question.encode ++ back) :
    ∃ stop, QuestionsAt buf i (questions.map Question.written) stop := by
  induction questions generalizing i with
  | nil => exact ⟨i, .nil⟩
  | cons q questions ih =>
      have atName : buf.drop i = encodeLabels (writtenLabels q.name) ++ 0 :: (putUint16 q.type ++
          (putUint16 q.cls ++ (questions.flatMap Question.encode ++ back))) := by
        simpa [Question.encode, appendName_eq_encode] using here
      have name := nameAt_of_drop (labelsFit_writtenLabels q.name) atName
      have fixed : buf.drop (i + wireLength (writtenLabels q.name)) = putUint16 q.type ++
          (putUint16 q.cls ++ (questions.flatMap Question.encode ++ back)) := by
        rw [List.append_cons] at atName
        have moved := drop_advance atName
        rwa [List.length_append, List.length_singleton, length_encodeLabels] at moved
      have rest := drop_advance (drop_advance fixed)
      obtain ⟨stop, questionsAt⟩ := ih rest
      exact ⟨stop, .cons name fixed questionsAt⟩

/-- **A packed message carries its questions as they are written.** -/
theorem questionSection_encode {m : Message} (counted : m.questions.length < 65536) :
    QuestionSection m.encode (m.questions.map Question.written) := by
  have here : m.encode.drop 12 = m.questions.flatMap Question.encode ++
      (m.answers.flatMap RR.encode ++ (m.authority.flatMap RR.encode ++
        (m.additional ++ m.optRecords).flatMap RR.encode)) := rfl
  obtain ⟨stop, questionsAt⟩ := questionsAt_encode here
  refine ⟨m.setCounts.qdCount, m.encode.drop 6, stop, rfl, ?_, questionsAt⟩
  simp only [Message.setCounts, UInt16.toNat_ofNat', List.length_map]
  omega

/-! ## Echoing the questions -/

/-- What is packed, for a stream or for a datagram, carries the message's questions. -/
theorem questionSection_of_packed {m : Message} {out : Bytes}
    (counted : m.questions.length < 65536) (packed : m.pack = .ok out ∨ m.packUDP = .ok out) :
    QuestionSection out (m.questions.map Question.written) := by
  rcases packed with packed | packed
  · obtain ⟨-, rfl⟩ := Message.pack_eq_ok_iff.mp packed
    exact questionSection_encode counted
  · rcases Message.packUDP_cases packed with ⟨rfl, -⟩ | ⟨rfl, -⟩ | ⟨rfl, -⟩
    · exact questionSection_encode counted
    · exact questionSection_encode (m := { m with additional := [] }) counted
    · exact questionSection_encode (m := m.truncated) counted

/-- A resolver that serves no zone. -/
def noZones : Resolver :=
  { findZone := fun _ => .error .notFound, lookupName := fun _ _ => .ok {} }

/-- A handler over no zones. -/
def refusingHandler : Handler := { resolver := noZones, rotate := fun _ => 0 }

theorem count_of_questionSection {buf : Bytes} {qs : List WireQuestion}
    (carried : QuestionSection buf qs) : qs.length < 65536 := by
  obtain ⟨count, _, _, _, counted, _⟩ := carried
  rw [← counted]
  exact count.toNat_lt

/-- **Questions are echoed exactly when no label holds a dot.** An accepted datagram carries some
questions; a response to it, of any handler and packed for a stream or for a datagram, carries
the same ones if and only if no label of them contains the byte `.`. -/
theorem question_echo_iff (data : Bytes) (req : Message) (parsed : parseMessage data = .ok req) :
    ∃ qs, QuestionSection data qs ∧
      ∀ (h : Handler) (out : Bytes),
        (h.handle req).pack = .ok out ∨ (h.handle req).packUDP = .ok out →
          (QuestionSection out qs ↔ ∀ q ∈ qs, ∀ label ∈ q.labels, dot ∉ label) := by
  obtain ⟨qs, carried, reported, fits⟩ := questionSection_of_parseMessage parsed
  have counted : req.questions.length < 65536 := by
    rw [reported, List.length_map]
    exact count_of_questionSection carried
  refine ⟨qs, carried, fun h out packed => ?_⟩
  have written := questionSection_of_packed
    (by rw [Handler.questions_handle]; exact counted) packed
  rw [Handler.questions_handle, reported, List.map_map] at written
  constructor
  · intro echoed q member label inside
    rw [echoed.unique written, List.mem_map] at member
    obtain ⟨question, -, rfl⟩ := member
    exact dot_not_mem_writtenLabels inside
  · intro dotless
    have same : ∀ q ∈ qs, (Question.written ∘ WireQuestion.parsed) q = id q := by
      intro q member
      obtain ⟨fit, short⟩ := fits q member
      have labels := writtenLabels_nameText fit short (dotless q member)
      simp only [Function.comp_apply, Question.written, WireQuestion.parsed, labels, id]
    rwa [List.map_congr_left same, List.map_id] at written

/-- A query for the one-label name `a.b`, of type A. -/
def dottedQuery : Bytes :=
  [0, 7, 1, 0, 0, 1, 0, 0, 0, 0, 0, 0, 3, 97, 46, 98, 0, 0, 1, 0, 1]

/-- The request the parser makes of a query for a name of type A. -/
def addressRequest (name : Bytes) : Message :=
  { id := 7, flags := 0x0100, qdCount := 1
    questions := [{ name := name, type := typeA, cls := classIN }] }

/-- The query for the label `a.b` is answered with a question for `a` under `b`. -/
theorem dottedQuery_not_echoed :
    ∃ req qs out, parseMessage dottedQuery = .ok req ∧ QuestionSection dottedQuery qs ∧
      (refusingHandler.handle req).packUDP = .ok out ∧ ¬ QuestionSection out qs := by
  have parsed : parseMessage dottedQuery = .ok (addressRequest (ascii "a.b")) := by decide
  have carried : QuestionSection dottedQuery
      [{ labels := [ascii "a.b"], type := typeA, cls := classIN }] := by
    have here : dottedQuery.drop 12 = encodeLabels [ascii "a.b"] ++ 0 :: dottedQuery.drop 17 := by
      decide
    have fixed : dottedQuery.drop 17 = putUint16 typeA ++ (putUint16 classIN ++ []) := by decide
    exact ⟨1, dottedQuery.drop 6, 21, rfl, rfl, .cons (nameAt_of_drop (by decide) here) fixed .nil⟩
  have packed : (refusingHandler.handle (addressRequest (ascii "a.b"))).packUDP = .ok
      [0, 7, 129, 5, 0, 1, 0, 0, 0, 0, 0, 0, 1, 97, 1, 98, 0, 0, 1, 0, 1] := by decide
  refine ⟨_, _, _, parsed, carried, packed, fun echoed => ?_⟩
  have written := questionSection_of_packed (by decide) (.inr packed)
  exact absurd (echoed.unique written) (by decide)

/-- A query for `www`, of type A. -/
def plainQuery : Bytes :=
  [0, 7, 1, 0, 0, 1, 0, 0, 0, 0, 0, 0, 3, 119, 119, 119, 0, 0, 1, 0, 1]

/-- The response to it, from a handler over no zones. -/
def plainResponse : Bytes :=
  [0, 7, 129, 5, 0, 1, 0, 0, 0, 0, 0, 0, 3, 119, 119, 119, 0, 0, 1, 0, 1]

theorem question_echo_iff_plainQuery :
    (refusingHandler.handle (addressRequest (ascii "www"))).packUDP = .ok plainResponse ∧
      ∃ qs, QuestionSection plainQuery qs ∧
        (QuestionSection plainResponse qs ↔ ∀ q ∈ qs, ∀ label ∈ q.labels, dot ∉ label) := by
  have packed : (refusingHandler.handle (addressRequest (ascii "www"))).packUDP =
      .ok plainResponse := by decide
  obtain ⟨qs, carried, echoes⟩ :=
    question_echo_iff plainQuery (addressRequest (ascii "www")) (by decide)
  exact ⟨packed, qs, carried, echoes refusingHandler plainResponse (.inr packed)⟩

end ShardDNS.DNS

import ShardDNS.DNS.MessageCodec
import ShardDNS.Library.Slices

/-!
# Packing into a buffer

The server packs a response into the buffer that the request was read into: `append` writes
there as long as there is room and goes on in a new array otherwise, `AppendName` starts again
where `PackName` gave up, and `PackUDP` packs up to three times into one buffer. Over TCP the
message is packed from the third octet on, and `writeTCP` then appends it to the first two,
onto itself.

None of this can be told from the result: what is packed reads as the message packed into
nothing (`writes_packIn`, `writes_packUDPIn`), and what is sent over TCP is the message behind
its length (`appended_frameIn`). No other array changes, nor the buffer before the place where it
is packed.
-/

set_option autoImplicit false

namespace ShardDNS.DNS

open Go LabelTree Slices Slices.Heap

variable (room : Nat → Nat)

/-! ## The writers -/

/-- The loop of `PackName`. -/
def packLabelsIn (name : Bytes) :
    List Bytes → Heap UInt8 → Slice → Heap UInt8 × Except PackNameError Slice
  | [], heap, buf => (heap, .ok buf)
  | label :: rest, heap, buf =>
      if label.length = 0 then (heap, .error (.emptyLabel name))
      else if maxLabelLen < label.length then (heap, .error (.labelTooLong name))
      else
        let (heap, buf) := heap.append room buf [UInt8.ofNat label.length]
        let (heap, buf) := heap.append room buf label
        packLabelsIn name rest heap buf

/-- `PackName`. -/
def packNameIn (heap : Heap UInt8) (buf : Slice) (name : Bytes) :
    Heap UInt8 × Except PackNameError Slice :=
  let name := trimSuffix name (ascii ".")
  if name = [] then
    let (heap, buf) := heap.append room buf [0]
    (heap, .ok buf)
  else if maxNameLen < name.length + 2 then (heap, .error (.tooLong name))
  else
    match packLabelsIn room name (labels dot name) heap buf with
    | (heap, .error e) => (heap, .error e)
    | (heap, .ok buf) =>
        let (heap, buf) := heap.append room buf [0]
        (heap, .ok buf)

/-- `AppendName`: if the name cannot be packed, the root is written over what was packed of it. -/
def appendNameIn (heap : Heap UInt8) (buf : Slice) (name : Bytes) : Heap UInt8 × Slice :=
  match packNameIn room heap buf name with
  | (heap, .ok out) => (heap, out)
  | (heap, .error _) => heap.append room buf [0]

def appendQuestionIn (heap : Heap UInt8) (buf : Slice) (q : Question) : Heap UInt8 × Slice :=
  let (heap, buf) := appendNameIn room heap buf q.name
  heap.append room buf (putUint16 q.type ++ putUint16 q.cls)

/-- The loop over the questions. -/
def appendQuestionsIn : List Question → Heap UInt8 → Slice → Heap UInt8 × Slice
  | [], heap, buf => (heap, buf)
  | q :: questions, heap, buf =>
      let (heap, buf) := appendQuestionIn room heap buf q
      appendQuestionsIn questions heap buf

/-- `appendRRs`. -/
def appendRRsIn : List RR → Heap UInt8 → Slice → Heap UInt8 × Except PackError Slice
  | [], heap, buf => (heap, .ok buf)
  | rr :: rrs, heap, buf =>
      let (heap, buf) := appendNameIn room heap buf rr.name
      if 0xFFFF < rr.rdata.length then (heap, .error .rdataTooLong)
      else
        let (heap, buf) := heap.append room buf (putUint16 rr.type ++ putUint16 rr.cls ++
          putUint32 rr.ttl ++ putUint16 (UInt16.ofNat rr.rdata.length))
        let (heap, buf) := heap.append room buf rr.rdata
        appendRRsIn rrs heap buf

/-- `AppendOPT`. -/
def appendOPTIn (heap : Heap UInt8) (buf : Slice) (size : UInt16) (dobit : Bool) :
    Heap UInt8 × Slice :=
  let size := if size = 0 then UInt16.ofNat maxEDNSUDPSize else size
  let (heap, buf) := heap.append room buf [0]
  heap.append room buf (putUint16 typeOPT ++ putUint16 size ++
    putUint32 (if dobit then 0x00008000 else 0) ++ putUint16 0)

/-- Goes on with what a writer has written, unless it failed. -/
def thenIn {ε : Type} (written : Heap UInt8 × Except ε Slice)
    (next : Heap UInt8 → Slice → Heap UInt8 × Except ε Slice) : Heap UInt8 × Except ε Slice :=
  match written with
  | (heap, .error e) => (heap, .error e)
  | (heap, .ok buf) => next heap buf

/-- `Pack`. -/
def packIn (heap : Heap UInt8) (buf : Slice) (m : Message) : Heap UInt8 × Except PackError Slice :=
  let (heap, buf) := if buf.capacity < 12 then heap.alloc [] 512 else (heap, buf)
  let (heap, buf) := heap.append room buf.empty m.setCounts.header
  let (heap, buf) := appendQuestionsIn room m.questions heap buf
  thenIn (appendRRsIn room m.answers heap buf) fun heap buf =>
    thenIn (appendRRsIn room m.authority heap buf) fun heap buf =>
      thenIn (appendRRsIn room m.additional heap buf) fun heap buf =>
        if m.edns0 then
          let (heap, buf) := appendOPTIn room heap buf m.edns0Size m.edns0DO
          (heap, .ok buf)
        else (heap, .ok buf)

/-- `PackUDP`. -/
def packUDPIn (heap : Heap UInt8) (buf : Slice) (m : Message) :
    Heap UInt8 × Except PackError Slice :=
  let limit := m.udpSize
  thenIn (packIn room heap buf m) fun heap out =>
    if out.length ≤ limit then (heap, .ok out)
    else if 0 < m.additional.length then
      thenIn (packIn room heap buf { m with additional := [] }) fun heap out =>
        if out.length ≤ limit then (heap, .ok out) else packIn room heap buf m.truncated
    else packIn room heap buf m.truncated

/-- `writeTCP`, but for the connection: the frame of a message. -/
def frameIn (heap : Heap UInt8) (bp msg : Slice) : Heap UInt8 × Slice :=
  let (heap, frame) := heap.append room bp.empty [0, 0]
  let (heap, frame) := heap.append room frame (heap.read msg)
  (heap.write frame.array frame.start (putUint16 (UInt16.ofNat msg.length)), frame)

/-! ## Names -/

section

variable {room} {heap : Heap UInt8} {buf : Slice}

theorem writes_packLabelsIn (fits : heap.Fits buf) (name : Bytes) (names : List Bytes) :
    Writes heap buf (packLabels name names) (packLabelsIn room name names heap buf) := by
  induction names generalizing heap buf with
  | nil => exact .ok (appended_nil fits)
  | cons label rest ih =>
      unfold packLabelsIn packLabels
      split
      · exact .error (appended_nil fits)
      · split
        · exact .error (appended_nil fits)
        · have size := appended_append room fits [UInt8.ofNat label.length]
          have text := size.trans fits (appended_append room size.fits label)
          have written := (ih text.fits).after fits text
          cases packed : packLabels name rest with
          | error e =>
              rw [packed] at written
              exact written
          | ok out =>
              rw [packed] at written
              exact written

theorem writes_packNameIn (fits : heap.Fits buf) (name : Bytes) :
    Writes heap buf (packName [] name) (packNameIn room heap buf name) := by
  unfold packNameIn packName
  dsimp only
  split
  · exact .ok (appended_append room fits [0])
  · split
    · exact .error (appended_nil fits)
    · have written := @writes_packLabelsIn room heap buf fits (trimSuffix name (ascii "."))
        (labels dot (trimSuffix name (ascii ".")))
      generalize packLabelsIn room (trimSuffix name (ascii ".")) _ heap buf = result at written
      generalize packLabels (trimSuffix name (ascii ".")) _ = packed at written
      cases written with
      | ok appended => exact .ok (appended.trans fits (appended_append room appended.fits [0]))
      | error appended => exact .error appended

theorem appended_appendNameIn (fits : heap.Fits buf) (name : Bytes) :
    Appended heap buf (appendName [] name) (appendNameIn room heap buf name).1
      (appendNameIn room heap buf name).2 := by
  have written := @writes_packNameIn room heap buf fits name
  unfold appendNameIn appendName
  generalize packNameIn room heap buf name = result at written
  generalize packName [] name = packed at written
  cases written with
  | ok appended => exact appended
  | error appended =>
      exact appended.restart fits (appended_append room (appended.keeps.fits fits) [0])

/-! ## Messages -/

theorem appended_appendQuestionIn (fits : heap.Fits buf) (q : Question) :
    Appended heap buf q.encode (appendQuestionIn room heap buf q).1
      (appendQuestionIn room heap buf q).2 := by
  have name := @appended_appendNameIn room heap buf fits q.name
  exact name.trans fits (appended_append room name.fits _)

theorem appended_appendQuestionsIn (fits : heap.Fits buf) (questions : List Question) :
    Appended heap buf (questions.flatMap Question.encode)
      (appendQuestionsIn room questions heap buf).1
      (appendQuestionsIn room questions heap buf).2 := by
  induction questions generalizing heap buf with
  | nil => exact appended_nil fits
  | cons q questions ih =>
      have first := @appended_appendQuestionIn room heap buf fits q
      rw [List.flatMap_cons]
      exact first.trans fits (ih first.fits)

theorem appendRRs_eq_map (front : Bytes) (rrs : List RR) :
    appendRRs front rrs = (appendRRs [] rrs).map (front ++ ·) := by
  cases packed : appendRRs [] rrs with
  | ok out =>
      obtain ⟨short, rfl⟩ := appendRRs_eq_ok_iff.mp packed
      exact appendRRs_eq_ok_iff.mpr ⟨short, rfl⟩
  | error e =>
      cases e
      cases whole : appendRRs front rrs with
      | error e => cases e; rfl
      | ok out =>
          rw [appendRRs_eq_ok_iff.mpr ⟨(appendRRs_eq_ok_iff.mp whole).1, rfl⟩] at packed
          cases packed

theorem writes_appendRRsIn (fits : heap.Fits buf) (rrs : List RR) :
    Writes heap buf (appendRRs [] rrs) (appendRRsIn room rrs heap buf) := by
  induction rrs generalizing heap buf with
  | nil => exact .ok (appended_nil fits)
  | cons rr rrs ih =>
      have name := @appended_appendNameIn room heap buf fits rr.name
      unfold appendRRsIn appendRRs
      dsimp only
      split
      · exact .error name
      · rename_i short
        have header := name.trans fits (appended_append room name.fits (putUint16 rr.type ++
          putUint16 rr.cls ++ putUint32 rr.ttl ++ putUint16 (UInt16.ofNat rr.rdata.length)))
        have whole := header.trans fits (appended_append room header.fits rr.rdata)
        have written := (ih whole.fits).after fits whole
        rw [appendRRs_eq_map]
        have shape : appendName [] rr.name ++ putUint16 rr.type ++ putUint16 rr.cls ++
            putUint32 rr.ttl ++
            putUint16 (UInt16.ofNat rr.rdata.length) ++ rr.rdata =
              appendName [] rr.name ++ (putUint16 rr.type ++ putUint16 rr.cls ++ putUint32 rr.ttl ++
                putUint16 (UInt16.ofNat rr.rdata.length)) ++ rr.rdata := by
          simp only [List.append_assoc]
        rw [shape]
        exact written

theorem appended_appendOPTIn (fits : heap.Fits buf) (size : UInt16) (dobit : Bool) :
    Appended heap buf (appendOPT [] size dobit) (appendOPTIn room heap buf size dobit).1
      (appendOPTIn room heap buf size dobit).2 := by
  have root := appended_append room fits [0]
  have whole := root.trans fits (appended_append room root.fits (putUint16 typeOPT ++
    putUint16 (if size = 0 then UInt16.ofNat maxEDNSUDPSize else size) ++
    putUint32 (if dobit then 0x00008000 else 0) ++ putUint16 0))
  have shape : appendOPT [] size dobit = [0] ++ (putUint16 typeOPT ++
      putUint16 (if size = 0 then UInt16.ofNat maxEDNSUDPSize else size) ++
      putUint32 (if dobit then 0x00008000 else 0) ++ putUint16 0) := by
    simp only [appendOPT, List.nil_append, List.append_assoc]
  rw [shape]
  exact whole

/-- Writers in sequence: the second starts where the first ended. -/
theorem writes_thenIn {ε : Type} {first : Except ε Bytes} {written : Heap UInt8 × Except ε Slice}
    {second : Except ε Bytes} {next : Heap UInt8 → Slice → Heap UInt8 × Except ε Slice}
    (fits : heap.Fits buf) (wrote : Writes heap buf first written)
    (onward : ∀ heap' buf', heap'.Fits buf' → Writes heap' buf' second (next heap' buf')) :
    Writes heap buf (first >>= fun front => second.map (front ++ ·)) (thenIn written next) := by
  cases wrote with
  | ok appended => exact (onward _ _ appended.fits).after fits appended
  | error appended => exact .error appended

theorem appendOPT_eq_append (front : Bytes) (size : UInt16) (dobit : Bool) :
    appendOPT front size dobit = front ++ appendOPT [] size dobit := by
  simp only [appendOPT, List.append_assoc, List.nil_append]

/-- Sections in sequence. -/
theorem pack_eq (m : Message) :
    m.pack =
      (appendRRs [] m.answers >>= fun answers =>
        (appendRRs [] m.authority >>= fun authority =>
          (appendRRs [] m.additional >>= fun additional =>
            (Except.ok (if m.edns0 then appendOPT [] m.edns0Size m.edns0DO else [])).map
              (additional ++ ·)).map (authority ++ ·)).map (answers ++ ·)).map
        (m.setCounts.header ++ m.questions.flatMap Question.encode ++ ·) := by
  unfold Message.pack
  dsimp only
  rw [foldl_appendQuestion, appendRRs_eq_map]
  cases appendRRs [] m.answers with
  | error e => rfl
  | ok answers =>
      simp only [Except.map, ok_bind]
      rw [appendRRs_eq_map]
      cases appendRRs [] m.authority with
      | error e => rfl
      | ok authority =>
          simp only [Except.map, ok_bind]
          rw [appendRRs_eq_map]
          cases appendRRs [] m.additional with
          | error e => rfl
          | ok additional =>
              simp only [Except.map, ok_bind, Pure.pure, Except.pure]
              split
              · rw [appendOPT_eq_append]
                simp only [List.append_assoc]
              · simp only [List.append_assoc, List.append_nil]

/-- The buffer `Pack` starts with, its own or a new one. -/
theorem appended_start (fits : heap.Fits buf) :
    Appended heap buf.empty [] (if buf.capacity < 12 then heap.alloc [] 512 else (heap, buf)).1
      (if buf.capacity < 12 then heap.alloc [] 512 else (heap, buf)).2.empty := by
  split
  · exact appended_alloc fits.known 512
  · exact appended_nil fits.empty

/-- **What is packed into a buffer is the message packed.** -/
theorem writes_packIn (fits : heap.Fits buf) (m : Message) :
    Writes heap buf.empty m.pack (packIn room heap buf m) := by
  have start := appended_start fits
  have header := start.trans fits.empty (appended_append room start.fits m.setCounts.header)
  have front := header.trans fits.empty
    (@appended_appendQuestionsIn room _ _ header.fits m.questions)
  rw [pack_eq]
  refine Writes.after fits.empty front (writes_thenIn front.fits (writes_appendRRsIn front.fits _)
    fun heap buf fits => writes_thenIn fits (writes_appendRRsIn fits _)
      fun heap buf fits => writes_thenIn fits (writes_appendRRsIn fits _) fun heap buf fits => ?_)
  split
  · exact .ok (appended_appendOPTIn fits _ _)
  · exact .ok (appended_nil fits)

/-- **What is packed into the buffer of a datagram is the datagram**, however often it was
packed. -/
theorem writes_packUDPIn (fits : heap.Fits buf) (m : Message) :
    Writes heap buf.empty m.packUDP (packUDPIn room heap buf m) := by
  have again : ∀ {heap' : Heap UInt8} {out : Bytes} {s : Slice} (m' : Message),
      Appended heap buf.empty out heap' s →
        Writes heap buf.empty m'.pack (packIn room heap' buf m') :=
    fun m' first => (writes_packIn (first.keeps.fits fits) m').restart fits.empty first
  have whole := @writes_packIn room heap buf fits m
  unfold packUDPIn Message.packUDP
  dsimp only
  generalize packIn room heap buf m = written at whole ⊢
  generalize m.pack = packed at whole ⊢
  cases whole with
  | error appended => exact .error appended
  | @ok out heap₁ s₁ appended =>
      have size : s₁.length = out.length := appended.length.trans (Nat.zero_add _)
      simp only [thenIn, ok_bind, size]
      split
      · exact .ok appended
      · split
        · have trimmed := again { m with additional := [] } appended
          generalize packIn room heap₁ buf { m with additional := [] } = written' at trimmed ⊢
          generalize Message.pack { m with additional := [] } = packed' at trimmed ⊢
          cases trimmed with
          | error appended' => exact .error appended'
          | @ok out' heap₂ s₂ appended' =>
              have size' : s₂.length = out'.length := appended'.length.trans (Nat.zero_add _)
              simp only [ok_bind, size']
              split
              · exact .ok appended'
              · exact again m.truncated appended'
        · exact again m.truncated appended

/-! ## Frames -/

/-- **The frame of a message is the message behind its length**, also if the message stands where
the frame is written. -/
theorem appended_frameIn {bp msg : Slice} (fits : heap.Fits bp) (message : heap.Fits msg)
    (behind : msg.array = bp.array → bp.start + 2 ≤ msg.start) :
    Appended heap bp.empty (putUint16 (UInt16.ofNat msg.length) ++ heap.read msg)
      (frameIn room heap bp msg).1 (frameIn room heap bp msg).2 := by
  have zeros := appended_append room fits.empty [0, 0]
  have same : (heap.append room bp.empty [0, 0]).1.read msg = heap.read msg :=
    read_append_of_behind room fits.empty [0, 0] message.known behind
  have whole := zeros.trans fits.empty (appended_append room zeros.fits (heap.read msg))
  unfold frameIn
  dsimp only
  rw [same]
  generalize (heap.append room bp.empty [0, 0]).1.append room _ (heap.read msg) = written at whole ⊢
  obtain ⟨heap', frame⟩ := written
  dsimp only at whole ⊢
  have size : frame.length = 2 + (heap.read msg).length := by
    have := whole.length
    simp only [Slice.empty, List.length_append, List.length_cons, List.length_nil] at this
    omega
  have two : (putUint16 (UInt16.ofNat msg.length)).length = 2 := rfl
  have filled := whole.fits.filled
  have inside := whole.fits.inside
  have keeps : Keeps frame.array frame.start heap'
      (heap'.write frame.array frame.start (putUint16 (UInt16.ofNat msg.length))) :=
    keeps_write whole.fits.known (by omega)
  refine ⟨?_, ?_, keeps.fits whole.fits, whole.place, ?_⟩
  · rw [read_write_start whole.fits (by omega), whole.reads, two]
    simp [Heap.read, Slice.empty]
  · rw [List.length_append, two]
    simp only [size, Slice.empty, Nat.zero_add]
  · rcases whole.place with ⟨array, start, -⟩ | new
    · rw [array, start] at keeps ⊢
      exact whole.keeps.trans keeps
    · exact whole.keeps.of_new fits.known new keeps

/-! ## Results -/

/-- **Packing into a used buffer gives the datagram**, or fails as packing does, and changes no
other array. -/
theorem packUDPIn_in_place (fits : heap.Fits buf) (m : Message) :
    (packUDPIn room heap buf m).2.map (packUDPIn room heap buf m).1.read = m.packUDP ∧
      ∀ s : Slice, s.array < heap.length → s.array ≠ buf.array →
        (packUDPIn room heap buf m).1.read s = heap.read s := by
  have wrote := @writes_packUDPIn room heap buf fits m
  generalize packUDPIn room heap buf m = written at wrote ⊢
  generalize m.packUDP = packed at wrote ⊢
  cases wrote with
  | ok appended =>
      refine ⟨congrArg Except.ok ?_, fun s known other => appended.keeps.read known fun here =>
        absurd here other⟩
      rw [appended.reads]
      simp [Heap.read, Slice.empty]
  | error appended =>
      exact ⟨rfl, fun s known other => appended.keeps.read known fun here => absurd here other⟩

/-- **The frame of a message that was packed into the same buffer is the message behind its
length**, and no other array changes. -/
theorem frameIn_packIn {bp : Slice} {m : Message} {out : Bytes} (fits : heap.Fits bp)
    (wide : 2 ≤ bp.capacity) (packed : m.pack = .ok out) :
    ∃ heap₁ msg, packIn room heap (bp.emptyFrom 2) m = (heap₁, .ok msg) ∧
      (frameIn room heap₁ bp msg).1.read (frameIn room heap₁ bp msg).2 =
        putUint16 (UInt16.ofNat out.length) ++ out ∧
      ∀ s : Slice, s.array < heap.length → s.array ≠ bp.array →
        (frameIn room heap₁ bp msg).1.read s = heap.read s := by
  have inside := fits.inside
  have behind : heap.Fits (bp.emptyFrom 2) := by
    refine ⟨fits.known, Nat.zero_le _, ?_⟩
    simp only [Slice.emptyFrom]
    omega
  have wrote := @writes_packIn room heap (bp.emptyFrom 2) behind m
  rw [packed] at wrote
  generalize packIn room heap (bp.emptyFrom 2) m = written at wrote ⊢
  cases wrote with
  | @ok _ heap₁ msg appended =>
      have message : heap₁.read msg = out := appended.reads
      have size : msg.length = out.length := appended.length.trans (Nat.zero_add _)
      have framed := @appended_frameIn room heap₁ bp msg (appended.keeps.fits fits)
        appended.fits fun here => by
        rcases appended.place with ⟨-, start, -⟩ | new
        · exact Nat.le_of_eq start.symm
        · exact absurd fits.known (Nat.not_lt.mpr (here ▸ new))
      refine ⟨heap₁, msg, rfl, ?_, fun s known other => ?_⟩
      · rw [framed.reads, message, size]
        simp [Heap.read, Slice.empty]
      · rw [framed.keeps.read (Nat.lt_of_lt_of_le known appended.keeps.grows) fun here =>
          absurd here other]
        exact appended.keeps.read known fun here => absurd here other

end

/-- A buffer of 64 octets, all used. -/
def usedBuffer : Slice := { array := 0, start := 0, length := 64, capacity := 64 }

theorem fits_usedBuffer : Heap.Fits [List.replicate 64 (255 : UInt8)] usedBuffer :=
  ⟨by decide, by decide, by decide⟩

/-- A query for the addresses of `a`. -/
def shortQuery : Message :=
  { id := 7, flags := 0, questions := [{ name := [97], type := 1, cls := 1 }], answers := [],
    authority := [], additional := [] }

theorem packUDPIn_in_place_shortQuery :
    (packUDPIn id [List.replicate 64 255] usedBuffer shortQuery).2.map
        (packUDPIn id [List.replicate 64 255] usedBuffer shortQuery).1.read = shortQuery.packUDP ∧
      ∀ s : Slice, s.array < 1 → s.array ≠ 0 →
        (packUDPIn id [List.replicate 64 255] usedBuffer shortQuery).1.read s =
          Heap.read [List.replicate 64 255] s :=
  packUDPIn_in_place fits_usedBuffer shortQuery

theorem frameIn_packIn_shortQuery : ∃ out heap₁ msg, shortQuery.pack = .ok out ∧
    packIn id [List.replicate 64 255] (usedBuffer.emptyFrom 2) shortQuery = (heap₁, .ok msg) ∧
      (frameIn id heap₁ usedBuffer msg).1.read (frameIn id heap₁ usedBuffer msg).2 =
        putUint16 (UInt16.ofNat out.length) ++ out ∧
      ∀ s : Slice, s.array < 1 → s.array ≠ 0 →
        (frameIn id heap₁ usedBuffer msg).1.read s = Heap.read [List.replicate 64 255] s := by
  obtain ⟨heap₁, msg, rest⟩ := @frameIn_packIn id _ _ _ _ fits_usedBuffer (by decide)
    (show shortQuery.pack = .ok _ from rfl)
  exact ⟨_, heap₁, msg, rfl, rest⟩

end ShardDNS.DNS

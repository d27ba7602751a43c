import ShardDNS.DNS.Service

/-!
# Buffers in use

A buffer is handed from the reader to the queue, from the queue to a worker, and back to the
pool; a connection keeps one from its first message to its end. Whoever has a buffer knows what
is in it: the reader and the queue a datagram, a worker the datagram or the reply to it, a
connection the frame it is about to write.
-/

set_option autoImplicit false

namespace ShardDNS.DNS

open Go Store Program Slices Slices.Heap

variable {Peer : Type}

/-! ## Who holds what -/

/-- Whoever can have a buffer. -/
inductive Party (Peer : Type) where
  | reader (reader : Reader Peer)
  | job (job : Job Peer)
  | worker (worker : Worker Peer)
  | conn (conn : Conn)

def Reader.owned : Reader Peer → List Nat
  | .reading buf | .failed buf _ => [buf]
  | .sending job => [job.buf]
  | .getting | .stopped => []

def Worker.owned : Worker Peer → List Nat
  | .parsing job | .handling job _ | .packing job _ => [job.buf]
  | .writing job out => both job.buf out.array
  | .putting buf => [buf]
  | .receiving | .finished => []

def Talk.owned : Talk → List Nat
  | .header buf | .body buf _ | .parsing buf _ => [buf]
  | .handling buf _ | .packing buf _ | .putting buf => [buf]
  | .framing buf msg => both buf msg.array
  | .writing buf frame => both buf frame.array
  | .getting | .closing | .releasing | .finished => []

def Party.owned : Party Peer → List Nat
  | .reader r => r.owned
  | .job j => [j.buf]
  | .worker w => w.owned
  | .conn c => c.talk.owned

/-- All that can have a buffer in a state. -/
def Service.parties (s : Service Peer) : List (Party Peer) :=
  .reader s.reader :: (s.jobs.map .job ++ s.workers.map .worker ++ s.conns.map .conn)

/-! ## What they know -/

/-- A datagram and where it came from. -/
abbrev Datagram (Peer : Type) := Bytes × Peer

/-- A buffer of the pool's size. -/
def Sized (heap : Heap UInt8) (buf : Nat) : Prop :=
  buf < heap.length ∧ (heap.array buf).length = bufSize

/-- The buffer of a job holds a datagram. -/
def Job.Holds (heap : Heap UInt8) (job : Job Peer) (entries : List (Datagram Peer)) : Prop :=
  ∃ data : Bytes, entries = [(data, job.addr)] ∧
    heap.read (bufferSlice job.buf job.n) = data.take bufSize

/-- What the datagram of a job has come to. -/
def Job.Made (job : Job Peer) (entries : List (Datagram Peer)) (P : Bytes → Prop) : Prop :=
  ∃ data : Bytes, entries = [(data, job.addr)] ∧ P (data.take bufSize)

def Reader.Holds (heap : Heap UInt8) (entries : List (Datagram Peer)) : Reader Peer → Prop
  | .getting | .stopped => entries = []
  | .reading buf | .failed buf _ => Sized heap buf ∧ entries = []
  | .sending job => Sized heap job.buf ∧ job.Holds heap entries

def Worker.Holds (heap : Heap UInt8) (entries : List (Datagram Peer)) : Worker Peer → Prop
  | .receiving | .finished => entries = []
  | .parsing job => Sized heap job.buf ∧ job.Holds heap entries
  | .handling job req => Sized heap job.buf ∧ job.Made entries (Asks · req)
  | .packing job resp =>
      Sized heap job.buf ∧ job.Made entries fun data => ∃ req, Asks data req ∧ Handles req resp
  | .writing job out =>
      Sized heap job.buf ∧ job.Made entries fun data => OutcomeUDP data (some (heap.read out))
  | .putting buf => Sized heap buf ∧ entries = []

/-- A connection has read a message, and has answered those before it. -/
structure Heard (taken sent data : Bytes) : Prop where
  framed : Framed data
  between : Between taken sent (frame data) []

/-- What a connection has read and written, and what it is about to. -/
def Talk.Holds (heap : Heap UInt8) (taken sent : Bytes) : Talk → Prop
  | .getting => Between taken sent [] []
  | .header buf => Sized heap buf ∧ Between taken sent [] []
  | .body buf n =>
      Sized heap buf ∧ (12 ≤ n ∧ n ≤ 65535) ∧ Between taken sent (putUint16 (UInt16.ofNat n)) []
  | .parsing buf data => Sized heap buf ∧ Heard taken sent data
  | .handling buf req => Sized heap buf ∧ ∃ data, Heard taken sent data ∧ Asks data req
  | .packing buf resp =>
      Sized heap buf ∧ ∃ data, Heard taken sent data ∧ ∃ req, Asks data req ∧ Handles req resp
  | .framing buf msg =>
      Sized heap buf ∧ (heap.Fits msg ∧ (msg.array = buf → 2 ≤ msg.start)) ∧
        ∃ data, Heard taken sent data ∧ OutcomeTCP data (some (heap.read msg))
  | .writing buf written =>
      Sized heap buf ∧ ∃ data, Heard taken sent data ∧
        ∃ out, OutcomeTCP data (some out) ∧ heap.read written = frame out
  | .putting buf => Sized heap buf ∧ Spoken taken sent
  | .closing | .releasing | .finished => Spoken taken sent

def Party.Holds (heap : Heap UInt8) (party : Party Peer) (entries : List (Datagram Peer)) : Prop :=
  match party with
  | .reader r => r.Holds heap entries
  | .job j => Sized heap j.buf ∧ j.Holds heap entries
  | .worker w => w.Holds heap entries
  | .conn c => c.talk.Holds heap c.taken c.sent ∧ entries = []

/-! ## Nobody else can change it -/

section Stable

variable {heap heap' : Heap UInt8} {entries : List (Datagram Peer)}

theorem Sized.stable {buf : Nat} (sized : Sized heap buf) (grows : heap.length ≤ heap'.length)
    (same : heap'.array buf = heap.array buf) : Sized heap' buf :=
  ⟨Nat.lt_of_lt_of_le sized.1 grows, (congrArg List.length same).trans sized.2⟩

theorem read_of_same {s : Slice} (same : heap'.array s.array = heap.array s.array) :
    heap'.read s = heap.read s := by
  simp only [Heap.read, same]

theorem Job.Holds.stable {job : Job Peer} (holds : job.Holds heap entries)
    (same : heap'.array job.buf = heap.array job.buf) : job.Holds heap' entries := by
  obtain ⟨data, entry, read⟩ := holds
  exact ⟨data, entry, (read_of_same same).trans read⟩

theorem Reader.Holds.stable {r : Reader Peer} (holds : r.Holds heap entries)
    (grows : heap.length ≤ heap'.length) (same : ∀ b ∈ r.owned, heap'.array b = heap.array b) :
    r.Holds heap' entries := by
  cases r with
  | getting => exact holds
  | stopped => exact holds
  | reading buf => exact ⟨holds.1.stable grows (same buf (.head _)), holds.2⟩
  | failed buf closed => exact ⟨holds.1.stable grows (same buf (.head _)), holds.2⟩
  | sending job =>
      have here := same job.buf (.head _)
      exact ⟨holds.1.stable grows here, holds.2.stable here⟩

theorem Worker.Holds.stable {w : Worker Peer} (holds : w.Holds heap entries)
    (grows : heap.length ≤ heap'.length) (same : ∀ b ∈ w.owned, heap'.array b = heap.array b) :
    w.Holds heap' entries := by
  cases w with
  | receiving => exact holds
  | finished => exact holds
  | parsing job =>
      have here := same job.buf (.head _)
      exact ⟨holds.1.stable grows here, holds.2.stable here⟩
  | handling job req => exact ⟨holds.1.stable grows (same _ (.head _)), holds.2⟩
  | packing job resp => exact ⟨holds.1.stable grows (same _ (.head _)), holds.2⟩
  | writing job out =>
      refine ⟨holds.1.stable grows (same _ (mem_both _ _)), ?_⟩
      have read : heap'.read out = heap.read out := read_of_same (same _ (mem_both_right _ _))
      rw [read]
      exact holds.2
  | putting buf => exact ⟨holds.1.stable grows (same _ (.head _)), holds.2⟩

theorem Talk.Holds.stable {t : Talk} {taken sent : Bytes} (holds : t.Holds heap taken sent)
    (grows : heap.length ≤ heap'.length) (same : ∀ b ∈ t.owned, heap'.array b = heap.array b) :
    t.Holds heap' taken sent := by
  cases t with
  | getting | closing | releasing | finished => exact holds
  | header buf | body buf n | parsing buf data | handling buf req | packing buf resp
  | putting buf =>
      exact ⟨holds.1.stable grows (same _ (.head _)), holds.2⟩
  | framing buf msg =>
      obtain ⟨sized, ⟨fits, behind⟩, outcome⟩ := holds
      have here := same _ (mem_both_right buf msg.array)
      have fits' : heap'.Fits msg := by
        refine ⟨Nat.lt_of_lt_of_le fits.known grows, fits.filled, ?_⟩
        rw [here]
        exact fits.inside
      refine ⟨sized.stable grows (same _ (mem_both _ _)), ⟨fits', behind⟩, ?_⟩
      rw [read_of_same here]
      exact outcome
  | writing buf written =>
      refine ⟨holds.1.stable grows (same _ (mem_both _ _)), ?_⟩
      rw [read_of_same (same _ (mem_both_right buf written.array))]
      exact holds.2

end Stable

/-- The parties as holders of buffers, which account for the datagrams in them. -/
def parties : Holder UInt8 (Party Peer) (Datagram Peer) where
  owned := Party.owned
  holds heap party entries := party.Holds heap entries
  stable {heap heap' party entries} grows same holds := by
    cases party with
    | reader r => exact Reader.Holds.stable holds grows same
    | job j =>
        have here := same j.buf (.head _)
        exact ⟨holds.1.stable grows here, holds.2.stable here⟩
    | worker w => exact Worker.Holds.stable holds grows same
    | conn c => exact ⟨holds.1.stable grows same, holds.2⟩

/-! ## What becomes of a datagram -/

/-- What became of a datagram. -/
inductive Fate where
  | replied (out : Bytes)
  | unsent (out : Bytes)
  | ignored
  | dropped

/-- It is one that the server may have for it. -/
def Fate.Right (data : Bytes) : Fate → Prop
  | .replied out | .unsent out => OutcomeUDP (data.take bufSize) (some out)
  | .ignored => OutcomeUDP (data.take bufSize) none
  | .dropped => True

/-- What is seen of it. -/
def Fate.seen (addr : Peer) : Fate → List (Happening Peer)
  | .replied out => [.replied out addr]
  | .unsent _ => [.unsent]
  | .ignored => []
  | .dropped => [.dropped]

/-- The datagram that a step takes in. -/
def Happening.incoming : Happening Peer → List (Datagram Peer)
  | .received data addr => [(data, addr)]
  | _ => []

/-- What a step shows of the fates of datagrams. -/
def Happening.outgoing : Happening Peer → List (Happening Peer)
  | .replied data addr => [.replied data addr]
  | .unsent => [.unsent]
  | .dropped => [.dropped]
  | _ => []

/-- A step settles these datagrams so. -/
structure Settles (happens : Happening Peer) (settled : List (Datagram Peer × Fate)) : Prop where
  right : ∀ x ∈ settled, x.2.Right x.1.1
  seen : settled.flatMap (fun x => x.2.seen x.1.2) = happens.outgoing

/-- The entries are those of settled datagrams. -/
def Gives (happens : Happening Peer) (outs : List (Datagram Peer)) : Prop :=
  ∃ settled, outs = settled.map Prod.fst ∧ Settles happens settled

theorem gives_nil {happens : Happening Peer} (quiet : happens.outgoing = []) : Gives happens [] :=
  ⟨[], rfl, nofun, quiet.symm⟩

theorem gives_one {happens : Happening Peer} {data : Bytes} {addr : Peer} (fate : Fate)
    (right : fate.Right data) (seen : fate.seen addr = happens.outgoing) :
    Gives happens [(data, addr)] := by
  refine ⟨[((data, addr), fate)], rfl, fun x member => ?_, ?_⟩
  · rw [List.mem_singleton.mp member]
    exact right
  · simpa using seen

/-! ## Writing to a buffer -/

section Buffers

variable {mem : Memory UInt8} {buf : Nat}

theorem Sized.fits {heap : Heap UInt8} (sized : Sized heap buf) : heap.Fits (bufferSlice buf 0) :=
  ⟨sized.1, Nat.zero_le _, (Nat.zero_add _).trans_le (Nat.le_of_eq sized.2.symm)⟩

theorem Sized.fits_emptyFrom {heap : Heap UInt8} (sized : Sized heap buf) :
    heap.Fits ((bufferSlice buf 0).emptyFrom 2) := by
  refine ⟨sized.1, Nat.zero_le _, ?_⟩
  have size : (heap.array buf).length = bufSize := sized.2
  show 0 + 2 + (bufSize - 2) ≤ (heap.array buf).length
  rw [size]
  decide

theorem Sized.keeps {heap heap' : Heap UInt8} {i : Nat} (sized : Sized heap buf)
    (keeps : Keeps buf i heap heap') : Sized heap' buf :=
  ⟨Nat.lt_of_lt_of_le sized.1 keeps.grows, keeps.length.trans sized.2⟩

theorem Sized.alloc {heap : Heap UInt8} (sized : Sized heap buf) (xs : Bytes) :
    Sized (heap.alloc xs 0).1 buf :=
  sized.keeps (keeps_alloc buf 0 sized.1 xs 0)

theorem transfer_alloc (sized : Sized mem.heap buf) (xs : Bytes) :
    Transfer bufSize mem { mem with heap := (mem.heap.alloc xs 0).1 } [buf]
      (both buf mem.heap.length) := by
  have keeps := keeps_alloc buf 0 sized.1 xs 0
  refine transfer_write (List.mem_singleton_self buf) keeps (.inr ⟨Nat.le_refl _, ?_⟩)
  simp [alloc]

/-- A buffer is written to, and nothing new is kept. -/
theorem transfer_keeps {heap : Heap UInt8} {i : Nat} (keeps : Keeps buf i mem.heap heap) :
    Transfer bufSize mem { mem with heap := heap } [buf] [buf] := by
  have moved := @transfer_write _ bufSize mem [buf] buf buf i heap (List.mem_singleton_self buf)
    keeps (.inl rfl)
  rwa [both, if_pos rfl] at moved

/-- Something is written to a buffer, or behind it in a new array. -/
theorem transfer_appended {heap : Heap UInt8} {own : List Nat} {s s' : Slice} {ys : Bytes}
    (owned : s.array ∈ own) (appended : Appended mem.heap s ys heap s') :
    Transfer bufSize mem { mem with heap := heap } own (both s.array s'.array) := by
  refine transfer_write owned appended.keeps ?_
  rcases appended.place with ⟨array, -⟩ | new
  · exact .inl array
  · exact .inr ⟨new, appended.fits.known⟩

/-- What was written is given up, and the buffer is kept. -/
theorem transfer_both (c : Nat) : Transfer bufSize mem mem (both buf c) [buf] :=
  transfer_of_subperm (List.singleton_subperm_iff.mpr (mem_both buf c))

end Buffers

/-! ## Steps of the reader and the workers -/

section Steps

variable {mem mem' : Memory UInt8} {stage : Stage} {troubled cancelled : Bool}
  {happens : Happening Peer} {entries : List (Datagram Peer)}

/-- **The reader takes in the datagram it reads, and nothing else changes.** -/
theorem ReaderStep.holds {r r' : Reader Peer} {held : List Nat}
    (exclusive : Exclusive bufSize mem held)
    (step : ReaderStep stage troubled cancelled mem r happens mem' r')
    (holds : r.Holds mem.heap entries) :
    Transfer bufSize mem mem' r.owned r'.owned ∧
      r'.Holds mem'.heap (entries ++ happens.incoming) ∧ happens.outgoing = [] := by
  cases step with
  | get got =>
      cases holds
      have sized : Sized mem'.heap _ := ⟨known_get got exclusive, length_get got exclusive⟩
      exact ⟨transfer_get got, ⟨sized, rfl⟩, rfl⟩
  | read buf data addr socket =>
      obtain ⟨sized, rfl⟩ := holds
      have short : (data.take bufSize).length ≤ bufSize := List.length_take_le _ _
      have inside : 0 + (data.take bufSize).length ≤ (mem.heap.array buf).length := by
        rw [sized.2, Nat.zero_add]
        exact short
      have keeps := keeps_write sized.1 inside
      refine ⟨transfer_keeps keeps, ⟨sized.keeps keeps, data, rfl, ?_⟩, rfl⟩
      have written :=
        @drop_take_overwrite _ (mem.heap.array buf) (data.take bufSize) 0 (Nat.zero_le _)
      simp only [Heap.read, bufferSlice, array_write_self sized.1]
      exact written
  | fail buf cause =>
      obtain ⟨sized, rfl⟩ := holds
      exact ⟨transfer_of_subperm (.refl _), ⟨sized, rfl⟩, rfl⟩
  | put buf closed =>
      obtain ⟨sized, rfl⟩ := holds
      split
      · exact ⟨transfer_put sized.2, rfl, rfl⟩
      · exact ⟨transfer_put sized.2, rfl, rfl⟩

/-- A worker that had some arrays goes on, and accounts for its datagram or has settled it. -/
def Worked (mem mem' : Memory UInt8) (own : List Nat) (entries : List (Datagram Peer))
    (happens : Happening Peer) (w : Worker Peer) : Prop :=
  Transfer bufSize mem mem' own w.owned ∧ ∃ entries' outs,
    (w.Holds mem'.heap entries' ∧ entries = entries' ++ outs) ∧ Gives happens outs

section Worked

variable {own : List Nat} {w : Worker Peer}

theorem worked_holding (moved : Transfer bufSize mem mem' own w.owned)
    (holds : w.Holds mem'.heap entries) (quiet : happens.outgoing = []) :
    Worked mem mem' own entries happens w :=
  ⟨moved, entries, [], ⟨holds, (List.append_nil _).symm⟩, gives_nil quiet⟩

/-- The datagram is settled, and the buffer goes back. -/
theorem worked_settled {buf : Nat} {data : Bytes} {addr : Peer} (fate : Fate)
    (moved : Transfer bufSize mem mem' own [buf]) (sized : Sized mem'.heap buf)
    (right : fate.Right data) (seen : fate.seen addr = happens.outgoing) :
    Worked mem mem' own [(data, addr)] happens (.putting buf) :=
  ⟨moved, [], [(data, addr)], ⟨⟨sized, rfl⟩, rfl⟩, gives_one fate right seen⟩

end Worked

theorem worked_parseJob {job : Job Peer} (sized : Sized mem.heap job.buf)
    (holds : job.Holds mem.heap entries) :
    Worked mem { mem with heap := (parseJob mem.heap job).1 } [job.buf] entries .internal
      (parseJob mem.heap job).2 := by
  obtain ⟨data, rfl, read⟩ := holds
  unfold parseJob
  rw [read]
  dsimp only
  cases parsed : parseMessage (data.take bufSize) with
  | error e =>
      have outcome := outcomeUDP_of_error parsed
      dsimp only
      split
      · rename_i query
        rw [if_pos query] at outcome
        refine worked_holding (transfer_alloc sized _) ⟨sized.alloc _, data, rfl, ?_⟩ rfl
        rw [read_alloc]
        exact outcome
      · rename_i other
        rw [if_neg other] at outcome
        exact worked_settled .ignored (transfer_of_subperm (.refl _)) sized outcome rfl
  | ok req =>
      dsimp only
      split
      · rename_i response
        have outcome := outcomeUDP_of_response parsed response
        exact worked_settled .ignored (transfer_of_subperm (.refl _)) sized outcome rfl
      · rename_i query
        have asks : Asks (data.take bufSize) req := ⟨parsed, query⟩
        exact worked_holding (transfer_of_subperm (.refl _)) ⟨sized, data, rfl, asks⟩ rfl

theorem worked_packJob (room : Nat → Nat) {job : Job Peer} {resp : Message}
    (sized : Sized mem.heap job.buf)
    (made : job.Made entries fun data => ∃ req, Asks data req ∧ Handles req resp) :
    Worked mem { mem with heap := (packJob room mem.heap job resp).1 } [job.buf] entries .internal
      (packJob room mem.heap job resp).2 := by
  obtain ⟨data, rfl, req, asks, handled⟩ := made
  have outcome := outcomeUDP_handled asks handled
  have wrote := @writes_packUDPIn room mem.heap (bufferSlice job.buf 0) sized.fits resp
  unfold packJob
  generalize packUDPIn room mem.heap (bufferSlice job.buf 0) resp = written at wrote ⊢
  generalize resp.packUDP = packed at wrote outcome
  cases wrote with
  | @ok out heap s appended =>
      have moved := transfer_appended (List.mem_singleton_self job.buf) appended
      refine worked_holding moved ⟨sized.keeps appended.keeps, data, rfl, ?_⟩ rfl
      rw [appended.reads]
      exact outcome
  | @error e out heap s appended =>
      have moved := transfer_keeps appended.keeps
      exact worked_settled .ignored moved (sized.keeps appended.keeps) outcome rfl

/-- **A worker settles a datagram as `serveUDP` may, once**, when it writes the reply or has
none. -/
theorem WorkerStep.worked {w w' : Worker Peer}
    (step : WorkerStep stage troubled mem w happens mem' w') (holds : w.Holds mem.heap entries) :
    Worked mem mem' w.owned entries happens w' := by
  cases step with
  | parse job => exact worked_parseJob holds.1 holds.2
  | handle job handled =>
      obtain ⟨sized, data, rfl, asks⟩ := holds
      have made := And.intro asks handled
      exact worked_holding (transfer_of_subperm (.refl _)) ⟨sized, data, rfl, _, made⟩ rfl
  | pack room job resp => exact worked_packJob room holds.1 holds.2
  | write job out socket =>
      obtain ⟨sized, data, rfl, outcome⟩ := holds
      exact worked_settled (.replied (mem.heap.read out)) (transfer_both _) sized outcome rfl
  | writeFails job out cause =>
      obtain ⟨sized, data, rfl, outcome⟩ := holds
      exact worked_settled (.unsent (mem.heap.read out)) (transfer_both _) sized outcome rfl
  | put buf =>
      obtain ⟨sized, rfl⟩ := holds
      exact worked_holding (transfer_put sized.2) rfl rfl

/-- Only the reader takes datagrams in. -/
theorem WorkerStep.incoming {w w' : Worker Peer}
    (step : WorkerStep stage troubled mem w happens mem' w') : happens.incoming = [] := by
  cases step <;> rfl

end Steps

/-! ## Steps of a connection -/

/-- A connection that had some arrays goes on, and knows what it has said and is about to. -/
structure Talked (mem mem' : Memory UInt8) (own : List Nat) (taken sent : Bytes) (t : Talk) :
    Prop where
  moved : Transfer bufSize mem mem' own t.owned
  holds : t.Holds mem'.heap taken sent

section Connections

variable {mem mem' : Memory UInt8} {buf : Nat} {taken sent data : Bytes}

/-- The connection ends without another response. -/
theorem talked_silent {part : Bytes} {own : List Nat} (moved : Transfer bufSize mem mem' own [buf])
    (sized : Sized mem'.heap buf) (between : Between taken sent part []) :
    Talked mem mem' own taken sent (.putting buf) :=
  ⟨moved, sized, .silent between⟩

theorem talked_parseTalk (sized : Sized mem.heap buf) (heard : Heard taken sent data) :
    Talked mem { mem with heap := (parseTalk mem.heap buf data).1 } [buf] taken sent
      (parseTalk mem.heap buf data).2 := by
  unfold parseTalk
  cases parsed : parseMessage data with
  | error e =>
      dsimp only
      split
      · rename_i query
        have behind : mem.heap.length = buf → 2 ≤ 0 := fun here =>
          absurd (Nat.lt_of_lt_of_eq sized.1 here) (Nat.lt_irrefl _)
        refine ⟨transfer_alloc sized _, sized.alloc _, ⟨fits_alloc _ _, behind⟩, data, heard, ?_⟩
        rw [read_alloc]
        exact outcomeTCP_of_error heard.framed.1 parsed query
      · exact talked_silent (transfer_of_subperm (.refl _)) sized heard.between
  | ok req =>
      dsimp only
      split
      · exact talked_silent (transfer_of_subperm (.refl _)) sized heard.between
      · rename_i query
        exact ⟨transfer_of_subperm (.refl _), sized, data, heard, parsed, query⟩

theorem talked_packTalk (room : Nat → Nat) {req resp : Message} (sized : Sized mem.heap buf)
    (heard : Heard taken sent data) (asks : Asks data req) (handled : Handles req resp) :
    Talked mem { mem with heap := (packTalk room mem.heap buf resp).1 } [buf] taken sent
      (packTalk room mem.heap buf resp).2 := by
  have outcome := outcomeTCP_handled heard.framed.1 asks handled
  have wrote :=
    @writes_packIn room mem.heap ((bufferSlice buf 0).emptyFrom 2) sized.fits_emptyFrom resp
  unfold packTalk
  generalize packIn room mem.heap ((bufferSlice buf 0).emptyFrom 2) resp = written at wrote ⊢
  generalize resp.pack = packed at wrote outcome
  cases wrote with
  | error appended =>
      exact talked_silent (transfer_keeps appended.keeps) (sized.keeps appended.keeps) heard.between
  | @ok out heap s appended =>
      have sized' := sized.keeps appended.keeps
      have size : s.length = out.length := appended.length.trans (Nat.zero_add _)
      have reads : heap.read s = out := appended.reads
      dsimp only at outcome ⊢
      rw [size]
      split
      · exact talked_silent (transfer_keeps appended.keeps) sized' heard.between
      · rename_i short
        rw [if_neg short, ← reads] at outcome
        have behind : s.array = buf → 2 ≤ s.start := by
          intro here
          rcases appended.place with ⟨-, start, -⟩ | new
          · exact Nat.le_of_eq start.symm
          · exact absurd sized.1 (Nat.not_lt.mpr (here ▸ new))
        have moved := transfer_appended (List.mem_singleton_self buf) appended
        exact ⟨moved, sized', ⟨appended.fits, behind⟩, data, heard, outcome⟩

theorem talked_frameTalk (room : Nat → Nat) {msg : Slice} (sized : Sized mem.heap buf)
    (fits : mem.heap.Fits msg) (behind : msg.array = buf → 2 ≤ msg.start)
    (heard : Heard taken sent data) (outcome : OutcomeTCP data (some (mem.heap.read msg))) :
    Talked mem { mem with heap := (frameTalk room mem.heap buf msg).1 } (both buf msg.array) taken
      sent (frameTalk room mem.heap buf msg).2 := by
  have appended := @appended_frameIn room mem.heap (bufferSlice buf 0) msg sized.fits fits
    fun here => (Nat.zero_add 2).trans_le (behind here)
  have moved := transfer_appended (mem_both buf msg.array) appended
  refine ⟨moved, sized.keeps appended.keeps, data, heard, mem.heap.read msg, outcome, ?_⟩
  rw [frame, length_read fits]
  exact appended.reads

/-- **What a connection writes is the frame of a response to the message it read.** -/
theorem ConnStep.talked {c c' : Conn} {held : List Nat} (exclusive : Exclusive bufSize mem held)
    (step : ConnStep mem c mem' c') (holds : c.talk.Holds mem.heap c.taken c.sent) :
    Talked mem mem' c.talk.owned c'.taken c'.sent c'.talk := by
  cases step with
  | get here got =>
      rw [here] at holds ⊢
      have sized : Sized mem'.heap _ := ⟨known_get got exclusive, length_get got exclusive⟩
      exact ⟨transfer_get got, sized, holds⟩
  | @readHeader _ buf here socket whole =>
      rw [here] at holds ⊢
      obtain ⟨sized, between⟩ := holds
      have more := between.read (c.unread.take 2)
      dsimp only
      split
      · exact talked_silent (transfer_of_subperm (.refl _)) sized more
      · rename_i long
        have size := And.intro (Nat.not_lt.mp long) (frameLength_lt c.unread)
        refine ⟨transfer_of_subperm (.refl _), sized, size, ?_⟩
        rw [List.nil_append] at more
        rw [putUint16_frameLength whole]
        exact more
  | @readBody _ buf n here socket whole =>
      rw [here] at holds ⊢
      obtain ⟨sized, ⟨long, short⟩, between⟩ := holds
      have size : (c.unread.take n).length = n := List.length_take_of_le whole
      have more := between.read (c.unread.take n)
      refine ⟨transfer_of_subperm (.refl _), sized, ⟨?_, ?_⟩, ?_⟩
      · exact long.trans_eq size.symm
      · exact size.trans_le short
      · rw [DNS.frame, size]
        exact more
  | headerFails here cause =>
      rw [here] at holds ⊢
      exact talked_silent (transfer_of_subperm (.refl _)) holds.1 holds.2
  | bodyFails here cause =>
      rw [here] at holds ⊢
      exact talked_silent (transfer_of_subperm (.refl _)) holds.1 holds.2.2
  | parse here =>
      rw [here] at holds ⊢
      exact talked_parseTalk holds.1 holds.2
  | handle here handled =>
      rw [here] at holds ⊢
      obtain ⟨sized, data, heard, asks⟩ := holds
      exact ⟨transfer_of_subperm (.refl _), sized, data, heard, _, asks, handled⟩
  | pack room here =>
      rw [here] at holds ⊢
      obtain ⟨sized, data, heard, req, asks, handled⟩ := holds
      exact talked_packTalk room sized heard asks handled
  | frame room here =>
      rw [here] at holds ⊢
      obtain ⟨sized, ⟨fits, behind⟩, data, heard, outcome⟩ := holds
      exact talked_frameTalk room sized fits behind heard outcome
  | write here socket =>
      rw [here] at holds ⊢
      obtain ⟨sized, data, heard, out, outcome, reads⟩ := holds
      refine ⟨transfer_both _, sized, ?_⟩
      rw [reads]
      exact (heard.between.write (DNS.frame out)).complete heard.framed outcome
  | writeFails here cause n =>
      rw [here] at holds ⊢
      obtain ⟨sized, data, heard, out, outcome, reads⟩ := holds
      have written := heard.between.write ((DNS.frame out).take n)
      refine ⟨transfer_both _, sized, ?_⟩
      rw [reads]
      exact .broken written heard.framed outcome (List.take_prefix n _)
  | put here =>
      rw [here] at holds ⊢
      exact ⟨transfer_put holds.1.2, holds.2⟩
  | close here =>
      rw [here] at holds ⊢
      exact ⟨transfer_of_subperm (.refl _), holds⟩

end Connections

end ShardDNS.DNS

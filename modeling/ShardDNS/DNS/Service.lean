import ShardDNS.DNS.Buffers
import ShardDNS.DNS.Streams
import ShardDNS.Library.Ownership

/-!
# The server and its goroutines

`Serve` runs a reader of datagrams, workers that serve them from a queue, an acceptor and one
goroutine for each connection, all of which take their buffers from one pool and put them back.
When its context is done it closes the sockets, waits for the reader and the acceptor, closes
the queue, and waits for the workers and the connections.

A state says where each goroutine stands, what the queue, the pool and the buffers hold, and
how far `Serve` is. A step is one of one goroutine, up to its next use of what it shares with
others, or one of the world around: a datagram or some octets arrive, a peer hangs up, a deadline
passes, the network is in trouble, the context is done, the pool forgets a buffer. Nothing fails
without a cause: a read or a write does so on a socket that is closed, or for what the world has
done to it before. Which goroutine is next is open, and so is what the resolver answers, but it
does answer.
-/

set_option autoImplicit false

namespace ShardDNS.DNS

open Go Store Program Slices

/-! ## The goroutines -/

def bufSize : Nat := 4096

def maxTCPConns : Nat := 4096

/-- The first octets of a buffer. -/
def bufferSlice (buf n : Nat) : Slice :=
  { array := buf, start := 0, length := n, capacity := bufSize }

/-- A datagram in a buffer, and where it came from. -/
structure Job (Peer : Type) where
  buf : Nat
  n : Nat
  addr : Peer

/-- Where `udpReadLoop` stands. -/
inductive Reader (Peer : Type) where
  | getting
  | reading (buf : Nat)
  | sending (job : Job Peer)
  | failed (buf : Nat) (closed : Bool)
  | stopped

/-- Where a worker stands in `serveUDP`, and before and behind it. -/
inductive Worker (Peer : Type) where
  | receiving
  | parsing (job : Job Peer)
  | handling (job : Job Peer) (req : Message)
  | packing (job : Job Peer) (resp : Message)
  | writing (job : Job Peer) (out : Slice)
  | putting (buf : Nat)
  | finished

/-- Where `tcpAcceptLoop` stands. -/
inductive Acceptor where
  | accepting
  | accepted
  | stopped
  deriving DecidableEq

/-- Where `tcpConnLoop` stands, and its deferred calls. -/
inductive Talk where
  | getting
  | header (buf : Nat)
  | body (buf n : Nat)
  | parsing (buf : Nat) (data : Bytes)
  | handling (buf : Nat) (req : Message)
  | packing (buf : Nat) (resp : Message)
  | framing (buf : Nat) (msg : Slice)
  | writing (buf : Nat) (frame : Slice)
  | putting (buf : Nat)
  | closing
  | releasing
  | finished

/-- What the peer of a connection has done to it: it may send no more, or be gone. -/
inductive Line where
  | up
  | ended
  | broken
  deriving DecidableEq

/-- A connection: the octets that were read of it, those that arrived and are still to be read,
and those that were written to it. -/
structure Conn where
  talk : Talk := .getting
  taken : Bytes := []
  unread : Bytes := []
  sent : Bytes := []
  line : Line := .up
  /-- The deadline of the read or write under way has passed. -/
  late : Bool := false
  /-- The server has closed it. -/
  closed : Bool := false

namespace Conn

/-- Why writing fails. -/
def Dead (c : Conn) : Prop := c.closed = true ∨ c.late = true ∨ c.line = .broken

/-- Why reading so many octets fails. -/
def Short (c : Conn) (n : Nat) : Prop := c.Dead ∨ c.line = .ended ∧ c.unread.length < n

end Conn

/-- How far `Serve` is. -/
inductive Stage where
  | serving
  | closingUDP
  | closingTCP
  | waitingReaders
  | waitingWorkers
  | waitingConns
  | returned
  deriving DecidableEq

namespace Stage

/-- The UDP socket is closed. -/
def udpClosed : Stage → Bool
  | .serving | .closingUDP => false
  | _ => true

/-- The listener is closed. -/
def tcpClosed : Stage → Bool
  | .serving | .closingUDP | .closingTCP => false
  | _ => true

/-- The queue is closed. -/
def jobsClosed : Stage → Bool
  | .waitingWorkers | .waitingConns | .returned => true
  | _ => false

end Stage

/-- The state of a server. It crashes when it sends on a closed channel. -/
structure Service (Peer : Type) where
  mem : Slices.Memory UInt8
  reader : Reader Peer
  jobs : List (Job Peer)
  workers : List (Worker Peer)
  acceptor : Acceptor
  slots : Nat
  conns : List Conn
  stage : Stage
  /-- The network makes calls on open sockets fail. -/
  troubled : Bool
  cancelled : Bool
  crashed : Bool

namespace Service

variable {Peer : Type}

/-- A server when `Serve` has started its goroutines. -/
def start (workers : Nat) : Service Peer where
  mem := { heap := [], pool := [] }
  reader := .getting
  jobs := []
  workers := List.replicate (if workers < 1 then 1 else workers) .receiving
  acceptor := .accepting
  slots := 0
  conns := []
  stage := .serving
  troubled := false
  cancelled := false
  crashed := false

/-- The capacity of the queue. -/
def capacity (s : Service Peer) : Nat := s.workers.length * 16

end Service

/-! ## Events -/

/-- What can be seen of a step. -/
inductive Happening (Peer : Type) where
  | received (data : Bytes) (addr : Peer)
  | dropped
  | replied (data : Bytes) (addr : Peer)
  | unsent
  | arrived (data : Bytes)
  | cancelled
  | forgot
  | suffered
  | internal

variable {Peer : Type}

/-! ## The reader -/

/-- The steps of `udpReadLoop` but for those on the queue. -/
inductive ReaderStep (stage : Stage) (troubled cancelled : Bool) (mem : Memory UInt8) :
    Reader Peer → Happening Peer → Memory UInt8 → Reader Peer → Prop where
  | get {buf : Nat} {mem' : Memory UInt8} (got : mem.Get bufSize buf mem') :
      ReaderStep stage troubled cancelled mem .getting .internal mem' (.reading buf)
  /-- A datagram is read, as far as the buffer goes. -/
  | read (buf : Nat) (data : Bytes) (addr : Peer) (socket : stage.udpClosed = false) :
      ReaderStep stage troubled cancelled mem (.reading buf) (.received data addr)
        { mem with heap := mem.heap.write buf 0 (data.take bufSize) }
        (.sending { buf := buf, n := (data.take bufSize).length, addr := addr })
  /-- Reading fails; once the socket is closed, it can only fail, and for that. -/
  | fail (buf : Nat) (cause : stage.udpClosed = true ∨ troubled = true) :
      ReaderStep stage troubled cancelled mem (.reading buf) .internal mem
        (.failed buf stage.udpClosed)
  | put (buf : Nat) (closed : Bool) :
      ReaderStep stage troubled cancelled mem (.failed buf closed) .internal (mem.put buf)
        (if closed = true ∨ cancelled = true then .stopped else .getting)

/-! ## Workers -/

/-- `serveUDP` up to the call of the handler. -/
def parseJob (heap : Heap UInt8) (job : Job Peer) : Heap UInt8 × Worker Peer :=
  let data := heap.read (bufferSlice job.buf job.n)
  match parseMessage data with
  | .error _ =>
      if 12 ≤ data.length ∧ (data[2]?).getD 0 &&& 0x80 = 0 then
        let (heap, out) := heap.alloc (formErr data) 0
        (heap, .writing job out)
      else (heap, .putting job.buf)
  | .ok req =>
      if req.flags &&& flagQR ≠ 0 then (heap, .putting job.buf) else (heap, .handling job req)

/-- The packing of `serveUDP`. -/
def packJob (room : Nat → Nat) (heap : Heap UInt8) (job : Job Peer) (resp : Message) :
    Heap UInt8 × Worker Peer :=
  match packUDPIn room heap (bufferSlice job.buf 0) resp with
  | (heap, .ok out) => (heap, .writing job out)
  | (heap, .error _) => (heap, .putting job.buf)

/-- The steps of `serveUDP`. -/
inductive WorkerStep (stage : Stage) (troubled : Bool) (mem : Memory UInt8) :
    Worker Peer → Happening Peer → Memory UInt8 → Worker Peer → Prop where
  | parse (job : Job Peer) :
      WorkerStep stage troubled mem (.parsing job) .internal
        { mem with heap := (parseJob mem.heap job).1 } (parseJob mem.heap job).2
  | handle (job : Job Peer) {req resp : Message} (handled : Handles req resp) :
      WorkerStep stage troubled mem (.handling job req) .internal mem (.packing job resp)
  | pack (room : Nat → Nat) (job : Job Peer) (resp : Message) :
      WorkerStep stage troubled mem (.packing job resp) .internal
        { mem with heap := (packJob room mem.heap job resp).1 } (packJob room mem.heap job resp).2
  | write (job : Job Peer) (out : Slice) (socket : stage.udpClosed = false) :
      WorkerStep stage troubled mem (.writing job out) (.replied (mem.heap.read out) job.addr) mem
        (.putting job.buf)
  | writeFails (job : Job Peer) (out : Slice) (cause : stage.udpClosed = true ∨ troubled = true) :
      WorkerStep stage troubled mem (.writing job out) .unsent mem (.putting job.buf)
  | put (buf : Nat) :
      WorkerStep stage troubled mem (.putting buf) .internal (mem.put buf) .receiving

/-! ## Connections -/

/-- A message of a connection up to the call of the handler. -/
def parseTalk (heap : Heap UInt8) (buf : Nat) (data : Bytes) : Heap UInt8 × Talk :=
  match parseMessage data with
  | .error _ =>
      if (data[2]?).getD 0 &&& 0x80 = 0 then
        let (heap, msg) := heap.alloc (formErr data) 0
        (heap, .framing buf msg)
      else (heap, .putting buf)
  | .ok req =>
      if req.flags &&& flagQR ≠ 0 then (heap, .putting buf) else (heap, .handling buf req)

/-- The packing of a response, from the third octet of the buffer on. -/
def packTalk (room : Nat → Nat) (heap : Heap UInt8) (buf : Nat) (resp : Message) :
    Heap UInt8 × Talk :=
  match packIn room heap ((bufferSlice buf 0).emptyFrom 2) resp with
  | (heap, .ok out) => (heap, if 65535 < out.length then .putting buf else .framing buf out)
  | (heap, .error _) => (heap, .putting buf)

/-- The frame of `writeTCP`. -/
def frameTalk (room : Nat → Nat) (heap : Heap UInt8) (buf : Nat) (msg : Slice) :
    Heap UInt8 × Talk :=
  let (heap, frame) := frameIn room heap (bufferSlice buf 0) msg
  (heap, .writing buf frame)

/-- The steps of `tcpConnLoop` and its deferred calls but for the release of the slot. A deadline
is set before a header is read and before a frame is written. -/
inductive ConnStep (mem : Memory UInt8) : Conn → Memory UInt8 → Conn → Prop where
  | get {c : Conn} {buf : Nat} {mem' : Memory UInt8} (here : c.talk = .getting)
      (got : mem.Get bufSize buf mem') :
      ConnStep mem c mem' { c with talk := .header buf, late := false }
  | readHeader {c : Conn} {buf : Nat} (here : c.talk = .header buf) (socket : c.closed = false)
      (whole : 2 ≤ c.unread.length) :
      ConnStep mem c mem
        { c with
          talk :=
            if frameLength c.unread < 12 then .putting buf else .body buf (frameLength c.unread)
          taken := c.taken ++ c.unread.take 2
          unread := c.unread.drop 2 }
  | readBody {c : Conn} {buf n : Nat} (here : c.talk = .body buf n) (socket : c.closed = false)
      (whole : n ≤ c.unread.length) :
      ConnStep mem c mem
        { c with
          talk := .parsing buf (c.unread.take n)
          taken := c.taken ++ c.unread.take n
          unread := c.unread.drop n }
  | headerFails {c : Conn} {buf : Nat} (here : c.talk = .header buf) (cause : c.Short 2) :
      ConnStep mem c mem { c with talk := .putting buf }
  | bodyFails {c : Conn} {buf n : Nat} (here : c.talk = .body buf n) (cause : c.Short n) :
      ConnStep mem c mem { c with talk := .putting buf }
  | parse {c : Conn} {buf : Nat} {data : Bytes} (here : c.talk = .parsing buf data) :
      ConnStep mem c { mem with heap := (parseTalk mem.heap buf data).1 }
        { c with talk := (parseTalk mem.heap buf data).2 }
  | handle {c : Conn} {buf : Nat} {req resp : Message} (here : c.talk = .handling buf req)
      (handled : Handles req resp) : ConnStep mem c mem { c with talk := .packing buf resp }
  | pack (room : Nat → Nat) {c : Conn} {buf : Nat} {resp : Message}
      (here : c.talk = .packing buf resp) :
      ConnStep mem c { mem with heap := (packTalk room mem.heap buf resp).1 }
        { c with talk := (packTalk room mem.heap buf resp).2 }
  | frame (room : Nat → Nat) {c : Conn} {buf : Nat} {msg : Slice}
      (here : c.talk = .framing buf msg) :
      ConnStep mem c { mem with heap := (frameTalk room mem.heap buf msg).1 }
        { c with talk := (frameTalk room mem.heap buf msg).2, late := false }
  | write {c : Conn} {buf : Nat} {frame : Slice} (here : c.talk = .writing buf frame)
      (socket : c.closed = false) :
      ConnStep mem c mem
        { c with talk := .header buf, sent := c.sent ++ mem.heap.read frame, late := false }
  /-- Writing fails, after some of the frame was written. -/
  | writeFails {c : Conn} {buf : Nat} {frame : Slice} (here : c.talk = .writing buf frame)
      (cause : c.Dead) (n : Nat) :
      ConnStep mem c mem
        { c with talk := .putting buf, sent := c.sent ++ (mem.heap.read frame).take n }
  | put {c : Conn} {buf : Nat} (here : c.talk = .putting buf) :
      ConnStep mem c (mem.put buf) { c with talk := .closing }
  | close {c : Conn} (here : c.talk = .closing) :
      ConnStep mem c mem { c with talk := .releasing, closed := true }

/-- What the world does to a connection. -/
inductive Suffers : Conn → Conn → Prop where
  | hangUp {c : Conn} (up : c.line = .up) : Suffers c { c with line := .ended }
  | reset {c : Conn} : Suffers c { c with line := .broken }
  | expire {c : Conn} : Suffers c { c with late := true }

theorem Suffers.eq {c c' : Conn} (suffers : Suffers c c') :
    ∃ line late, c' = { c with line := line, late := late } := by
  cases suffers <;> exact ⟨_, _, rfl⟩

/-- The function of `AfterFunc` is registered, and not stopped yet. -/
def Conn.watched (c : Conn) : Bool :=
  match c.talk with
  | .getting | .releasing | .finished => false
  | _ => true

/-! ## The server -/

/-- A step of the server or of the world around it. -/
inductive Step (s : Service Peer) : Happening Peer → Service Peer → Prop where
  | reader {happens : Happening Peer} {mem : Memory UInt8} {reader : Reader Peer}
      (step : ReaderStep s.stage s.troubled s.cancelled s.mem s.reader happens mem reader) :
      Step s happens { s with mem := mem, reader := reader }
  | send {job : Job Peer} (ready : s.reader = .sending job) (closed : s.stage.jobsClosed = false)
      (space : s.jobs.length < s.capacity) :
      Step s .internal { s with reader := .getting, jobs := s.jobs ++ [job] }
  | drop {job : Job Peer} (ready : s.reader = .sending job) (closed : s.stage.jobsClosed = false)
      (full : ¬ s.jobs.length < s.capacity) :
      Step s .dropped { s with reader := .getting, mem := s.mem.put job.buf }
  | crash {job : Job Peer} (ready : s.reader = .sending job) (closed : s.stage.jobsClosed = true) :
      Step s .internal { s with crashed := true }
  | receive {before after : List (Worker Peer)} {job : Job Peer} {jobs : List (Job Peer)}
      (waiting : s.workers = before ++ .receiving :: after) (first : s.jobs = job :: jobs) :
      Step s .internal { s with workers := before ++ .parsing job :: after, jobs := jobs }
  | finish {before after : List (Worker Peer)} (waiting : s.workers = before ++ .receiving :: after)
      (empty : s.jobs = []) (closed : s.stage.jobsClosed = true) :
      Step s .internal { s with workers := before ++ .finished :: after }
  | worker {before after : List (Worker Peer)} {w w' : Worker Peer} {happens : Happening Peer}
      {mem : Memory UInt8} (here : s.workers = before ++ w :: after)
      (step : WorkerStep s.stage s.troubled s.mem w happens mem w') :
      Step s happens { s with mem := mem, workers := before ++ w' :: after }
  | accept (ready : s.acceptor = .accepting) (socket : s.stage.tcpClosed = false) :
      Step s .internal { s with acceptor := .accepted }
  /-- Accepting fails, once the listener is closed for good. -/
  | acceptFails (ready : s.acceptor = .accepting)
      (cause : s.stage.tcpClosed = true ∨ s.troubled = true) :
      Step s .internal
        { s with
          acceptor :=
            if s.stage.tcpClosed = true ∨ s.cancelled = true then .stopped else .accepting }
  | enter (ready : s.acceptor = .accepted) (space : s.slots < maxTCPConns) :
      Step s .internal
        { s with acceptor := .accepting, slots := s.slots + 1, conns := s.conns ++ [{}] }
  | refuse (ready : s.acceptor = .accepted) (full : ¬ s.slots < maxTCPConns) :
      Step s .internal { s with acceptor := .accepting }
  | conn {before after : List Conn} {c c' : Conn} {mem : Memory UInt8}
      (here : s.conns = before ++ c :: after) (step : ConnStep s.mem c mem c') :
      Step s .internal { s with mem := mem, conns := before ++ c' :: after }
  | release {before after : List Conn} {c : Conn} (here : s.conns = before ++ c :: after)
      (last : c.talk = .releasing) (held : 0 < s.slots) :
      Step s .internal
        { s with slots := s.slots - 1, conns := before ++ { c with talk := .finished } :: after }
  /-- The function of `AfterFunc` closes a connection. -/
  | afterFunc {before after : List Conn} {c : Conn} (here : s.conns = before ++ c :: after)
      (done : s.cancelled = true) (watched : c.watched = true) (opened : c.closed = false) :
      Step s .internal { s with conns := before ++ { c with closed := true } :: after }
  | arrive {before after : List Conn} {c : Conn} (here : s.conns = before ++ c :: after)
      (socket : c.closed = false) (up : c.line = .up) (data : Bytes) :
      Step s (.arrived data)
        { s with conns := before ++ { c with unread := c.unread ++ data } :: after }
  | suffer {before after : List Conn} {c c' : Conn} (here : s.conns = before ++ c :: after)
      (suffers : Suffers c c') : Step s .suffered { s with conns := before ++ c' :: after }
  | network (troubled : Bool) : Step s .suffered { s with troubled := troubled }
  | cancel : Step s .cancelled { s with cancelled := true }
  | forget {pool : List Nat} (kept : pool.Sublist s.mem.pool) :
      Step s .forgot { s with mem := { s.mem with pool := pool } }
  | shutDown (ready : s.stage = .serving) (done : s.cancelled = true) :
      Step s .internal { s with stage := .closingUDP }
  | closeUDP (ready : s.stage = .closingUDP) : Step s .internal { s with stage := .closingTCP }
  | closeTCP (ready : s.stage = .closingTCP) : Step s .internal { s with stage := .waitingReaders }
  | closeJobs (ready : s.stage = .waitingReaders) (reader : s.reader = .stopped)
      (acceptor : s.acceptor = .stopped) : Step s .internal { s with stage := .waitingWorkers }
  | workersDone (ready : s.stage = .waitingWorkers) (done : ∀ w ∈ s.workers, w = .finished) :
      Step s .internal { s with stage := .waitingConns }
  | connsDone (ready : s.stage = .waitingConns) (done : ∀ c ∈ s.conns, c.talk = .finished) :
      Step s .internal { s with stage := .returned }

/-- What happens in a run, in order, and where it ends. -/
inductive Serves (s : Service Peer) : List (Happening Peer) → Service Peer → Prop where
  | nil : Serves s [] s
  | snoc {happened : List (Happening Peer)} {happens : Happening Peer} {s' s'' : Service Peer}
      (run : Serves s happened s') (step : Step s' happens s'') :
      Serves s (happened ++ [happens]) s''

end ShardDNS.DNS

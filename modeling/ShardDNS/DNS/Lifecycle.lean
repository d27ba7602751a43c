import ShardDNS.DNS.Accounting

/-!
# From start to return

`Serve` closes its sockets and its queue in an order, and waits in between. What that order is
for is an invariant (`Service.Orderly`): nobody sends on the queue once it is closed, a worker
ends only when the queue is closed and empty, a connection has its slot as long as it lives. It
holds along every run (`Serves.orderly`).

So the queue, the slots and the datagrams that wait are bounded (`serves_bounded`), and when
`Serve` returns nothing is left: no goroutine, no buffer in use, no datagram without a fate
(`serves_returned`).

It does return. Once its context is done some goroutine can go on until it has, and needs nothing
of the world: `Serve` closes the sockets that are read or written, and the function of `AfterFunc`
the connections (`Service.Orderly.goes`). Each step from then on leaves fewer to do but for the
octets that arrive (`Step.weight`), and on a closed connection none do: once all are closed, the
steps that are left are a matter of how many goroutines there are (`serves_shutdown_completes`).
-/

set_option autoImplicit false

namespace ShardDNS.DNS

open Go Store Program Slices List

variable {Peer : Type}

namespace Service

/-- A connection that has not given back its slot. -/
def live (c : Conn) : Bool :=
  match c.talk with
  | .finished => false
  | _ => true

theorem live_iff {c : Conn} : live c = true ↔ c.talk ≠ .finished := by
  unfold live
  split
  · rename_i gone
    exact ⟨nofun, fun here => absurd gone here⟩
  · rename_i here
    exact ⟨fun _ => here, fun _ => rfl⟩

/-- What holds in every state: the queue and the slots are within their bounds, and `Serve` waits
for what it has to. -/
structure Orderly (s : Service Peer) : Prop where
  manned : 0 < s.workers.length
  queue : s.jobs.length ≤ s.capacity
  slots : s.slots = s.conns.countP live
  bound : s.slots ≤ maxTCPConns
  cancelled : s.stage ≠ .serving → s.cancelled = true
  readers : s.stage.jobsClosed = true → s.reader = .stopped ∧ s.acceptor = .stopped
  finished : .finished ∈ s.workers → s.stage.jobsClosed = true ∧ s.jobs = []
  workersDone : s.stage = .waitingConns ∨ s.stage = .returned → ∀ w ∈ s.workers, w = .finished
  connsDone : s.stage = .returned → ∀ c ∈ s.conns, c.talk = .finished
  sound : s.crashed = false

theorem orderly_start (n : Nat) : (start n : Service Peer).Orderly where
  manned := by
    simp only [start, length_replicate]
    split <;> omega
  queue := Nat.zero_le _
  slots := rfl
  bound := Nat.zero_le _
  cancelled away := absurd rfl away
  readers := nofun
  finished member := nomatch eq_of_mem_replicate member
  workersDone late := by rcases late with late | late <;> cases late
  connsDone := nofun
  sound := rfl

variable {s : Service Peer}

/-- A worker goes on, with or without a job of the queue. -/
theorem Orderly.worker {before after : List (Worker Peer)} {w w' : Worker Peer}
    {jobs : List (Job Peer)} {mem : Memory UInt8} (orderly : s.Orderly)
    (here : s.workers = before ++ w :: after) (busy : w ≠ .finished)
    (still : w' ≠ .finished) (fewer : jobs <:+ s.jobs) :
    Orderly { s with mem := mem, workers := before ++ w' :: after, jobs := jobs } := by
  have same : (before ++ w' :: after).length = s.workers.length := by
    rw [here, length_append, length_append]
    rfl
  refine
    { orderly with
      manned := ?_, queue := ?_, finished := fun member => ?_, workersDone := fun late => ?_ }
  · exact orderly.manned.trans_eq same.symm
  · exact (fewer.length_le.trans orderly.queue).trans_eq (congrArg (· * 16) same.symm)
  · have old : .finished ∈ s.workers := by
      rw [here]
      simp only [mem_append, mem_cons] at member ⊢
      exact member.imp_right (Or.imp_left fun eq => absurd eq.symm still)
    obtain ⟨closed, empty⟩ := orderly.finished old
    exact ⟨closed, suffix_nil.mp (empty ▸ fewer)⟩
  · refine absurd (orderly.workersDone late w ?_) busy
    rw [here]
    exact mem_append_right _ mem_cons_self

/-- A connection goes on, and keeps its slot. -/
theorem Orderly.conn {before after : List Conn} {c c' : Conn} {mem : Memory UInt8}
    (orderly : s.Orderly) (here : s.conns = before ++ c :: after)
    (same : c'.talk = .finished ↔ c.talk = .finished) :
    Orderly { s with mem := mem, conns := before ++ c' :: after } := by
  have slot : live c' = live c := by
    rw [Bool.eq_iff_iff, live_iff, live_iff]
    exact not_congr same
  refine { orderly with slots := ?_, connsDone := fun late d member => ?_ }
  · rw [orderly.slots, here, countP_append, countP_append, countP_cons, countP_cons, slot]
  · have all := orderly.connsDone late
    rw [here] at all
    rcases mem_append.mp member with inside | inside
    · exact all d (mem_append_left _ inside)
    · rcases mem_cons.mp inside with rfl | inside
      · exact same.mpr (all c (mem_append_right _ mem_cons_self))
      · exact all d (mem_append_right _ (mem_cons_of_mem _ inside))

/-- `Serve` goes on, before it closes the queue. -/
theorem Orderly.proceed {stage : Stage} (orderly : s.Orderly) (done : s.cancelled = true)
    (before : s.stage.jobsClosed = false) (after : stage.jobsClosed = false) :
    Orderly { s with stage := stage } := by
  refine { orderly with
    cancelled := fun _ => done
    readers := fun closed => ?_
    finished := fun member => ?_
    workersDone := fun late => ?_
    connsDone := fun late => ?_ }
  · cases after.symm.trans closed
  · cases before.symm.trans (orderly.finished member).1
  · rcases late with rfl | rfl <;> cases after
  · cases late
    cases after

end Service

variable {s s' : Service Peer} {happens : Happening Peer} {happened : List (Happening Peer)}
  {n : Nat} {stage : Stage} {troubled : Bool} {mem mem' : Memory UInt8} {r r' : Reader Peer}
  {w w' : Worker Peer} {c c' : Conn} {before after : List Conn} {heap : Heap UInt8}
  {ss : List (Party Peer)} {es : List (Datagram Peer)}

theorem WorkerStep.busy (step : WorkerStep stage troubled mem w happens mem' w') :
    w ≠ .finished ∧ w' ≠ .finished := by
  cases step with
  | parse job =>
      refine ⟨nofun, ?_⟩
      unfold parseJob
      dsimp only
      split
      · split <;> exact nofun
      · split <;> exact nofun
  | pack room job resp =>
      refine ⟨nofun, ?_⟩
      unfold packJob
      split <;> exact nofun
  | handle job handled => exact ⟨nofun, nofun⟩
  | write job out socket => exact ⟨nofun, nofun⟩
  | writeFails job out cause => exact ⟨nofun, nofun⟩
  | put buf => exact ⟨nofun, nofun⟩

/-- A connection keeps its slot for all of `tcpConnLoop`. -/
theorem ConnStep.busy (step : ConnStep mem c mem' c') :
    c.talk ≠ .finished ∧ c'.talk ≠ .finished := by
  cases step with
  | get here got => exact ⟨here ▸ nofun, nofun⟩
  | readHeader here socket whole =>
      refine ⟨here ▸ nofun, ?_⟩
      dsimp only
      split <;> exact nofun
  | readBody here socket whole => exact ⟨here ▸ nofun, nofun⟩
  | headerFails here cause => exact ⟨here ▸ nofun, nofun⟩
  | bodyFails here cause => exact ⟨here ▸ nofun, nofun⟩
  | parse here =>
      refine ⟨here ▸ nofun, ?_⟩
      unfold parseTalk
      dsimp only
      split
      · split <;> exact nofun
      · split <;> exact nofun
  | handle here handled => exact ⟨here ▸ nofun, nofun⟩
  | pack room here =>
      refine ⟨here ▸ nofun, ?_⟩
      unfold packTalk
      split
      · dsimp only
        split <;> exact nofun
      · exact nofun
  | frame room here => exact ⟨here ▸ nofun, nofun⟩
  | write here socket => exact ⟨here ▸ nofun, nofun⟩
  | writeFails here cause n => exact ⟨here ▸ nofun, nofun⟩
  | put here => exact ⟨here ▸ nofun, nofun⟩
  | close here => exact ⟨here ▸ nofun, nofun⟩

theorem Step.orderly (step : Step s happens s') (orderly : s.Orderly) : s'.Orderly := by
  cases step with
  | reader step =>
      refine { orderly with readers := fun closed => ?_ }
      obtain ⟨stopped, acceptor⟩ := orderly.readers closed
      rw [stopped] at step
      cases step
  | send ready closed space =>
      refine { orderly with queue := ?_, readers := fun shut => ?_, finished := fun member => ?_ }
      · rw [length_append]
        exact space
      · cases closed.symm.trans shut
      · cases closed.symm.trans (orderly.finished member).1
  | drop ready closed full =>
      refine { orderly with readers := fun shut => ?_ }
      cases closed.symm.trans shut
  | crash ready closed =>
      cases ready.symm.trans (orderly.readers closed).1
  | receive waiting first =>
      exact orderly.worker waiting nofun nofun (first ▸ suffix_cons _ _)
  | @finish before after waiting empty closed =>
      have same : (before ++ .finished :: after).length = s.workers.length := by
        rw [waiting, length_append, length_append]
        rfl
      refine
        { orderly with
          manned := ?_, queue := ?_, finished := fun _ => ⟨closed, empty⟩
          workersDone := fun late => ?_ }
      · exact orderly.manned.trans_eq same.symm
      · rw [empty]
        exact Nat.zero_le _
      · refine absurd (orderly.workersDone late .receiving ?_) nofun
        rw [waiting]
        exact mem_append_right _ mem_cons_self
  | worker here step => exact orderly.worker here step.busy.1 step.busy.2 (suffix_refl _)
  | accept ready socket =>
      refine { orderly with readers := fun closed => ?_ }
      cases ready.symm.trans (orderly.readers closed).2
  | acceptFails ready cause =>
      refine { orderly with readers := fun closed => ?_ }
      cases ready.symm.trans (orderly.readers closed).2
  | enter ready space =>
      refine
        { orderly with
          slots := ?_, bound := space, readers := fun closed => ?_, connsDone := fun late => ?_ }
      · rw [countP_append, ← orderly.slots]
        rfl
      · cases ready.symm.trans (orderly.readers closed).2
      · have closed : s.stage.jobsClosed = true := by rw [show s.stage = .returned from late]; rfl
        cases ready.symm.trans (orderly.readers closed).2
  | refuse ready full =>
      refine { orderly with readers := fun closed => ?_ }
      cases ready.symm.trans (orderly.readers closed).2
  | conn here step => exact orderly.conn here (iff_of_false step.busy.2 step.busy.1)
  | @release before after c here last slot =>
      refine
        { orderly with
          slots := ?_, bound := (Nat.sub_le _ _).trans orderly.bound, connsDone := fun late => ?_ }
      · have count := orderly.slots
        have alive : Service.live c = true := Service.live_iff.mpr (last ▸ nofun)
        rw [here, countP_append, countP_cons, if_pos alive] at count
        rw [countP_append, countP_cons, if_neg nofun]
        show s.slots - 1 = _
        omega
      · have gone := orderly.connsDone late c (by rw [here]; exact mem_append_right _ mem_cons_self)
        cases last.symm.trans gone
  | afterFunc here done watched opened => exact orderly.conn here .rfl
  | arrive here socket up data => exact orderly.conn here .rfl
  | suffer here suffers =>
      obtain ⟨line, late, rfl⟩ := suffers.eq
      exact orderly.conn here .rfl
  | network troubled => exact { orderly with }
  | cancel => exact { orderly with cancelled := fun _ => rfl }
  | forget kept => exact { orderly with }
  | shutDown ready done => exact orderly.proceed done (ready ▸ rfl) rfl
  | closeUDP ready => exact orderly.proceed (orderly.cancelled (ready ▸ nofun)) (ready ▸ rfl) rfl
  | closeTCP ready => exact orderly.proceed (orderly.cancelled (ready ▸ nofun)) (ready ▸ rfl) rfl
  | closeJobs ready reader acceptor =>
      exact { orderly with
        cancelled := fun _ => orderly.cancelled (ready ▸ nofun)
        readers := fun _ => ⟨reader, acceptor⟩
        finished := fun member => absurd (orderly.finished member).1 (ready ▸ nofun)
        workersDone := fun late => by rcases late with late | late <;> cases late
        connsDone := nofun }
  | workersDone ready done =>
      exact { orderly with
        cancelled := fun _ => orderly.cancelled (ready ▸ nofun)
        readers := fun _ => orderly.readers (by rw [ready]; rfl)
        finished := fun member => ⟨rfl, (orderly.finished member).2⟩
        workersDone := fun _ => done
        connsDone := nofun }
  | connsDone ready done =>
      exact { orderly with
        cancelled := fun _ => orderly.cancelled (ready ▸ nofun)
        readers := fun _ => orderly.readers (by rw [ready]; rfl)
        finished := fun member => ⟨rfl, (orderly.finished member).2⟩
        workersDone := fun _ => orderly.workersDone (.inl ready)
        connsDone := fun _ => done }

theorem Serves.orderly (run : Serves s happened s') (orderly : s.Orderly) : s'.Orderly := by
  induction run with
  | nil => exact orderly
  | snoc _ step ih => exact step.orderly ih

theorem Serves.trans {s'' : Service Peer} {first second : List (Happening Peer)}
    (run : Serves s first s') (rest : Serves s' second s'') : Serves s (first ++ second) s'' := by
  induction rest with
  | nil =>
      rw [append_nil]
      exact run
  | snoc _ step ih =>
      rw [← append_assoc]
      exact ih.snoc step

/-! ## Shutting down -/

/-- The steps that a goroutine has still before it once the sockets are closed, if no octets
arrive. -/
def Reader.weight : Reader Peer → Nat
  | .sending _ => 10
  | .getting => 3
  | .reading _ => 2
  | .failed _ _ => 1
  | .stopped => 0

def Worker.weight : Worker Peer → Nat
  | .parsing _ => 6
  | .handling _ _ => 5
  | .packing _ _ => 4
  | .writing _ _ => 3
  | .putting _ => 2
  | .receiving => 1
  | .finished => 0

def Acceptor.weight : Acceptor → Nat
  | .accepted => 8
  | .accepting => 1
  | .stopped => 0

def Talk.weight : Talk → Nat
  | .body _ _ => 10
  | .parsing _ _ => 9
  | .handling _ _ => 8
  | .packing _ _ => 7
  | .framing _ _ => 6
  | .writing _ _ => 5
  | .getting => 5
  | .header _ => 4
  | .putting _ => 3
  | .closing => 2
  | .releasing => 1
  | .finished => 0

/-- Octets that have arrived are read from an open connection only. -/
def Conn.weight (c : Conn) : Nat :=
  c.talk.weight + if c.closed then 0 else 8 * c.unread.length + 1

def Stage.weight : Stage → Nat
  | .serving => 6
  | .closingUDP => 5
  | .closingTCP => 4
  | .waitingReaders => 3
  | .waitingWorkers => 2
  | .waitingConns => 1
  | .returned => 0

def Service.weight (s : Service Peer) : Nat :=
  s.reader.weight + 6 * s.jobs.length + (s.workers.map Worker.weight).sum + s.acceptor.weight +
    (s.conns.map Conn.weight).sum + s.stage.weight

/-- Steps of the server itself. -/
def Happening.work : Happening Peer → Nat
  | .arrived _ | .cancelled | .forgot | .suffered => 0
  | _ => 1

/-- Octets that arrive on connections. -/
def Happening.octets : Happening Peer → Nat
  | .arrived data => data.length
  | _ => 0

theorem weight_reader (step : ReaderStep stage troubled true mem r happens mem' r')
    (closed : stage.udpClosed = true) : r'.weight + happens.work ≤ r.weight := by
  cases step with
  | get got => exact Nat.le_refl _
  | read buf data addr socket => cases closed.symm.trans socket
  | fail buf cause => exact Nat.le_refl _
  | put buf shut =>
      rw [if_pos (.inr rfl)]
      exact Nat.le_refl _

theorem weight_worker (step : WorkerStep stage troubled mem w happens mem' w') :
    w'.weight + happens.work ≤ w.weight := by
  cases step with
  | parse job =>
      unfold parseJob
      dsimp only
      split
      · split <;> simp only [Worker.weight, Happening.work, Nat.reduceAdd, Nat.reduceLeDiff]
      · split <;> simp only [Worker.weight, Happening.work, Nat.reduceAdd, Nat.reduceLeDiff]
  | handle job handled => exact Nat.le_refl _
  | pack room job resp =>
      unfold packJob
      split <;> simp only [Worker.weight, Happening.work, Nat.reduceAdd, Nat.reduceLeDiff]
  | write job out socket => exact Nat.le_refl _
  | writeFails job out cause => exact Nat.le_refl _
  | put buf => exact Nat.le_refl _

theorem parseTalk_weight (heap : Heap UInt8) (buf : Nat) (data : Bytes) :
    (parseTalk heap buf data).2.weight ≤ 8 := by
  unfold parseTalk
  dsimp only
  split
  · split <;> simp only [Talk.weight, Nat.reduceLeDiff]
  · split <;> simp only [Talk.weight, Nat.reduceLeDiff, Nat.le_refl]

theorem packTalk_weight (room : Nat → Nat) (heap : Heap UInt8) (buf : Nat) (resp : Message) :
    (packTalk room heap buf resp).2.weight ≤ 6 := by
  unfold packTalk
  split
  · dsimp only
    split <;> simp only [Talk.weight, Nat.reduceLeDiff, Nat.le_refl]
  · simp only [Talk.weight, Nat.reduceLeDiff]

/-- A connection goes on without reading. -/
theorem weight_talk {t : Talk} (sent : Bytes) (late : Bool)
    (lighter : t.weight + 1 ≤ c.talk.weight) :
    Conn.weight { c with talk := t, sent := sent, late := late } + 1 ≤ c.weight := by
  simp only [Conn.weight]
  omega

/-- A connection reads, and it is open. -/
theorem weight_read {t : Talk} (taken : Bytes) (n : Nat) (socket : c.closed = false)
    (lighter : t.weight + 1 + 8 * (c.unread.drop n).length ≤ c.talk.weight + 8 * c.unread.length) :
    Conn.weight { c with talk := t, taken := taken, unread := c.unread.drop n } + 1 ≤ c.weight := by
  simp only [Conn.weight, socket, Bool.false_eq_true, if_false]
  omega

theorem weight_conn (step : ConnStep mem c mem' c') : c'.weight + 1 ≤ c.weight := by
  cases step with
  | get here got => exact weight_talk c.sent _ (by rw [here]; exact Nat.le_refl _)
  | readHeader here socket whole =>
      refine weight_read _ 2 socket ?_
      rw [here, length_drop]
      split <;> simp only [Talk.weight] <;> omega
  | @readBody _ _ n here socket whole =>
      refine weight_read _ n socket ?_
      rw [here, length_drop]
      simp only [Talk.weight]
      omega
  | headerFails here cause => exact weight_talk c.sent c.late (by rw [here]; exact Nat.le_refl _)
  | bodyFails here cause =>
      refine weight_talk c.sent c.late ?_
      rw [here]
      simp only [Talk.weight, Nat.reduceAdd, Nat.reduceLeDiff]
  | parse here =>
      exact weight_talk c.sent c.late (by rw [here]; exact Nat.succ_le_succ (parseTalk_weight ..))
  | handle here handled => exact weight_talk c.sent c.late (by rw [here]; exact Nat.le_refl _)
  | pack room here =>
      exact weight_talk c.sent c.late (by rw [here]; exact Nat.succ_le_succ (packTalk_weight ..))
  | frame room here => exact weight_talk c.sent _ (by rw [here]; exact Nat.le_refl _)
  | write here socket => exact weight_talk _ _ (by rw [here]; exact Nat.le_refl _)
  | writeFails here cause n =>
      refine weight_talk _ c.late ?_
      rw [here]
      simp only [Talk.weight, Nat.reduceAdd, Nat.reduceLeDiff]
  | put here => exact weight_talk c.sent c.late (by rw [here]; exact Nat.le_refl _)
  | close here =>
      simp only [Conn.weight, here, Talk.weight, if_true]
      omega

theorem sum_map_middle {α : Type} (f : α → Nat) (before after : List α) (a : α) :
    ((before ++ a :: after).map f).sum = f a + ((before ++ after).map f).sum := by
  simp only [map_append, map_cons, sum_append, sum_cons]
  omega

theorem Stage.udpClosed_of_tcpClosed (closed : stage.tcpClosed = true) :
    stage.udpClosed = true := by
  cases stage <;> first | rfl | cases closed

theorem Service.Orderly.cancelled_of_closed (orderly : s.Orderly)
    (closed : s.stage.tcpClosed = true) : s.cancelled = true := by
  refine orderly.cancelled fun serving => ?_
  rw [serving] at closed
  cases closed

/-- **Once the sockets are closed, every step of the server is one less to do.** -/
theorem Step.weight (step : Step s happens s') (orderly : s.Orderly)
    (closed : s.stage.tcpClosed = true) :
    s'.weight + happens.work ≤ s.weight + 8 * happens.octets ∧ s'.stage.tcpClosed = true := by
  have udp := Stage.udpClosed_of_tcpClosed closed
  have cancelled := orderly.cancelled_of_closed closed
  cases step with
  | reader step =>
      rw [cancelled] at step
      have lighter := weight_reader step udp
      refine ⟨?_, closed⟩
      simp only [Service.weight]
      omega
  | send ready shut space =>
      refine ⟨?_, closed⟩
      simp only [Service.weight, ready, length_append, Reader.weight, Happening.work,
        Happening.octets, length_singleton]
      omega
  | drop ready shut full =>
      refine ⟨?_, closed⟩
      simp only [Service.weight, ready, Reader.weight, Happening.work, Happening.octets]
      omega
  | crash ready shut => cases ready.symm.trans (orderly.readers shut).1
  | receive waiting first =>
      refine ⟨?_, closed⟩
      simp only [Service.weight, waiting, first, sum_map_middle, Worker.weight, Happening.work,
        Happening.octets, length_cons]
      omega
  | finish waiting empty shut =>
      refine ⟨?_, closed⟩
      simp only [Service.weight, waiting, sum_map_middle, Worker.weight, Happening.work,
        Happening.octets]
      omega
  | worker here step =>
      have lighter := weight_worker step
      refine ⟨?_, closed⟩
      simp only [Service.weight, here, sum_map_middle]
      omega
  | accept ready socket => cases closed.symm.trans socket
  | acceptFails ready cause =>
      refine ⟨?_, closed⟩
      simp only [Service.weight, ready, if_pos (Or.inl closed), Acceptor.weight, Happening.work,
        Happening.octets]
      omega
  | enter ready space =>
      have fresh : Conn.weight {} = 6 := rfl
      refine ⟨?_, closed⟩
      simp only [Service.weight, ready, sum_map_middle, Acceptor.weight, Happening.work,
        Happening.octets, append_nil, fresh]
      omega
  | refuse ready full =>
      refine ⟨?_, closed⟩
      simp only [Service.weight, ready, Acceptor.weight, Happening.work, Happening.octets]
      omega
  | conn here step =>
      have lighter := weight_conn step
      refine ⟨?_, closed⟩
      simp only [Service.weight, here, sum_map_middle, Happening.work, Happening.octets]
      omega
  | release here last slot =>
      refine ⟨?_, closed⟩
      simp only [Service.weight, here, sum_map_middle, Conn.weight, last, Talk.weight,
        Happening.work, Happening.octets]
      omega
  | afterFunc here done watched opened =>
      refine ⟨?_, closed⟩
      simp only [Service.weight, here, sum_map_middle, Conn.weight, opened, Happening.work,
        Happening.octets, if_true, Bool.false_eq_true, if_false]
      omega
  | arrive here socket up data =>
      refine ⟨?_, closed⟩
      simp only [Service.weight, here, sum_map_middle, Conn.weight, socket, Happening.work,
        Happening.octets, length_append, Bool.false_eq_true, if_false]
      omega
  | suffer here suffers =>
      obtain ⟨line, late, rfl⟩ := suffers.eq
      refine ⟨?_, closed⟩
      simp only [Service.weight, here, sum_map_middle, Conn.weight, Happening.work,
        Happening.octets]
      omega
  | network troubled => exact ⟨Nat.le_refl _, closed⟩
  | cancel => exact ⟨Nat.le_refl _, closed⟩
  | forget kept => exact ⟨Nat.le_refl _, closed⟩
  | shutDown ready done => rw [ready] at closed; cases closed
  | closeUDP ready => rw [ready] at closed; cases closed
  | closeTCP ready => rw [ready] at closed; cases closed
  | closeJobs ready reader acceptor =>
      refine ⟨?_, rfl⟩
      simp only [Service.weight, ready, Stage.weight, Happening.work, Happening.octets]
      omega
  | workersDone ready done =>
      refine ⟨?_, rfl⟩
      simp only [Service.weight, ready, Stage.weight, Happening.work, Happening.octets]
      omega
  | connsDone ready done =>
      refine ⟨?_, rfl⟩
      simp only [Service.weight, ready, Stage.weight, Happening.work, Happening.octets]
      omega

/-! ## Nothing waits for ever -/

/-- The server can take a step by itself. -/
def Service.Goes (s : Service Peer) : Prop := ∃ happens s', Step s happens s' ∧ happens.work = 1

theorem handles_exists (req : Message) : ∃ resp, Handles req resp := by
  obtain ⟨trace, run⟩ := @runs_answer _ _ _ (Calls.service idleHandler)
    (Calls.handle idleHandler req)
  exact ⟨_, idleHandler, trace, run⟩

/-- The reader stops once its socket is closed. -/
theorem goes_reader (orderly : s.Orderly) (socket : s.stage.udpClosed = true)
    (running : s.reader ≠ .stopped) : s.Goes := by
  have lift : ∀ {happens mem reader},
      ReaderStep s.stage s.troubled s.cancelled s.mem s.reader happens mem reader →
      happens.work = 1 → s.Goes := fun step own => ⟨_, _, .reader step, own⟩
  cases here : s.reader with
  | getting =>
      rw [here] at lift
      exact lift (.get .fresh) rfl
  | reading buf =>
      rw [here] at lift
      exact lift (.fail buf (.inl socket)) rfl
  | failed buf closed =>
      rw [here] at lift
      exact lift (.put buf closed) rfl
  | stopped => exact absurd here running
  | sending job =>
      have closed : s.stage.jobsClosed = false := by
        rw [← Bool.not_eq_true]
        intro closed
        exact running (orderly.readers closed).1
      by_cases space : s.jobs.length < s.capacity
      · exact ⟨_, _, .send here closed space, rfl⟩
      · exact ⟨_, _, .drop here closed space, rfl⟩

/-- The acceptor stops once the listener is closed. -/
theorem goes_acceptor (listener : s.stage.tcpClosed = true) (running : s.acceptor ≠ .stopped) :
    s.Goes := by
  cases here : s.acceptor with
  | accepting => exact ⟨_, _, .acceptFails here (.inl listener), rfl⟩
  | stopped => exact absurd here running
  | accepted =>
      by_cases space : s.slots < maxTCPConns
      · exact ⟨_, _, .enter here space, rfl⟩
      · exact ⟨_, _, .refuse here space, rfl⟩

/-- A worker ends once the queue is closed, and does not wait to write a reply. -/
theorem goes_worker (socket : s.stage.udpClosed = true) (closed : s.stage.jobsClosed = true)
    (member : w ∈ s.workers) (running : w ≠ .finished) : s.Goes := by
  obtain ⟨before, after, here⟩ := append_of_mem member
  have lift : ∀ {happens mem w'}, WorkerStep s.stage s.troubled s.mem w happens mem w' →
      happens.work = 1 → s.Goes := fun step own => ⟨_, _, .worker here step, own⟩
  cases w with
  | receiving =>
      cases queue : s.jobs with
      | nil => exact ⟨_, _, .finish here queue closed, rfl⟩
      | cons job jobs => exact ⟨_, _, .receive here queue, rfl⟩
  | parsing job => exact lift (.parse job) rfl
  | handling job req =>
      obtain ⟨resp, handled⟩ := handles_exists req
      exact lift (.handle job handled) rfl
  | packing job resp => exact lift (.pack id job resp) rfl
  | writing job out => exact lift (.writeFails job out (.inl socket)) rfl
  | putting buf => exact lift (.put buf) rfl
  | finished => exact absurd rfl running

/-- A connection that waits for its peer is closed by the function of `AfterFunc`, or has been. -/
theorem goes_waiting (cancelled : s.cancelled = true) (member : c ∈ s.conns)
    (watched : c.watched = true) (goes : c.closed = true → s.Goes) : s.Goes := by
  obtain ⟨before, after, here⟩ := append_of_mem member
  cases closed : c.closed with
  | true => exact goes closed
  | false => exact ⟨_, _, .afterFunc here cancelled watched closed, rfl⟩

theorem goes_conn (orderly : s.Orderly) (cancelled : s.cancelled = true) (member : c ∈ s.conns)
    (running : c.talk ≠ .finished) : s.Goes := by
  obtain ⟨before, after, here⟩ := append_of_mem member
  have lift : ∀ {mem c'}, ConnStep s.mem c mem c' → s.Goes :=
    fun step => ⟨_, _, .conn here step, rfl⟩
  cases talk : c.talk with
  | getting => exact lift (.get talk .fresh)
  | header buf =>
      refine goes_waiting cancelled member (by rw [Conn.watched, talk]) fun closed => ?_
      exact lift (.headerFails talk (.inl (.inl closed)))
  | body buf n =>
      refine goes_waiting cancelled member (by rw [Conn.watched, talk]) fun closed => ?_
      exact lift (.bodyFails talk (.inl (.inl closed)))
  | parsing buf data => exact lift (.parse talk)
  | handling buf req =>
      obtain ⟨resp, handled⟩ := handles_exists req
      exact lift (.handle talk handled)
  | packing buf resp => exact lift (.pack id talk)
  | framing buf msg => exact lift (.frame id talk)
  | writing buf written =>
      refine goes_waiting cancelled member (by rw [Conn.watched, talk]) fun closed => ?_
      exact lift (.writeFails talk (.inl closed) 0)
  | putting buf => exact lift (.put talk)
  | closing => exact lift (.close talk)
  | releasing =>
      have slot : 0 < s.slots := by
        rw [orderly.slots]
        exact countP_pos_iff.mpr ⟨c, member, Service.live_iff.mpr running⟩
      exact ⟨_, _, .release here talk slot, rfl⟩
  | finished => exact absurd talk running

/-- **Until `Serve` has returned, some goroutine can go on.** -/
theorem Service.Orderly.goes (orderly : s.Orderly) (cancelled : s.cancelled = true)
    (running : s.stage ≠ .returned) : s.Goes := by
  cases stage : s.stage with
  | serving => exact ⟨_, _, .shutDown stage cancelled, rfl⟩
  | closingUDP => exact ⟨_, _, .closeUDP stage, rfl⟩
  | closingTCP => exact ⟨_, _, .closeTCP stage, rfl⟩
  | returned => exact absurd stage running
  | waitingReaders =>
      by_cases reader : s.reader = .stopped
      · by_cases acceptor : s.acceptor = .stopped
        · exact ⟨_, _, .closeJobs stage reader acceptor, rfl⟩
        · exact goes_acceptor (by rw [stage]; rfl) acceptor
      · exact goes_reader orderly (by rw [stage]; rfl) reader
  | waitingWorkers =>
      by_cases done : ∀ w ∈ s.workers, w = .finished
      · exact ⟨_, _, .workersDone stage done, rfl⟩
      · obtain ⟨w, member, running⟩ : ∃ w ∈ s.workers, w ≠ .finished := by
          push Not at done
          exact done
        exact goes_worker (by rw [stage]; rfl) (by rw [stage]; rfl) member running
  | waitingConns =>
      by_cases done : ∀ c ∈ s.conns, c.talk = .finished
      · exact ⟨_, _, .connsDone stage done, rfl⟩
      · obtain ⟨c, member, running⟩ : ∃ c ∈ s.conns, c.talk ≠ .finished := by
          push Not at done
          exact done
        exact goes_conn orderly cancelled member running

theorem Serves.weight (run : Serves s happened s') (orderly : s.Orderly)
    (closed : s.stage.tcpClosed = true) :
    s'.weight + (happened.map Happening.work).sum ≤
        s.weight + 8 * (happened.map Happening.octets).sum ∧
      s'.stage.tcpClosed = true := by
  induction run with
  | nil => exact ⟨Nat.le_refl _, closed⟩
  | snoc run step ih =>
      obtain ⟨bound, still⟩ := ih
      obtain ⟨less, closed'⟩ := step.weight (run.orderly orderly) still
      refine ⟨?_, closed'⟩
      simp only [map_append, sum_append, map_cons, map_nil, sum_cons, sum_nil]
      omega

/-- A step of the server brings no octets. -/
theorem Happening.octets_of_work (own : happens.work = 1) : happens.octets = 0 := by
  cases happens <;> first | rfl | cases own

/-- Until `Serve` has returned, some goroutine can go on and leave fewer steps to do. -/
theorem Service.Orderly.advances (orderly : s.Orderly) (cancelled : s.cancelled = true)
    (running : s.stage ≠ .returned) :
    ∃ happens s', Step s happens s' ∧ happens.work = 1 ∧ s'.weight < s.weight := by
  have later : s.stage.tcpClosed = true → ∃ happens s', Step s happens s' ∧ happens.work = 1 ∧
      s'.weight < s.weight := by
    intro closed
    obtain ⟨happens, s', step, own⟩ := orderly.goes cancelled running
    obtain ⟨less, -⟩ := step.weight orderly closed
    rw [Happening.octets_of_work own] at less
    exact ⟨happens, s', step, own, by omega⟩
  cases stage : s.stage with
  | serving =>
      refine ⟨_, _, .shutDown stage cancelled, rfl, ?_⟩
      simp only [Service.weight, stage, Stage.weight]
      omega
  | closingUDP =>
      refine ⟨_, _, .closeUDP stage, rfl, ?_⟩
      simp only [Service.weight, stage, Stage.weight]
      omega
  | closingTCP =>
      refine ⟨_, _, .closeTCP stage, rfl, ?_⟩
      simp only [Service.weight, stage, Stage.weight]
      omega
  | waitingReaders | waitingWorkers | waitingConns => exact later (by rw [stage]; rfl)
  | returned => exact absurd stage running

theorem Step.cancelled (step : Step s happens s') (cancelled : s.cancelled = true) :
    s'.cancelled = true := by
  cases step <;> first | exact cancelled | rfl

/-- **By its own steps the server comes to the return of `Serve`.** -/
theorem Service.Orderly.returns (orderly : s.Orderly) (cancelled : s.cancelled = true) :
    ∃ own s', Serves s own s' ∧ (∀ happens ∈ own, happens.work = 1) ∧ s'.stage = .returned := by
  -- each step leaves fewer to do
  induction weight : s.weight using Nat.strong_induction_on generalizing s with
  | _ n ih =>
      by_cases returned : s.stage = .returned
      · exact ⟨[], s, .nil, nofun, returned⟩
      · obtain ⟨happens, next, step, own, less⟩ := orderly.advances cancelled returned
        obtain ⟨later, s', rest, mine, done⟩ := ih next.weight (weight ▸ less)
          (step.orderly orderly) (step.cancelled cancelled) rfl
        exact ⟨_, s', (Serves.nil.snoc step).trans rest, forall_mem_cons.mpr ⟨own, mine⟩, done⟩

/-! ## Once all connections are closed -/

/-- No connection can be read any more, and no new one comes. -/
structure Service.Shut (s : Service Peer) : Prop where
  acceptor : s.acceptor = .stopped
  conns : ∀ c ∈ s.conns, c.closed = true

theorem ConnStep.closed (step : ConnStep mem c mem' c') (closed : c.closed = true) :
    c'.closed = true := by
  cases step <;> first | exact closed | rfl

theorem ReaderStep.octets {cancelled : Bool}
    (step : ReaderStep stage troubled cancelled mem r happens mem' r') : happens.octets = 0 := by
  cases step <;> rfl

theorem WorkerStep.octets (step : WorkerStep stage troubled mem w happens mem' w') :
    happens.octets = 0 := by
  cases step <;> rfl

theorem Service.Shut.conn (shut : s.Shut) (here : s.conns = before ++ c :: after)
    (kept : c.closed = true → c'.closed = true) {slots : Nat} :
    Service.Shut { s with mem := mem, slots := slots, conns := before ++ c' :: after } := by
  have all := shut.conns
  rw [here, forall_mem_append, forall_mem_cons] at all
  obtain ⟨first, closed, last⟩ := all
  exact ⟨shut.acceptor, forall_mem_append.mpr ⟨first, forall_mem_cons.mpr ⟨kept closed, last⟩⟩⟩

theorem Step.shut (step : Step s happens s') (shut : s.Shut) : s'.Shut ∧ happens.octets = 0 := by
  cases step with
  | accept ready | acceptFails ready | enter ready | refuse ready =>
      cases ready.symm.trans shut.acceptor
  | conn here step => exact ⟨shut.conn here step.closed, rfl⟩
  | release here =>
      refine ⟨shut.conn here ?_, rfl⟩
      exact id
  | afterFunc here => exact ⟨shut.conn here fun _ => rfl, rfl⟩
  | @arrive _ _ c here socket =>
      have member : c ∈ s.conns := by
        rw [here]
        exact mem_append_right _ mem_cons_self
      cases socket.symm.trans (shut.conns c member)
  | suffer here suffers =>
      obtain ⟨line, late, rfl⟩ := suffers.eq
      refine ⟨shut.conn here ?_, rfl⟩
      exact id
  | reader step => exact ⟨⟨shut.acceptor, shut.conns⟩, step.octets⟩
  | worker here step => exact ⟨⟨shut.acceptor, shut.conns⟩, step.octets⟩
  | send | drop | crash | receive | finish | network | cancel | forget | shutDown | closeUDP
  | closeTCP | closeJobs | workersDone | connsDone => exact ⟨⟨shut.acceptor, shut.conns⟩, rfl⟩

theorem Serves.shut (run : Serves s happened s') (shut : s.Shut) :
    s'.Shut ∧ (happened.map Happening.octets).sum = 0 := by
  induction run with
  | nil => exact ⟨shut, rfl⟩
  | snoc run step ih =>
      obtain ⟨shut', before⟩ := ih
      obtain ⟨shut'', last⟩ := step.shut shut'
      refine ⟨shut'', ?_⟩
      rw [map_append, sum_append, before, map_singleton, sum_singleton, last]

theorem Worker.weight_le (w : Worker Peer) : w.weight ≤ 6 := by
  cases w <;> simp only [Worker.weight, Nat.reduceLeDiff, Nat.le_refl]

theorem Talk.weight_le (t : Talk) : t.weight ≤ 10 := by
  cases t <;> simp only [Talk.weight, Nat.reduceLeDiff, Nat.le_refl]

/-- A closed connection has ten steps before it, and none when it has given back its slot. -/
theorem Conn.weight_le (closed : c.closed = true) :
    c.weight ≤ 10 * if Service.live c then 1 else 0 := by
  rw [Conn.weight, closed, if_pos rfl, Nat.add_zero]
  split
  · exact c.talk.weight_le
  · rename_i gone
    rw [Service.live_iff, not_not] at gone
    rw [gone]
    exact Nat.le_refl _

theorem weight_workers_le (ws : List (Worker Peer)) :
    (ws.map Worker.weight).sum ≤ 6 * ws.length := by
  induction ws with
  | nil => exact Nat.le_refl _
  | cons w ws ih =>
      have one := w.weight_le
      rw [map_cons, sum_cons, length_cons]
      omega

theorem weight_conns_le {cs : List Conn} (closed : ∀ c ∈ cs, c.closed = true) :
    (cs.map Conn.weight).sum ≤ 10 * cs.countP Service.live := by
  induction cs with
  | nil => exact Nat.le_refl _
  | cons c cs ih =>
      rw [forall_mem_cons] at closed
      have one := Conn.weight_le closed.1
      have more := ih closed.2
      rw [map_cons, sum_cons, countP_cons]
      omega

theorem Stage.weight_le (closed : stage.tcpClosed = true) : stage.weight ≤ 3 := by
  cases stage with
  | serving | closingUDP | closingTCP => cases closed
  | waitingReaders | waitingWorkers | waitingConns | returned =>
      simp only [Stage.weight, Nat.reduceLeDiff, Nat.le_refl]

theorem Reader.weight_le (r : Reader Peer) : r.weight ≤ 10 := by
  cases r <;> simp only [Reader.weight, Nat.reduceLeDiff, Nat.le_refl]

/-- **What is left to do when all connections are closed is a matter of how many goroutines there
are.** -/
theorem Service.Shut.weight_le (shut : s.Shut) (orderly : s.Orderly)
    (closed : s.stage.tcpClosed = true) :
    s.weight ≤ 102 * s.workers.length + 10 * s.slots + 13 := by
  have reader := s.reader.weight_le
  have stage := Stage.weight_le closed
  have workers := weight_workers_le s.workers
  have conns := weight_conns_le shut.conns
  rw [← orderly.slots] at conns
  have queue := orderly.queue
  have acceptor : s.acceptor.weight = 0 := congrArg Acceptor.weight shut.acceptor
  simp only [Service.capacity] at queue
  simp only [Service.weight, acceptor]
  omega

/-! ## Who accounts for how much -/

/-- The datagrams a party can account for. -/
def Party.room : Party Peer → Nat
  | .conn _ => 0
  | _ => 1

theorem Party.Holds.length_le {p : Party Peer} (holds : p.Holds heap es) : es.length ≤ p.room := by
  have made : ∀ {job : Job Peer} {P : Bytes → Prop}, job.Made es P → es.length ≤ 1 := by
    rintro job P ⟨data, rfl, -⟩
    exact Nat.le_refl _
  have read : ∀ {job : Job Peer}, job.Holds heap es → es.length ≤ 1 := by
    rintro job ⟨data, rfl, -⟩
    exact Nat.le_refl _
  have nothing : es = [] → es.length ≤ 1 := by
    rintro rfl
    exact Nat.zero_le _
  cases p with
  | reader r =>
      cases r with
      | getting => exact nothing holds
      | stopped => exact nothing holds
      | reading buf => exact nothing holds.2
      | failed buf closed => exact nothing holds.2
      | sending job => exact read holds.2
  | job j => exact read holds.2
  | worker w =>
      cases w with
      | receiving => exact nothing holds
      | finished => exact nothing holds
      | parsing job => exact read holds.2
      | handling job req => exact made holds.2
      | packing job resp => exact made holds.2
      | writing job out => exact made holds.2
      | putting buf => exact nothing holds.2
  | conn c => exact Nat.le_of_eq (congrArg length holds.2)

theorem Holding.length_le (holding : Holding DNS.parties heap ss es) :
    es.length ≤ (ss.map Party.room).sum := by
  induction holding with
  | nil => exact Nat.le_refl _
  | cons first _ ih =>
      rw [length_append, map_cons, sum_cons]
      exact Nat.add_le_add (Party.Holds.length_le first) ih

theorem room_parties (s : Service Peer) :
    (s.parties.map Party.room).sum = 1 + s.jobs.length + s.workers.length := by
  have sum : ∀ {α : Type} (f : α → Party Peer) (k : Nat), (∀ a, (f a).room = k) → ∀ xs : List α,
      ((xs.map f).map Party.room).sum = k * xs.length := by
    intro α f k same xs
    induction xs with
    | nil => rfl
    | cons x xs ih =>
        rw [map_cons, map_cons, sum_cons, ih, same, length_cons, Nat.mul_succ, Nat.add_comm]
  simp only [Service.parties, map_cons, map_append, sum_cons, sum_append, sum Party.job 1 fun _ =>
    rfl, sum Party.worker 1 fun _ => rfl, sum Party.conn 0 fun _ => rfl, Party.room]
  omega

theorem Holding.eq_nil (holding : Holding DNS.parties heap ss es)
    (idle : ∀ p ∈ ss, ∀ es, p.Holds heap es → es = []) : es = [] := by
  induction holding with
  | nil => rfl
  | cons first _ ih =>
      rw [forall_mem_cons] at idle
      rw [idle.1 _ first, ih idle.2]
      rfl

/-- Where all goroutines have ended, nobody has a buffer or accounts for anything. -/
theorem idle_parties (reader : s.reader = .stopped) (jobs : s.jobs = [])
    (workers : ∀ w ∈ s.workers, w = .finished) (conns : ∀ c ∈ s.conns, c.talk = .finished) :
    ∀ p ∈ s.parties, p.owned = [] ∧ ∀ es, p.Holds s.mem.heap es → es = [] := by
  intro p member
  simp only [Service.parties, jobs, reader, map_nil, nil_append, mem_cons, mem_append,
    mem_map] at member
  rcases member with rfl | ⟨w, inside, rfl⟩ | ⟨c, inside, rfl⟩
  · exact ⟨rfl, fun es holds => holds⟩
  · rw [workers w inside]
    exact ⟨rfl, fun es holds => holds⟩
  · refine ⟨?_, fun es holds => holds.2⟩
    rw [Party.owned, conns c inside]
    rfl

/-! ## Results -/

/-- **What waits in a server is bounded, and it never sends on its closed queue.** -/
theorem serves_bounded {n : Nat} {happened : List (Happening Peer)} {s : Service Peer}
    (run : Serves (Service.start n) happened s) :
    s.crashed = false ∧ s.slots = s.conns.countP Service.live ∧ s.slots ≤ maxTCPConns ∧
      s.jobs.length ≤ 16 * s.workers.length ∧
      ∃ pending settled, Account happened pending settled ∧
        pending.length ≤ 17 * s.workers.length + 1 := by
  have orderly := run.orderly (Service.orderly_start n)
  have queue : s.jobs.length ≤ 16 * s.workers.length := by
    rw [Nat.mul_comm]
    exact orderly.queue
  obtain ⟨pending, settled, held, account⟩ := run.account
  obtain ⟨entries, shuffled, holding⟩ := held.holding
  refine ⟨orderly.sound, orderly.slots, orderly.bound, queue, pending, settled, account, ?_⟩
  have bound := Holding.length_le holding
  rw [room_parties, ← shuffled.length_eq] at bound
  omega

theorem serves_bounded_cutQuery : ∃ (happened : List (Happening Nat)) (s : Service Nat),
    happened.flatMap Happening.incoming = [(cutQuery, 53)] ∧ s.crashed = false ∧
      s.slots = s.conns.countP Service.live ∧ s.slots ≤ maxTCPConns ∧
        s.jobs.length ≤ 16 * s.workers.length ∧
      ∃ pending settled, Account happened pending settled ∧
        pending.length ≤ 17 * s.workers.length + 1 := by
  obtain ⟨s, run⟩ := serves_cutQuery
  exact ⟨_, s, rfl, serves_bounded run⟩

/-- A server that has answered a datagram is shut down, with a connection on which nothing was
said and that it closes. -/
theorem serves_closing : ∃ (happened : List (Happening Nat)) (s : Service Nat),
    Serves (Service.start 1) happened s ∧ (cutQuery, 53) ∈ happened.flatMap Happening.incoming ∧
      s.cancelled = true ∧ s.stage.tcpClosed = true ∧ s.slots = 1 ∧ s.Shut := by
  have got := Serves.nil.snoc (Step.reader (.get .fresh) : Step (Service.start 1 : Service Nat) _ _)
  have filled := got.snoc (.reader (.read 0 cutQuery 53 rfl))
  have sent := filled.snoc (.send rfl rfl (by decide))
  have received := sent.snoc (.receive (show _ = [] ++ _ :: [] from rfl) rfl)
  have parsed := received.snoc (.worker (show _ = [] ++ _ :: [] from rfl) (.parse _))
  have replied := parsed.snoc (.worker (show _ = [] ++ _ :: [] from rfl) (.write _ _ rfl))
  have entered := (replied.snoc (.accept rfl rfl)).snoc (.enter rfl (by decide))
  have watched := entered.snoc (.conn (show _ = [] ++ _ :: [] from rfl) (.get rfl .fresh))
  have cancelled := (watched.snoc .cancel).snoc (.shutDown rfl rfl)
  have sockets := (cancelled.snoc (.closeUDP rfl)).snoc (.closeTCP rfl)
  have refused := sockets.snoc (.acceptFails rfl (.inl rfl))
  have closed := refused.snoc (.afterFunc (show _ = [] ++ _ :: [] from rfl) rfl rfl rfl)
  exact ⟨_, _, closed, .head _, rfl, rfl, rfl, rfl, forall_mem_singleton.mpr rfl⟩

/-- A server that has returned has nothing to do. -/
theorem Service.Orderly.idle (orderly : s.Orderly) (returned : s.stage = .returned) :
    s.reader = .stopped ∧ s.acceptor = .stopped ∧ s.jobs = [] ∧ (∀ w ∈ s.workers, w = .finished) ∧
      ∀ c ∈ s.conns, c.talk = .finished := by
  obtain ⟨reader, acceptor⟩ := orderly.readers (by rw [returned]; rfl)
  have workers := orderly.workersDone (.inr returned)
  have conns := orderly.connsDone returned
  have jobs : s.jobs = [] := by
    obtain ⟨w, member⟩ := exists_mem_of_length_pos orderly.manned
    exact (orderly.finished (workers w member ▸ member)).2
  exact ⟨reader, acceptor, jobs, workers, conns⟩

/-- What became of every datagram is settled where nobody accounts for one. -/
theorem Serves.settled (run : Serves (Service.start n) happened s)
    (idle : ∀ p ∈ s.parties, ∀ es, p.Holds s.mem.heap es → es = []) :
    ∃ settled, Account happened [] settled := by
  obtain ⟨pending, settled, held, account⟩ := run.account
  obtain ⟨entries, shuffled, holding⟩ := held.holding
  obtain rfl := Holding.eq_nil holding idle
  obtain rfl := perm_nil.mp shuffled
  exact ⟨settled, account⟩

/-- **When `Serve` returns, nothing is left**: all goroutines have ended, no buffer is in use, no
slot is taken and what became of every datagram is settled. -/
theorem serves_returned {n : Nat} {happened : List (Happening Peer)} {s : Service Peer}
    (run : Serves (Service.start n) happened s) (returned : s.stage = .returned) :
    s.reader = .stopped ∧ s.acceptor = .stopped ∧ s.jobs = [] ∧ (∀ w ∈ s.workers, w = .finished) ∧
      (∀ c ∈ s.conns, c.talk = .finished) ∧ s.slots = 0 ∧ s.parties.flatMap Party.owned = [] ∧
      ∃ settled, Account happened [] settled := by
  have orderly := run.orderly (Service.orderly_start n)
  obtain ⟨reader, acceptor, jobs, workers, conns⟩ := orderly.idle returned
  have parties := idle_parties reader jobs workers conns
  refine ⟨reader, acceptor, jobs, workers, conns, ?_, ?_, ?_⟩
  · rw [orderly.slots]
    exact countP_eq_zero.mpr fun c member alive => Service.live_iff.mp alive (conns c member)
  · exact flatMap_eq_nil_iff.mpr fun p member => (parties p member).1
  · exact run.settled fun p member => (parties p member).2

theorem serves_returned_closing : ∃ (happened : List (Happening Nat)) (s : Service Nat),
    Serves (Service.start 1) happened s ∧ (cutQuery, 53) ∈ happened.flatMap Happening.incoming ∧
      s.stage = .returned ∧ s.reader = .stopped ∧ s.acceptor = .stopped ∧ s.jobs = [] ∧
      (∀ w ∈ s.workers, w = .finished) ∧ (∀ c ∈ s.conns, c.talk = .finished) ∧ s.slots = 0 ∧
      s.parties.flatMap Party.owned = [] ∧ ∃ settled, Account happened [] settled := by
  obtain ⟨happened, s, run, received, done, -⟩ := serves_closing
  obtain ⟨own, s', rest, -, returned⟩ := (run.orderly (Service.orderly_start 1)).returns done
  have whole := run.trans rest
  have before : (cutQuery, 53) ∈ (happened ++ own).flatMap Happening.incoming := by
    rw [flatMap_append]
    exact mem_append_left _ received
  exact ⟨_, s', whole, before, returned, serves_returned whole returned⟩

/-- **A shutdown comes to its end.** Once the context is done, some goroutine can go on until
`Serve` has returned, and the server comes to that by its own steps. From the moment the sockets are
closed they are bounded by what it had before it and the octets that still arrive on connections
that are open. Once all connections are closed, a number of steps that depends on its goroutines
alone brings it to its return. -/
theorem serves_shutdown_completes {n : Nat} {happened : List (Happening Peer)} {s : Service Peer}
    (run : Serves (Service.start n) happened s) (done : s.cancelled = true) :
    (s.stage = .returned ∨ ∃ happens s', Step s happens s' ∧ happens.work = 1) ∧
      (∃ own s', Serves s own s' ∧ (∀ happens ∈ own, happens.work = 1) ∧ s'.stage = .returned) ∧
      ∀ later s', s.stage.tcpClosed = true → Serves s later s' →
        (later.map Happening.work).sum ≤ s.weight + 8 * (later.map Happening.octets).sum ∧
          (s.Shut →
            (later.map Happening.work).sum ≤ 102 * s.workers.length + 10 * s.slots + 13 ∧
              (102 * s.workers.length + 10 * s.slots + 13 ≤ (later.map Happening.work).sum →
                s'.stage = .returned)) := by
  have orderly := run.orderly (Service.orderly_start n)
  refine ⟨?_, orderly.returns done, fun later s' closed rest => ?_⟩
  · by_cases returned : s.stage = .returned
    · exact .inl returned
    · exact .inr (orderly.goes done returned)
  · obtain ⟨bound, still⟩ := rest.weight orderly closed
    refine ⟨by omega, fun shut => ?_⟩
    have few := shut.weight_le orderly closed
    rw [(rest.shut shut).2] at bound
    refine ⟨by omega, fun many => ?_⟩
    -- nothing is left to do, not even for `Serve`
    have idle : s'.stage.weight = 0 := by
      have part : s'.stage.weight ≤ s'.weight := Nat.le_add_left _ _
      omega
    cases stage : s'.stage <;> rw [stage] at idle <;> first | rfl | cases idle

theorem serves_shutdown_completes_closing : ∃ (happened later : List (Happening Nat))
    (s s' : Service Nat), Serves (Service.start 1) happened s ∧ s.slots = 1 ∧ Serves s later s' ∧
      s'.stage = .returned ∧ (later.map Happening.work).sum ≤ 102 * s.workers.length + 23 := by
  obtain ⟨happened, s, run, -, done, closed, slot, shut⟩ := serves_closing
  obtain ⟨-, ⟨own, s', rest, -, returned⟩, bounds⟩ := serves_shutdown_completes run done
  have few := ((bounds own s' closed rest).2 shut).1
  rw [slot] at few
  exact ⟨happened, own, s, s', run, slot, rest, returned, few⟩

end ShardDNS.DNS

import ShardDNS.DNS.Lifecycle

/-!
# The daemon, from start to return

`run` of the daemon loads its configuration, opens the database, and the bus if there is one, opens
its sockets and starts a DNS server and an API server. It waits for a signal or for an error of one
of them, stops both, and closes what it has opened. The DNS server in it is the one of `Serves`: it
sees a cancellation where the daemon is signalled or stops by itself (`Runs.serves`).

When `run` returns, what it opened is closed and no API call has a connection to the database. If
it had started its servers nothing is left of them, no API call is under way unless the shutdown ran
out of time, and the error is one that the API server has ended with, or none after a signal. If it
had not, the error is that of the operation it stopped at, or the cancellation that a signal has
caused (`returned_of_run`).

And it does return: once a signal has come or the API server has failed, someone can go on until it
has, unless it waits for the answer to an operation of its start, for API calls that are under way
while `Shutdown` has time left, or for a connection that one of them has. When these come, it
returns. The steps from the moment the DNS sockets and connections are closed are bounded
(`run_completes`).

`Serve` of the DNS server returns an error only if it has to listen itself, which `run` has done
before. So the API server alone sends on the channel. A signal while `run` does not listen for one
ends the process, and with it the run as it stands.
-/

set_option autoImplicit false

namespace ShardDNS

open Go DNS List

namespace Daemon

/-- What the configuration says about the start. -/
structure Config where
  workers : Nat
  cacheEnabled : Bool
  /-- `NATS_URL` is not empty. -/
  nats : Bool

/-- The operations of the start that can fail. -/
inductive Operation where
  | load
  | connect (attempt : Nat)
  | migrate
  | connectBus
  | subscribe
  | listen
  | listenAPI
  deriving DecidableEq

namespace Operation

/-- The operation after one that has succeeded; after the last the servers are started. -/
def next (cfg : Config) : Operation → Option Operation
  | .load => some (.connect 1)
  | .connect _ => some .migrate
  | .migrate => some (if cfg.nats then .connectBus else .listen)
  | .connectBus => some (if cfg.cacheEnabled then .subscribe else .listen)
  | .subscribe => some .listen
  | .listen => some .listenAPI
  | .listenAPI => none

/-- The operation opens the database. -/
def opensStore : Operation → Bool
  | .connect _ => true
  | _ => false

/-- The operation opens the bus. -/
def opensBus : Operation → Bool
  | .connectBus => true
  | _ => false

/-- The database is open before the operation. -/
def stored : Operation → Bool
  | .load | .connect _ => false
  | _ => true

end Operation

/-- What `run` can return: the error of an operation of the start, that of its context, or that of
the API server. -/
inductive Failure (E : Type) where
  | start (op : Operation) (err : E)
  | canceled
  | api (err : E)

/-- Where `run` is. It carries what it will return. -/
inductive Main (E : Type) where
  | starting (op : Operation)
  /-- `connectStore` waits for a second. -/
  | retrying (attempt : Nat) (lastErr : E)
  | selecting
  | stopping (err : E)
  | leaving (runErr : Option (Failure E))
  | draining (runErr : Option (Failure E))
  | waiting (runErr : Option (Failure E))
  | closingBus (runErr : Option (Failure E))
  | closingStore (runErr : Option (Failure E))
  | releasing (runErr : Option (Failure E))
  | returned (runErr : Option (Failure E))

/-- The goroutine of the API server. It has ended with an error that is not `ErrServerClosed`, or
with that one. -/
inductive Http (E : Type) where
  | off
  | serving
  | ended (err : Option E)
  | done

end Daemon

/-- The daemon, with its DNS server, the API calls under way and the channel of errors. -/
structure Daemon (Peer E : Type) where
  cfg : Daemon.Config
  service : Service Peer
  /-- The goroutines of both servers have been started. -/
  started : Bool := false
  http : Daemon.Http E := .off
  /-- API calls under way. -/
  calls : Nat := 0
  /-- Connections of the pool that they have acquired. -/
  conns : Nat := 0
  /-- `Shutdown` has been called. -/
  inShutdown : Bool := false
  /-- Its time is over. -/
  expired : Bool := false
  /-- It has found the server idle. -/
  drained : Bool := false
  /-- The pool of the database is open. -/
  store : Bool := false
  /-- There is a bus, and it is open. -/
  bus : Bool := false
  errCh : List E := []
  main : Daemon.Main E := .starting .load

namespace Daemon

variable {Peer E : Type}

/-- The daemon when `run` is called. -/
def start (cfg : Config) : Daemon Peer E := { cfg := cfg, service := .start cfg.workers }

/-- `run` returns, but for its deferred calls: it closes the bus and the pool, if they are open. -/
def unwind (d : Daemon Peer E) (runErr : Option (Failure E)) : Main E :=
  if d.bus then .closingBus runErr else if d.store then .closingStore runErr else .returned runErr

/-- What can be seen of a step. -/
inductive Event (Peer E : Type) where
  | dns (happens : Happening Peer)
  | signal
  | accomplished (op : Operation)
  | refused (op : Operation) (err : E)
  | failed (err : E)
  | stopped
  | called
  | acquired
  | released
  | answered
  | elapsed
  | timedOut
  | internal

/-- A step of the daemon, of its servers or of the world around it. -/
inductive Step (d : Daemon Peer E) : Event Peer E → Daemon Peer E → Prop where
  | dns {happens : Happening Peer} {service : Service Peer} (running : d.started = true)
      (step : DNS.Step d.service happens service) (inner : happens ≠ .cancelled) :
      Step d (.dns happens) { d with service := service }
  | signal (listened : d.main ≠ .starting .load) :
      Step d .signal { d with service := { d.service with cancelled := true } }
  | succeed {op next : Operation} (ready : d.main = .starting op)
      (more : op.next d.cfg = some next) :
      Step d (.accomplished op)
        { d with
          main := .starting next
          store := d.store || op.opensStore
          bus := d.bus || op.opensBus }
  | serve {op : Operation} (ready : d.main = .starting op) (last : op.next d.cfg = none) :
      Step d (.accomplished op) { d with main := .selecting, started := true, http := .serving }
  | refuse {op : Operation} (ready : d.main = .starting op)
      (once : ∀ attempt, op ≠ .connect attempt)
      (err : E) : Step d (.refused op err) { d with main := d.unwind (some (.start op err)) }
  | retry {attempt : Nat} (ready : d.main = .starting (.connect attempt)) (err : E) :
      Step d (.refused (.connect attempt) err) { d with main := .retrying attempt err }
  | again {attempt : Nat} {lastErr : E} (ready : d.main = .retrying attempt lastErr)
      (more : attempt < 30) :
      Step d .elapsed { d with main := .starting (.connect (attempt + 1)) }
  | giveUp {attempt : Nat} {lastErr : E} (ready : d.main = .retrying attempt lastErr)
      (last : ¬ attempt < 30) :
      Step d .elapsed { d with main := d.unwind (some (.start (.connect attempt) lastErr)) }
  | breakOff {attempt : Nat} {lastErr : E} (ready : d.main = .retrying attempt lastErr)
      (done : d.service.cancelled = true) :
      Step d .internal { d with main := d.unwind (some .canceled) }
  | fail (ready : d.http = .serving) (opened : d.inShutdown = false) (err : E) :
      Step d (.failed err) { d with http := .ended (some err) }
  | close (ready : d.http = .serving) (closed : d.inShutdown = true) :
      Step d .internal { d with http := .ended none }
  | send {err : E} (ready : d.http = .ended (some err)) (space : d.errCh.length < 2) :
      Step d .internal { d with http := .done, errCh := d.errCh ++ [err] }
  | finish (ready : d.http = .ended none) : Step d .internal { d with http := .done }
  | call (running : d.started = true) (opened : d.drained = false) :
      Step d .called { d with calls := d.calls + 1 }
  | acquire (pool : d.store = true) (more : d.conns < d.calls) :
      Step d .acquired { d with conns := d.conns + 1 }
  | release {n : Nat} (busy : d.conns = n + 1) : Step d .released { d with conns := n }
  | answer {n : Nat} (busy : d.calls = n + 1) (free : d.conns ≤ n) :
      Step d .answered { d with calls := n }
  | interrupt (ready : d.main = .selecting) (done : d.service.cancelled = true) :
      Step d .internal { d with main := .leaving none }
  | receive {err : E} {rest : List E} (ready : d.main = .selecting) (sent : d.errCh = err :: rest) :
      Step d .internal { d with main := .stopping err, errCh := rest }
  | stop {err : E} (ready : d.main = .stopping err) :
      Step d .stopped
        { d with
          main := .leaving (some (.api err))
          service := { d.service with cancelled := true } }
  | shutdown {runErr : Option (Failure E)} (ready : d.main = .leaving runErr) :
      Step d .internal { d with main := .draining runErr, inShutdown := true }
  | elapse {runErr : Option (Failure E)} (ready : d.main = .draining runErr) :
      Step d .elapsed { d with expired := true }
  | drain {runErr : Option (Failure E)} (ready : d.main = .draining runErr) (idle : d.calls = 0) :
      Step d .internal { d with main := .waiting runErr, drained := true }
  | timeOut {runErr : Option (Failure E)} (ready : d.main = .draining runErr)
      (late : d.expired = true) : Step d .timedOut { d with main := .waiting runErr }
  | wait {runErr : Option (Failure E)} (ready : d.main = .waiting runErr)
      (dns : d.service.stage = .returned) (http : d.http = .done) :
      Step d .internal { d with main := d.unwind runErr }
  | closeBus {runErr : Option (Failure E)} (ready : d.main = .closingBus runErr) :
      Step d .internal { d with main := .closingStore runErr, bus := false }
  /-- Nobody can acquire a connection any more. -/
  | closeStore {runErr : Option (Failure E)} (ready : d.main = .closingStore runErr) :
      Step d .internal { d with main := .releasing runErr, store := false }
  /-- The pool waits for the connections that are acquired. -/
  | leave {runErr : Option (Failure E)} (ready : d.main = .releasing runErr)
      (free : d.conns = 0) : Step d .internal { d with main := .returned runErr }

/-- What happens in a run, in order, and where it ends. -/
inductive Runs (d : Daemon Peer E) : List (Event Peer E) → Daemon Peer E → Prop where
  | nil : Runs d [] d
  | snoc {events : List (Event Peer E)} {e : Event Peer E} {d' d'' : Daemon Peer E}
      (run : Runs d events d') (step : Step d' e d'') : Runs d (events ++ [e]) d''

variable {d d' : Daemon Peer E} {events : List (Event Peer E)} {runErr : Option (Failure E)}
  {cfg : Config}

theorem Runs.trans {d'' : Daemon Peer E} {first second : List (Event Peer E)}
    (run : Runs d first d') (rest : Runs d' second d'') : Runs d (first ++ second) d'' := by
  induction rest with
  | nil =>
      rw [append_nil]
      exact run
  | snoc rest step ih =>
      rw [← append_assoc]
      exact ih.snoc step

/-! ## The server inside -/

/-- What the DNS server sees of a step. -/
def Event.seen : Event Peer E → List (Happening Peer)
  | .dns happens => [happens]
  | .signal | .stopped => [.cancelled]
  | _ => []

theorem Step.serves {e : Event Peer E} (step : Step d e d') :
    Serves d.service e.seen d'.service := by
  cases step with
  | dns running step inner => exact Serves.nil.snoc step
  | signal listened => exact Serves.nil.snoc .cancel
  | stop ready => exact Serves.nil.snoc .cancel
  | _ => exact .nil

/-- **The DNS server of a daemon runs as one by itself.** -/
theorem Runs.serves (run : Runs d events d') :
    Serves d.service (events.flatMap Event.seen) d'.service := by
  induction run with
  | nil => exact .nil
  | snoc run step ih =>
      rw [flatMap_append, flatMap_cons, flatMap_nil, append_nil]
      exact ih.trans step.serves

/-- Only a cancellation cancels. -/
theorem cancelled_of_step {s s' : Service Peer} {happens : Happening Peer}
    (step : DNS.Step s happens s') (inner : happens ≠ .cancelled) : s'.cancelled = s.cancelled := by
  cases step with
  | cancel => exact absurd rfl inner
  | _ => rfl

/-- A server that has returned stays so. -/
theorem returned_of_step {s s' : Service Peer} {happens : Happening Peer}
    (step : DNS.Step s happens s') (returned : s.stage = .returned) : s'.stage = .returned := by
  cases step with
  | shutDown ready | closeUDP ready | closeTCP ready | closeJobs ready | workersDone ready =>
      rw [ready] at returned
      cases returned
  | connsDone ready => rfl
  | _ => exact returned

/-! ## Where `run` is -/

namespace Main

/-- What `run` will return, once that is decided. -/
def outcome : Main E → Option (Option (Failure E))
  | .starting _ | .retrying _ _ | .selecting => none
  | .stopping err => some (some (.api err))
  | .leaving runErr | .draining runErr | .waiting runErr | .closingBus runErr
  | .closingStore runErr | .releasing runErr | .returned runErr => some runErr

/-- The servers are not started yet. -/
def early : Main E → Bool
  | .starting _ | .retrying _ _ => true
  | _ => false

/-- The database is open or not, while the servers are not started. -/
def stored : Main E → Option Bool
  | .starting op => some op.stored
  | .retrying _ _ => some false
  | _ => none

/-- They are, and `run` waits for them. -/
def serving : Main E → Bool
  | .selecting | .stopping _ | .leaving _ | .draining _ | .waiting _ => true
  | _ => false

/-- The context is cancelled for sure. -/
def left : Main E → Bool
  | .leaving _ | .draining _ | .waiting _ => true
  | _ => false

/-- `Shutdown` has been called. -/
def closing : Main E → Bool
  | .draining _ | .waiting _ => true
  | _ => false

/-- The deferred calls are being made. -/
def unwinding : Main E → Bool
  | .closingBus _ | .closingStore _ | .releasing _ | .returned _ => true
  | _ => false

/-- `Shutdown` has returned, if it was called. -/
def closed : Main E → Bool
  | .waiting _ => true
  | main => main.unwinding

/-- The bus has been closed, if there is one. -/
def busClosed : Main E → Bool
  | .closingStore _ | .releasing _ | .returned _ => true
  | _ => false

/-- The pool has been closed, if it was opened. -/
def storeClosed : Main E → Bool
  | .releasing _ | .returned _ => true
  | _ => false

end Main

theorem unwind_cases (d : Daemon Peer E) (runErr : Option (Failure E)) :
    d.unwind runErr = .closingBus runErr ∨
      d.bus = false ∧ d.unwind runErr = .closingStore runErr ∨
      d.bus = false ∧ d.store = false ∧ d.unwind runErr = .returned runErr := by
  unfold unwind
  cases bus : d.bus with
  | true => exact .inl rfl
  | false =>
      cases store : d.store with
      | true => exact .inr (.inl ⟨rfl, rfl⟩)
      | false => exact .inr (.inr ⟨rfl, rfl, rfl⟩)

theorem Main.outcome_of_early {main : Main E} (early : main.early = true) :
    main.outcome = none := by
  cases main <;> first | rfl | cases early

/-! ## What holds in every state -/

/-- What is said to happen in a run: the errors that operations of the start and the API server
fail with, a signal, and a shutdown that takes too long. -/
structure Told (E : Type) where
  refused : Operation → E → Prop
  failed : E → Prop
  signalled : Prop
  late : Prop

/-- The event is one of those that are said to happen. -/
def Event.Among (told : Told E) : Event Peer E → Prop
  | .refused op err => told.refused op err
  | .failed err => told.failed err
  | .signal => told.signalled
  | .timedOut => told.late
  | _ => True

/-- What `run` returns has a reason. -/
def Explained (told : Told E) (started : Bool) : Option (Failure E) → Prop
  | none => told.signalled ∧ started = true
  | some (.start op err) => told.refused op err ∧ started = false
  | some .canceled => told.signalled ∧ started = false
  | some (.api err) => told.failed err ∧ started = true

/-- What holds in every state, if no more happens than is said. -/
structure Sound (told : Told E) (d : Daemon Peer E) : Prop where
  room : d.http ≠ .done → d.errCh = []
  alone : d.errCh.length ≤ 1
  sent : ∀ err ∈ d.errCh, told.failed err
  ended : ∀ err, d.http = .ended (some err) → told.failed err
  lastErr : ∀ attempt err, d.main = .retrying attempt err → told.refused (.connect attempt) err
  outcome : ∀ runErr, d.main.outcome = some runErr → Explained told d.started runErr
  cancelled : d.service.cancelled = true → told.signalled ∨ d.main.outcome ≠ none
  idle : d.started = false → d.http = .off ∧ d.calls = 0 ∧ d.service.stage = .serving
  running : d.started = true → d.http ≠ .off
  early : d.main.early = true → d.started = false
  serving : d.main.serving = true → d.started = true
  stored : ∀ opened, d.main.stored = some opened → d.store = opened
  store : d.started = true → d.main.unwinding = false → d.store = true
  left : d.main.left = true → d.service.cancelled = true
  closing : d.main.closing = true → d.inShutdown = true
  drained : d.drained = true → d.calls = 0
  conns : d.conns ≤ d.calls
  inTime : d.main.closed = true → d.started = true → told.late ∨ d.drained = true
  waited : d.main.unwinding = true → d.started = true →
    d.service.stage = .returned ∧ d.http = .done
  busClosed : d.main.busClosed = true → d.bus = false
  storeClosed : d.main.storeClosed = true → d.store = false
  free : ∀ runErr, d.main = .returned runErr → d.conns = 0

section Sound

variable {told : Told E} {d d' : Daemon Peer E} {e : Event Peer E}

theorem sound_start (cfg : Config) :
    Sound told (start cfg : Daemon Peer E) where
  room _ := rfl
  alone := Nat.zero_le _
  sent _ := nofun
  ended _ := nofun
  lastErr _ _ := nofun
  outcome _ := nofun
  cancelled := nofun
  idle _ := ⟨rfl, rfl, rfl⟩
  running := nofun
  early _ := rfl
  serving := nofun
  stored _ same := Option.some.inj same
  store := nofun
  left := nofun
  closing := nofun
  drained := nofun
  conns := Nat.le_refl _
  inTime := nofun
  waited := nofun
  busClosed := nofun
  storeClosed := nofun
  free _ := nofun

/-- `run` goes on with its start. -/
theorem Sound.prepare {main : Main E} {store bus : Bool} (sound : Sound told d)
    (before : d.main.early = true) (early : main.early = true) (stored : main.stored = some store)
    (lastErr : ∀ attempt err, main = .retrying attempt err → told.refused (.connect attempt) err) :
    Sound told { d with main := main, store := store, bus := bus } := by
  have ahead : main.outcome = none ∧ main.serving = false ∧ main.left = false ∧
      main.closing = false ∧ main.closed = false ∧ main.unwinding = false ∧
      main.busClosed = false ∧ main.storeClosed = false := by
    cases main <;> first | exact ⟨rfl, rfl, rfl, rfl, rfl, rfl, rfl, rfl⟩ | cases early
  obtain ⟨outcome, serving, left, closing, closed, unwinding, busClosed, storeClosed⟩ := ahead
  refine { sound with
    lastErr := lastErr
    outcome := fun _ same => absurd (outcome.symm.trans same) nofun
    cancelled := fun done => .inl ((sound.cancelled done).resolve_right ?_)
    early := fun _ => sound.early before
    serving := fun same => absurd (serving.symm.trans same) nofun
    stored := fun _ same => Option.some.inj (stored.symm.trans same)
    store := fun started => absurd (started.symm.trans (sound.early before)) nofun
    left := fun same => absurd (left.symm.trans same) nofun
    closing := fun same => absurd (closing.symm.trans same) nofun
    inTime := fun same => absurd (closed.symm.trans same) nofun
    waited := fun same => absurd (unwinding.symm.trans same) nofun
    busClosed := fun same => absurd (busClosed.symm.trans same) nofun
    storeClosed := fun same => absurd (storeClosed.symm.trans same) nofun
    free := fun runErr same => ?_ }
  · exact fun decided => decided (Main.outcome_of_early before)
  · obtain rfl : main = .returned runErr := same
    cases early

/-- The servers are started. -/
theorem Sound.serve {op : Operation} (sound : Sound told d)
    (ready : d.main = .starting op) (last : op.next d.cfg = none) :
    Sound told
      { d with main := .selecting, started := true, http := .serving } := by
  obtain ⟨off, idle, -⟩ := sound.idle (sound.early (congrArg Main.early ready))
  have opened : d.store = true := by
    rw [sound.stored _ (congrArg Main.stored ready)]
    cases op <;> first | rfl | cases last
  exact { sound with
    room := fun _ => sound.room (by rw [off]; nofun)
    ended := fun _ => nofun
    lastErr := fun _ _ => nofun
    outcome := fun _ => nofun
    cancelled := fun done => .inl ((sound.cancelled done).resolve_right fun decided => decided
      (congrArg Main.outcome ready))
    idle := nofun
    running := fun _ => nofun
    early := nofun
    serving := fun _ => rfl
    stored := fun _ => nofun
    store := fun _ _ => opened
    left := nofun
    closing := nofun
    inTime := nofun
    waited := nofun
    busClosed := nofun
    storeClosed := nofun
    free := fun _ => nofun }

/-- `run` goes on between the start of its servers and their end, with what it will return. -/
theorem Sound.proceed {main : Main E} {inShutdown : Bool}
    (sound : Sound told d) (before : d.main.serving = true)
    (serving : main.serving = true)
    (outcome : ∀ runErr, main.outcome = some runErr →
      Explained told true runErr)
    (cancelled : d.service.cancelled = true → told.signalled ∨ main.outcome ≠ none)
    (left : main.left = true → d.service.cancelled = true)
    (closing : main.closing = true → inShutdown = true)
    (inTime : main.closed = true → told.late ∨ d.drained = true) :
    Sound told { d with main := main, inShutdown := inShutdown } := by
  have started := sound.serving before
  have late : d.main.unwinding = false := by
    cases main : d.main <;> rw [main] at before <;> first | rfl | cases before
  have still : main.early = false ∧ main.stored = none ∧ main.unwinding = false ∧
      main.busClosed = false ∧ main.storeClosed = false := by
    cases main <;> first | exact ⟨rfl, rfl, rfl, rfl, rfl⟩ | cases serving
  obtain ⟨started', stored, running, bus, store⟩ := still
  refine { sound with
    lastErr := fun attempt err same => ?_
    outcome := fun runErr same => ?_
    cancelled := cancelled
    early := fun early => ?_
    serving := fun _ => started
    stored := fun opened same => absurd (stored.symm.trans same) nofun
    store := fun _ _ => sound.store started late
    left := left
    closing := closing
    inTime := fun closed _ => inTime closed
    waited := fun unwinding => ?_
    busClosed := fun closed => ?_
    storeClosed := fun closed => ?_
    free := fun runErr same => ?_ }
  · obtain rfl : main = .retrying attempt err := same
    cases serving
  · rw [started]
    exact outcome runErr same
  · cases started'.symm.trans early
  · cases running.symm.trans unwinding
  · cases bus.symm.trans closed
  · cases store.symm.trans closed
  · obtain rfl : main = .returned runErr := same
    cases serving

/-- `run` is at its deferred calls, and has closed what it says. -/
theorem Sound.unwinding {main : Main E} {runErr : Option (Failure E)} {store bus : Bool}
    (sound : Sound told d) (unwinding : main.unwinding = true)
    (outcome : main.outcome = some runErr)
    (explained : Explained told d.started runErr)
    (waited : d.started = true → d.service.stage = .returned ∧ d.http = .done)
    (inTime : d.started = true → told.late ∨ d.drained = true)
    (busClosed : main.busClosed = true → bus = false)
    (storeClosed : main.storeClosed = true → store = false)
    (free : main = .returned runErr → d.conns = 0) :
    Sound told { d with main := main, store := store, bus := bus } := by
  have behind : main.early = false ∧ main.stored = none ∧ main.serving = false ∧
      main.left = false ∧ main.closing = false := by
    cases main <;> first | exact ⟨rfl, rfl, rfl, rfl, rfl⟩ | cases unwinding
  obtain ⟨started, stored, waiting, left, closing⟩ := behind
  refine { sound with
    lastErr := fun attempt err same => ?_
    outcome := fun runErr' same => ?_
    cancelled := fun _ => .inr ?_
    early := fun early => absurd (started.symm.trans early) nofun
    serving := fun serving => absurd (waiting.symm.trans serving) nofun
    stored := fun opened same => absurd (stored.symm.trans same) nofun
    store := fun _ running => absurd (running.symm.trans unwinding) nofun
    left := fun gone => absurd (left.symm.trans gone) nofun
    closing := fun called => absurd (closing.symm.trans called) nofun
    inTime := fun _ => inTime
    waited := fun _ => waited
    busClosed := busClosed
    storeClosed := storeClosed
    free := fun runErr' same => ?_ }
  · obtain rfl : main = .retrying attempt err := same
    cases unwinding
  · rw [outcome] at same
    exact Option.some.inj same ▸ explained
  · rw [outcome]
    exact Option.some_ne_none runErr
  · obtain rfl : main = .returned runErr' := same
    cases outcome
    exact free rfl

/-- `run` comes to its deferred calls. -/
theorem Sound.unwind (sound : Sound told d)
    (explained : Explained told d.started runErr)
    (running : d.main.unwinding = false)
    (waited : d.started = true → d.service.stage = .returned ∧ d.http = .done)
    (inTime : d.started = true → told.late ∨ d.drained = true) :
    Sound told { d with main := d.unwind runErr } := by
  rcases d.unwind_cases runErr with here | ⟨bus, here⟩ | ⟨bus, store, here⟩
  · rw [here]
    exact sound.unwinding rfl rfl explained waited inTime nofun nofun nofun
  · rw [here]
    exact sound.unwinding rfl rfl explained waited inTime (fun _ => bus) nofun nofun
  · rw [here]
    have free : d.conns = 0 := by
      cases started : d.started with
      | true => cases store.symm.trans (sound.store started running)
      | false => exact Nat.le_zero.mp ((sound.idle started).2.1 ▸ sound.conns)
    exact sound.unwinding rfl rfl explained waited inTime (fun _ => bus) (fun _ => store)
      fun _ => free

/-- A start that fails has started no servers. -/
theorem Sound.abort (sound : Sound told d) (early : d.main.early = true)
    (explained : Explained told false runErr) :
    Sound told { d with main := d.unwind runErr } := by
  have started := sound.early early
  have running : d.main.unwinding = false := by
    cases main : d.main <;> rw [main] at early <;> first | rfl | cases early
  refine sound.unwind (started ▸ explained) running ?_ ?_
  · rw [started]
    nofun
  · rw [started]
    nofun

/-- The goroutine of the API server goes on, before it sends. -/
theorem Sound.http {http : Http E} (sound : Sound told d)
    (ready : d.http ≠ .done) (off : d.http ≠ .off) (on : http ≠ .off)
    (ended : ∀ err, http = .ended (some err) → told.failed err) :
    Sound told { d with http := http } :=
  { sound with
    room := fun _ => sound.room ready
    ended := ended
    idle := fun never => absurd (sound.idle never).1 off
    running := fun _ => on
    waited := fun unwinding started => absurd (sound.waited unwinding started).2 ready }

/-- It ends, when it has sent what there is to send. -/
theorem Sound.finish {errCh : List E} (sound : Sound told d)
    (off : d.http ≠ .off) (alone : errCh.length ≤ 1) (sent : ∀ err ∈ errCh, told.failed err) :
    Sound told { d with http := .done, errCh := errCh } :=
  { sound with
    room := fun never => absurd rfl never
    alone := alone
    sent := sent
    ended := fun _ => nofun
    idle := fun never => absurd (sound.idle never).1 off
    running := fun _ => nofun
    waited := fun unwinding started => ⟨(sound.waited unwinding started).1, rfl⟩ }

/-- The context is cancelled, for a reason. -/
theorem Sound.cancel (sound : Sound told d)
    (reason : told.signalled ∨ d.main.outcome ≠ none) :
    Sound told
      { d with service := { d.service with cancelled := true } } :=
  { sound with cancelled := fun _ => reason, left := fun _ => rfl }

/-- The DNS server takes a step of its own. -/
theorem Sound.dns {happens : Happening Peer} {service : Service Peer}
    (sound : Sound told d) (running : d.started = true)
    (step : DNS.Step d.service happens service) (inner : happens ≠ .cancelled) :
    Sound told { d with service := service } := by
  have same := cancelled_of_step step inner
  refine { sound with
    cancelled := ?_
    idle := fun never => absurd (running.symm.trans never) nofun
    left := ?_
    waited := fun unwinding started => ?_ }
  · rw [same]
    exact sound.cancelled
  · rw [same]
    exact sound.left
  · obtain ⟨dns, http⟩ := sound.waited unwinding started
    exact ⟨returned_of_step step dns, http⟩

/-- `run` takes the error that was sent, and the channel is empty. -/
theorem Sound.receive {err : E} {rest : List E} (sound : Sound told d)
    (ready : d.main = .selecting) (sent : d.errCh = err :: rest) :
    Sound told { d with main := .stopping err, errCh := rest } := by
  have known : told.failed err := sound.sent err (sent ▸ mem_cons_self)
  obtain rfl : rest = [] := by
    have alone := sound.alone
    rw [sent, length_cons] at alone
    exact eq_nil_of_length_eq_zero (by omega)
  have taken : Sound told { d with errCh := [] } :=
    { sound with room := fun _ => rfl, alone := Nat.zero_le _, sent := forall_mem_nil _ }
  refine taken.proceed (congrArg Main.serving ready) rfl (fun runErr same => ?_) (fun _ => .inr ?_)
    nofun nofun nofun
  · cases same
    exact ⟨known, rfl⟩
  · exact Option.some_ne_none _

/-- `run` goes on with what it will return, once that is decided. -/
theorem Sound.carry {main : Main E} {inShutdown : Bool}
    (sound : Sound told d) (before : d.main.serving = true)
    (serving : main.serving = true) (same : main.outcome = d.main.outcome)
    (left : main.left = true → d.service.cancelled = true)
    (closing : main.closing = true → inShutdown = true)
    (inTime : main.closed = true → told.late ∨ d.drained = true) :
    Sound told { d with main := main, inShutdown := inShutdown } := by
  refine sound.proceed before serving (fun runErr decided => ?_) ?_ left closing inTime
  · rw [same] at decided
    exact sound.serving before ▸ sound.outcome runErr decided
  · rw [same]
    exact sound.cancelled

theorem Step.sound (step : Step d e d') (among : e.Among told)
    (sound : Sound told d) : Sound told d' := by
  cases step with
  | dns running step inner => exact sound.dns running step inner
  | signal listened => exact sound.cancel (.inl among)
  | @succeed op next ready more =>
      refine sound.prepare (congrArg Main.early ready) rfl (congrArg some ?_) nofun
      rw [sound.stored _ (congrArg Main.stored ready)]
      -- an operation after the one that opens the database finds it open
      cases op <;> cases more <;> first | rfl | split <;> rfl
  | serve ready last => exact sound.serve ready last
  | refuse ready once err => exact sound.abort (congrArg Main.early ready) ⟨among, rfl⟩
  | retry ready err =>
      refine sound.prepare (congrArg Main.early ready) rfl ?_ fun _ _ same => ?_
      · exact congrArg some (sound.stored _ (congrArg Main.stored ready)).symm
      · cases same
        exact among
  | again ready more =>
      exact sound.prepare (congrArg Main.early ready) rfl
        (congrArg some (sound.stored _ (congrArg Main.stored ready)).symm) nofun
  | @giveUp attempt lastErr ready last =>
      exact sound.abort (congrArg Main.early ready) ⟨sound.lastErr attempt lastErr ready, rfl⟩
  | breakOff ready done =>
      have asked : told.signalled := (sound.cancelled done).resolve_right fun decided =>
        decided (congrArg Main.outcome ready)
      exact sound.abort (congrArg Main.early ready) ⟨asked, rfl⟩
  | fail ready opened err =>
      refine sound.http (by rw [ready]; nofun) (by rw [ready]; nofun) nofun fun err' same => ?_
      cases same
      exact among
  | close ready closed =>
      exact sound.http (by rw [ready]; nofun) (by rw [ready]; nofun) nofun nofun
  | @send err ready space =>
      have empty : d.errCh = [] := sound.room (by rw [ready]; nofun)
      apply sound.finish
      · rw [ready]
        nofun
      · rw [empty]
        exact Nat.le_refl 1
      · rw [empty]
        exact forall_mem_singleton.mpr (sound.ended err ready)
  | finish ready => exact sound.finish (by rw [ready]; nofun) sound.alone sound.sent
  | call running opened =>
      exact { sound with
        idle := fun never => absurd (running.symm.trans never) nofun
        drained := fun drained => absurd (opened.symm.trans drained) nofun
        conns := Nat.le_succ_of_le sound.conns }
  | acquire pool more =>
      exact { sound with
        conns := more
        free := fun runErr returned =>
          absurd (pool.symm.trans (sound.storeClosed (by rw [returned]; rfl))) nofun }
  | release busy =>
      have fewer := sound.conns
      rw [busy] at fewer
      exact { sound with
        conns := Nat.le_of_succ_le fewer
        free := fun runErr returned => absurd (busy.symm.trans (sound.free runErr returned)) nofun }
  | answer busy free =>
      exact { sound with
        idle := fun never => absurd (busy.symm.trans (sound.idle never).2.1) nofun
        drained := fun drained => absurd (busy.symm.trans (sound.drained drained)) nofun
        conns := free }
  | interrupt ready done =>
      -- nobody but a signal cancels before `run` has left its select
      have asked : told.signalled := (sound.cancelled done).resolve_right fun decided =>
        decided (congrArg Main.outcome ready)
      refine sound.proceed (congrArg Main.serving ready) rfl (fun runErr same => ?_)
        (fun _ => .inl asked) (fun _ => done) nofun nofun
      cases same
      exact ⟨asked, rfl⟩
  | receive ready sent => exact sound.receive ready sent
  | @stop err ready =>
      have cancelled := sound.cancel (.inr (by rw [ready]; nofun))
      exact cancelled.carry (congrArg Main.serving ready) rfl (congrArg Main.outcome ready).symm
        (fun _ => rfl) nofun nofun
  | shutdown ready =>
      exact sound.carry (congrArg Main.serving ready) rfl (congrArg Main.outcome ready).symm
        (fun _ => sound.left (congrArg Main.left ready)) (fun _ => rfl) nofun
  | elapse ready => exact { sound with }
  | drain ready idle =>
      have idled : Sound told { d with drained := true } :=
        { sound with drained := fun _ => idle, inTime := fun _ _ => .inr rfl }
      exact idled.carry (congrArg Main.serving ready) rfl (congrArg Main.outcome ready).symm
        (fun _ => sound.left (congrArg Main.left ready))
        (fun _ => sound.closing (congrArg Main.closing ready)) fun _ => .inr rfl
  | timeOut ready passed =>
      exact sound.carry (congrArg Main.serving ready) rfl (congrArg Main.outcome ready).symm
        (fun _ => sound.left (congrArg Main.left ready))
        (fun _ => sound.closing (congrArg Main.closing ready)) fun _ => .inl among
  | @wait runErr ready dns http =>
      exact sound.unwind (sound.outcome runErr (congrArg Main.outcome ready))
        (congrArg Main.unwinding ready) (fun _ => ⟨dns, http⟩)
        (sound.inTime (congrArg Main.closed ready))
  | @closeBus runErr ready =>
      exact sound.unwinding rfl rfl (sound.outcome runErr (congrArg Main.outcome ready))
        (sound.waited (congrArg Main.unwinding ready)) (sound.inTime (congrArg Main.closed ready))
        (fun _ => rfl) nofun nofun
  | @closeStore runErr ready =>
      exact sound.unwinding rfl rfl (sound.outcome runErr (congrArg Main.outcome ready))
        (sound.waited (congrArg Main.unwinding ready)) (sound.inTime (congrArg Main.closed ready))
        (fun _ => sound.busClosed (congrArg Main.busClosed ready)) (fun _ => rfl) nofun
  | @leave runErr ready free =>
      exact sound.unwinding rfl rfl (sound.outcome runErr (congrArg Main.outcome ready))
        (sound.waited (congrArg Main.unwinding ready)) (sound.inTime (congrArg Main.closed ready))
        (fun _ => sound.busClosed (congrArg Main.busClosed ready))
        (fun _ => sound.storeClosed (congrArg Main.storeClosed ready)) fun _ => free

theorem Runs.sound {events : List (Event Peer E)} (run : Runs d events d')
    (among : ∀ e ∈ events, e.Among told)
    (sound : Sound told d) : Sound told d' := by
  induction run with
  | nil => exact sound
  | snoc run step ih =>
      rw [forall_mem_append, forall_mem_singleton] at among
      exact step.sound among.2 (ih among.1)

end Sound

/-- What is said of the events of a run is what is so. -/
theorem Runs.sound_start (run : Runs (start cfg) events d) :
    Sound
      { refused := fun op err => .refused op err ∈ events
        failed := fun err => .failed err ∈ events
        signalled := .signal ∈ events
        late := .timedOut ∈ events } d := by
  refine run.sound (fun e member => ?_) (Daemon.sound_start cfg)
  cases e with
  | refused | failed | signal | timedOut => exact member
  | _ => trivial

/-! ## Going on -/

/-- Someone has asked `run` to stop, or it is about to. -/
def Alarmed (d : Daemon Peer E) : Prop :=
  d.service.cancelled = true ∨ d.errCh ≠ [] ∨ (∃ err, d.http = .ended (some err)) ∨
    d.main.outcome ≠ none

theorem outcome_unwind (d : Daemon Peer E) (runErr : Option (Failure E)) :
    (d.unwind runErr).outcome = some runErr := by
  rcases d.unwind_cases runErr with here | ⟨-, here⟩ | ⟨-, -, here⟩ <;> rw [here] <;> rfl

theorem unwind_ne_none (d : Daemon Peer E) (runErr : Option (Failure E)) :
    (d.unwind runErr).outcome ≠ none := by
  rw [outcome_unwind]
  exact Option.some_ne_none runErr

section Alarmed

variable {told : Told E} {d d' : Daemon Peer E} {e : Event Peer E}

/-- Before the servers are started, only a signal alarms. -/
theorem cancelled_of_alarmed (sound : Sound told d)
    (early : d.main.early = true) (alarmed : d.Alarmed) : d.service.cancelled = true := by
  obtain ⟨off, -⟩ := sound.idle (sound.early early)
  rcases alarmed with done | sent | ⟨err, ended⟩ | decided
  · exact done
  · exact absurd (sound.room (by rw [off]; nofun)) sent
  · cases off.symm.trans ended
  · exact absurd (Main.outcome_of_early early) decided

theorem Step.alarmed (step : Step d e d') (sound : Sound told d)
    (alarmed : d.Alarmed) : d'.Alarmed := by
  cases step with
  | dns running step inner =>
      rw [Alarmed, cancelled_of_step step inner]
      exact alarmed
  | signal | stop => exact .inl rfl
  | succeed ready | serve ready | retry ready | again ready =>
      have done := cancelled_of_alarmed sound (congrArg Main.early ready) alarmed
      exact .inl done
  | refuse | giveUp | breakOff | wait => exact .inr (.inr (.inr (unwind_ne_none d _)))
  | fail ready opened err => exact .inr (.inr (.inl ⟨err, rfl⟩))
  | close ready | finish ready =>
      refine alarmed.imp_right (Or.imp_right (Or.imp_left ?_))
      rintro ⟨err, ended⟩
      rw [ready] at ended
      cases ended
  | send => exact .inr (.inl (append_ne_nil_of_right_ne_nil _ (cons_ne_nil _ _)))
  | call | acquire | release | answer | elapse => exact alarmed
  | interrupt | receive | shutdown | drain | timeOut | closeBus | closeStore | leave =>
      exact .inr (.inr (.inr nofun))

end Alarmed

/-- **A signal and a failure are both alarms.** -/
theorem Runs.alarmed (run : Runs (start cfg) events d)
    (asked : .signal ∈ events ∨ ∃ err, .failed err ∈ events) : d.Alarmed := by
  induction run with
  | nil => rcases asked with never | ⟨err, never⟩ <;> cases never
  | snoc run step ih =>
      simp only [mem_append, mem_singleton] at asked
      rcases asked with (before | last) | ⟨err, before | last⟩
      · exact step.alarmed run.sound_start (ih (.inl before))
      · subst last
        cases step
        exact .inl rfl
      · exact step.alarmed run.sound_start (ih (.inr ⟨err, before⟩))
      · subst last
        cases step
        exact .inr (.inr (.inl ⟨err, rfl⟩))

/-- Steps of the daemon itself. -/
def Event.work : Event Peer E → Nat
  | .dns happens => happens.work
  | .stopped | .timedOut | .internal => 1
  | _ => 0

/-- Steps of the world that `run` may wait for. -/
def Event.answers : Event Peer E → Bool
  | .accomplished _ | .elapsed | .released => true
  | _ => false

/-- `run` waits for the world: for an operation of its start, for API calls as long as `Shutdown`
has time, or for their connections. -/
inductive Waits (d : Daemon Peer E) : Prop where
  | operation {op : Operation} (starting : d.main = .starting op)
  | calls {runErr : Option (Failure E)} (draining : d.main = .draining runErr)
      (busy : 0 < d.calls) (inTime : d.expired = false)
  | conns {runErr : Option (Failure E)} (releasing : d.main = .releasing runErr)
      (busy : 0 < d.conns)

/-! ## How long it takes -/

def Operation.weight : Operation → Nat
  | .load => 7
  | .connect _ => 6
  | .migrate => 5
  | .connectBus => 4
  | .subscribe => 3
  | .listen => 2
  | .listenAPI => 1

theorem Operation.weight_next {op next : Operation} (more : op.next cfg = some next) :
    next.weight < op.weight := by
  cases op with
  | load | connect | subscribe | listen =>
      cases more
      exact Nat.lt_succ_self _
  | migrate | connectBus =>
      cases more
      split <;> decide
  | listenAPI => cases more

def Main.weight : Main E → Nat
  | .starting op => 9 + op.weight
  | .retrying _ _ => 9
  | .selecting => 8
  | .stopping _ => 7
  | .leaving _ => 6
  | .draining _ => 5
  | .waiting _ => 4
  | .closingBus _ => 3
  | .closingStore _ => 2
  | .releasing _ => 1
  | .returned _ => 0

def Http.weight : Http E → Nat
  | .off | .serving => 2
  | .ended _ => 1
  | .done => 0

theorem weight_unwind (d : Daemon Peer E) (runErr : Option (Failure E)) :
    (d.unwind runErr).weight ≤ 3 := by
  rcases d.unwind_cases runErr with here | ⟨-, here⟩ | ⟨-, -, here⟩ <;> rw [here] <;>
    simp only [Main.weight, Nat.reduceLeDiff, Nat.le_refl, Nat.zero_le]

/-- What the daemon has to do until `run` returns. -/
def weight (d : Daemon Peer E) : Nat := d.service.weight + d.main.weight + d.http.weight

/-- And what the world has to. -/
def pending (d : Daemon Peer E) : Nat := d.weight + d.conns + if d.expired then 0 else 1

/-- Some goroutine can go on by itself, or `run` waits and what it waits for comes, and less is
left. -/
def Advances (d : Daemon Peer E) : Prop :=
  ∃ e d', Step d e d' ∧ d'.pending < d.pending ∧ (e.work = 1 ∨ d.Waits ∧ e.answers = true)

section Advances

variable {told : Told E} {d : Daemon Peer E}

/-- `run` goes on. -/
theorem advances_main {e : Event Peer E} {main : Main E} (step : Step d e d')
    (own : e.work = 1 ∨ d.Waits ∧ e.answers = true) (service : d'.service.weight = d.service.weight)
    (http : d'.http.weight ≤ d.http.weight) (conns : d'.conns = d.conns)
    (expired : d'.expired = d.expired) (here : d.main = main)
    (less : d'.main.weight < main.weight) :
    d.Advances := by
  refine ⟨e, d', step, ?_, own⟩
  simp only [pending, weight, service, conns, expired, here]
  omega

/-- The DNS server goes on once it is cancelled. -/
theorem advances_dns (orderly : d.service.Orderly) (started : d.started = true)
    (cancelled : d.service.cancelled = true) (running : d.service.stage ≠ .returned) :
    d.Advances := by
  obtain ⟨happens, s, step, own, less⟩ := orderly.advances cancelled running
  have inner : happens ≠ .cancelled := by
    rintro rfl
    cases own
  refine ⟨_, _, .dns started step inner, ?_, .inl own⟩
  simp only [pending, weight]
  omega

/-- The goroutine of the API server goes on. -/
theorem advances_step {http : Http E} {errCh : List E}
    (step : Step d .internal { d with http := http, errCh := errCh })
    (less : http.weight < d.http.weight) : d.Advances := by
  refine ⟨_, _, step, ?_, .inl rfl⟩
  simp only [pending, weight]
  omega

/-- The API server goes on once it has failed or is shut down. -/
theorem advances_http (sound : Sound told d) (started : d.started = true)
    (running : d.http ≠ .done) (closed : d.http = .serving → d.inShutdown = true) :
    d.Advances := by
  cases http : d.http with
  | off => exact absurd http (sound.running started)
  | serving => exact advances_step (.close http (closed http)) (http ▸ Nat.le_refl _)
  | done => exact absurd http running
  | ended err =>
      cases err with
      | none => exact advances_step (.finish http) (http ▸ Nat.le_refl _)
      | some err =>
          -- the channel holds two errors and nobody else sends
          have space : d.errCh.length < 2 := by
            rw [sound.room running]
            exact Nat.zero_lt_two
          exact advances_step (.send http space) (http ▸ Nat.le_refl _)

/-- `run` leaves its select when it is asked to. -/
theorem advances_selecting (sound : Sound told d) (alarmed : d.Alarmed)
    (ready : d.main = .selecting) : d.Advances := by
  rcases alarmed with done | sent | ⟨err, ended⟩ | decided
  · exact advances_main (.interrupt ready done) (.inl rfl) rfl (Nat.le_refl _) rfl rfl ready
      (show 6 < 8 by decide)
  · obtain ⟨err, rest, sent⟩ := exists_cons_of_ne_nil sent
    exact advances_main (.receive ready sent) (.inl rfl) rfl (Nat.le_refl _) rfl rfl ready
      (Nat.lt_succ_self 7)
  · apply advances_http sound (sound.serving (congrArg Main.serving ready))
    · rw [ended]
      nofun
    · intro serving
      rw [serving] at ended
      cases ended
  · rw [ready] at decided
    exact absurd rfl decided

/-- An operation of the start succeeds. -/
theorem advances_starting {op : Operation} (ready : d.main = .starting op)
    (sound : Sound told d) : d.Advances := by
  have waits : d.Waits := .operation ready
  cases next : op.next d.cfg with
  | some other =>
      refine advances_main (.succeed ready next) (.inr ⟨waits, rfl⟩) rfl (Nat.le_refl _) rfl rfl
        ready ?_
      exact Nat.add_lt_add_left (Operation.weight_next next) 9
  | none =>
      have off := (sound.idle (sound.early (congrArg Main.early ready))).1
      refine advances_main (.serve ready next) (.inr ⟨waits, rfl⟩) rfl ?_ rfl rfl ready ?_
      · rw [off]
        exact Nat.le_refl _
      · exact Nat.lt_add_right op.weight (Nat.lt_succ_self 8)

/-- `Shutdown` returns when the API server is idle or its time is over. -/
theorem advances_draining (ready : d.main = .draining runErr) : d.Advances := by
  by_cases idle : d.calls = 0
  · exact advances_main (.drain ready idle) (.inl rfl) rfl (Nat.le_refl _) rfl rfl ready
      (Nat.lt_succ_self 4)
  · cases expired : d.expired with
    | true =>
        exact advances_main (.timeOut ready expired) (.inl rfl) rfl (Nat.le_refl _) rfl rfl ready
          (Nat.lt_succ_self 4)
    | false =>
        refine ⟨_, _, .elapse ready, ?_, .inr ⟨.calls ready (by omega) expired, rfl⟩⟩
        simp only [pending, weight, expired, if_true, Bool.false_eq_true, if_false]
        omega

/-- The pool closes when all connections are released. -/
theorem advances_releasing (ready : d.main = .releasing runErr) : d.Advances := by
  cases conns : d.conns with
  | zero =>
      exact advances_main (.leave ready conns) (.inl rfl) rfl (Nat.le_refl _) rfl rfl ready
        (Nat.lt_succ_self 0)
  | succ n =>
      refine ⟨_, _, .release conns, ?_, .inr ⟨.conns ready (by omega), rfl⟩⟩
      simp only [pending, weight, conns]
      omega

/-- **Until `run` has returned, someone can go on, or the world owes it an answer.** -/
theorem advances (sound : Sound told d) (orderly : d.service.Orderly)
    (alarmed : d.Alarmed) : (∃ runErr, d.main = .returned runErr) ∨ d.Advances := by
  cases main : d.main with
  | starting op => exact .inr (advances_starting main sound)
  | retrying attempt lastErr =>
      have done := cancelled_of_alarmed sound (congrArg Main.early main) alarmed
      have few := d.weight_unwind (some .canceled)
      refine .inr (advances_main (.breakOff main done) (.inl rfl) rfl (Nat.le_refl _) rfl rfl main
        (Nat.lt_of_le_of_lt few ?_))
      exact (show 3 < 9 by decide)
  | selecting => exact .inr (advances_selecting sound alarmed main)
  | stopping err =>
      exact .inr (advances_main (.stop main) (.inl rfl) rfl (Nat.le_refl _) rfl rfl main
        (Nat.lt_succ_self 6))
  | leaving runErr =>
      exact .inr (advances_main (.shutdown main) (.inl rfl) rfl (Nat.le_refl _) rfl rfl main
        (Nat.lt_succ_self 5))
  | draining runErr => exact .inr (advances_draining main)
  | waiting runErr =>
      refine .inr ?_
      have started := sound.serving (congrArg Main.serving main)
      by_cases http : d.http = .done
      · by_cases dns : d.service.stage = .returned
        · refine advances_main (.wait main dns http) (.inl rfl) rfl (Nat.le_refl _) rfl rfl main ?_
          exact Nat.lt_succ_of_le (d.weight_unwind runErr)
        · exact advances_dns orderly started (sound.left (congrArg Main.left main)) dns
      · exact advances_http sound started http fun _ =>
          sound.closing (congrArg Main.closing main)
  | closingBus runErr =>
      exact .inr (advances_main (.closeBus main) (.inl rfl) rfl (Nat.le_refl _) rfl rfl main
        (Nat.lt_succ_self 2))
  | closingStore runErr =>
      exact .inr (advances_main (.closeStore main) (.inl rfl) rfl (Nat.le_refl _) rfl rfl main
        (Nat.lt_succ_self 1))
  | releasing runErr => exact .inr (advances_releasing main)
  | returned runErr => exact .inl ⟨runErr, rfl⟩

end Advances

/-- **`run` comes to its return by its own steps and the answers it waits for.** -/
theorem Runs.returns (run : Runs (start cfg) events d) (alarmed : d.Alarmed) :
    ∃ later d', Runs d later d' ∧ (∀ e ∈ later, e.work = 1 ∨ e.answers = true) ∧
      ∃ runErr, d'.main = .returned runErr := by
  -- each step leaves fewer to do
  induction left : d.pending using Nat.strong_induction_on generalizing d events with
  | _ n ih =>
      have orderly := run.serves.orderly (Service.orderly_start cfg.workers)
      rcases advances run.sound_start orderly alarmed with returned | ⟨e, next, step, less, own⟩
      · exact ⟨[], d, .nil, nofun, returned⟩
      · obtain ⟨later, d', rest, mine, done⟩ := ih next.pending (left ▸ less) (run.snoc step)
          (step.alarmed run.sound_start alarmed) rfl
        exact ⟨_, d', (Runs.nil.snoc step).trans rest,
          forall_mem_cons.mpr ⟨own.imp_right And.right, mine⟩, done⟩

section Bound

variable {told : Told E} {d d' : Daemon Peer E} {e : Event Peer E}

theorem Step.started (step : Step d e d') (started : d.started = true) : d'.started = true := by
  cases step <;> first | exact started | rfl

/-- Once the servers are started, every step of the daemon is one less to do when nothing can
arrive any more. -/
theorem Step.weight (step : Step d e d') (sound : Sound told d)
    (orderly : d.service.Orderly) (closed : d.service.stage.tcpClosed = true)
    (shut : d.service.Shut) (started : d.started = true) :
    d'.weight + e.work ≤ d.weight ∧ d'.service.stage.tcpClosed = true ∧ d'.service.Shut := by
  have late : ∀ {m : Main E}, d.main = m → m.early ≠ true := by
    rintro m rfl early
    cases started.symm.trans (sound.early early)
  cases step with
  | dns running step inner =>
      obtain ⟨less, still⟩ := step.weight orderly closed
      obtain ⟨shut', silent⟩ := step.shut shut
      refine ⟨?_, still, shut'⟩
      simp only [Daemon.weight, Event.work]
      omega
  | succeed ready | serve ready | refuse ready | retry ready | again ready | giveUp ready
  | breakOff ready => exact absurd rfl (late ready)
  | signal | call | acquire | release | answer | elapse =>
      exact ⟨Nat.le_refl _, closed, shut.acceptor, shut.conns⟩
  | @wait runErr ready =>
      have few := d.weight_unwind runErr
      refine ⟨?_, closed, shut⟩
      simp only [Daemon.weight, ready, Event.work]
      change _ + (d.unwind runErr).weight + _ + 1 ≤ _ + 4 + _
      omega
  | fail ready | close ready | send ready | finish ready | interrupt ready | receive ready
  | stop ready | shutdown ready | drain ready | timeOut ready | closeBus ready | closeStore ready
  | leave ready =>
      refine ⟨?_, closed, shut.acceptor, shut.conns⟩
      simp only [Daemon.weight, ready, Main.weight, Http.weight, Event.work, Service.weight]
      omega

theorem Runs.weight {later : List (Event Peer E)} (run : Runs (start cfg) events d)
    (rest : Runs d later d') (closed : d.service.stage.tcpClosed = true) (shut : d.service.Shut)
    (started : d.started = true) :
    d'.weight + (later.map Event.work).sum ≤ d.weight ∧ d'.service.stage.tcpClosed = true ∧
      d'.service.Shut ∧ d'.started = true := by
  induction rest with
  | nil => exact ⟨Nat.le_refl _, closed, shut, started⟩
  | snoc rest step ih =>
      obtain ⟨bound, closed', shut', started'⟩ := ih
      have whole := run.trans rest
      have orderly := whole.serves.orderly (Service.orderly_start cfg.workers)
      obtain ⟨less, closed'', shut''⟩ :=
        step.weight whole.sound_start orderly closed' shut' started'
      refine ⟨?_, closed'', shut'', step.started started'⟩
      simp only [map_append, sum_append, map_cons, map_nil, sum_cons, sum_nil]
      omega

/-- The servers of a daemon whose sockets are closed have been started. -/
theorem Sound.started (sound : Sound told d)
    (closed : d.service.stage.tcpClosed = true) : d.started = true := by
  cases started : d.started with
  | true => rfl
  | false =>
      rw [(sound.idle started).2.2] at closed
      cases closed

end Bound

/-! ## Results -/

/-- **What `run` leaves when it returns.** What it opened is closed, and no API call has a
connection. If it has started its servers, no goroutine of them, no datagram without a fate and no
API call is left, but for a shutdown that took too long; the error it returns is one that the API
server has failed with, and it returns none only if it was signalled. If it has not, the error is
that of an operation of the start or the cancellation by a signal. -/
theorem returned_of_run {cfg : Config} {events : List (Event Peer E)} {d : Daemon Peer E}
    {runErr : Option (Failure E)} (run : Runs (start cfg) events d)
    (returned : d.main = .returned runErr) :
    d.bus = false ∧ d.store = false ∧ d.conns = 0 ∧
      (d.started = true →
        d.http = .done ∧ d.service.reader = .stopped ∧ d.service.acceptor = .stopped ∧
          (∀ w ∈ d.service.workers, w = .finished) ∧
          (∀ c ∈ d.service.conns, c.talk = .finished) ∧
          (∃ settled, Account (events.flatMap Event.seen) [] settled) ∧
          (.timedOut ∉ events → d.calls = 0) ∧
          (runErr = none ∧ .signal ∈ events ∨
            ∃ err, runErr = some (.api err) ∧ .failed err ∈ events)) ∧
      (d.started = false →
        (∃ op err, runErr = some (.start op err) ∧ .refused op err ∈ events) ∨
          runErr = some .canceled ∧ .signal ∈ events) := by
  have sound := run.sound_start
  have explained := sound.outcome runErr (congrArg Main.outcome returned)
  refine ⟨sound.busClosed (congrArg Main.busClosed returned),
    sound.storeClosed (congrArg Main.storeClosed returned), sound.free runErr returned,
    fun started => ?_, fun early => ?_⟩
  · obtain ⟨dns, http⟩ := sound.waited (congrArg Main.unwinding returned) started
    have orderly := run.serves.orderly (Service.orderly_start cfg.workers)
    obtain ⟨reader, acceptor, jobs, done, conns⟩ := orderly.idle dns
    have idle := idle_parties reader jobs done conns
    have settled := run.serves.settled fun p member => (idle p member).2
    refine ⟨http, reader, acceptor, done, conns, settled, fun inTime => ?_, ?_⟩
    · have drained := sound.inTime (congrArg Main.closed returned) started
      exact sound.drained (drained.resolve_left inTime)
    · rw [started] at explained
      match runErr with
      | none => exact .inl ⟨rfl, explained.1⟩
      | some (.start op err) => cases explained.2
      | some .canceled => cases explained.2
      | some (.api err) => exact .inr ⟨err, rfl, explained.1⟩
  · rw [early] at explained
    match runErr with
    | none => cases explained.2
    | some (.start op err) => exact .inl ⟨op, err, rfl, explained.1⟩
    | some .canceled => exact .inr ⟨rfl, explained.1⟩
    | some (.api err) => cases explained.2

/-- A daemon with a bus and a cache whose database is not there at once, and that is signalled as
soon as its servers have started. -/
theorem runs_signalled : ∃ (events : List (Event Nat Unit)) (d : Daemon Nat Unit),
    Runs (start { workers := 1, cacheEnabled := true, nats := true }) events d ∧
      .refused (.connect 1) () ∈ events ∧ .signal ∈ events ∧ d.started = true ∧
      d.main = .returned none := by
  have loaded := Runs.nil.snoc
    (Step.succeed rfl rfl : Step (start ⟨1, true, true⟩ : Daemon Nat Unit) _ _)
  have refused := (loaded.snoc (.retry rfl ())).snoc (.again rfl (by decide))
  have opened := (refused.snoc (.succeed rfl rfl)).snoc (.succeed rfl rfl)
  have bus := (opened.snoc (.succeed rfl rfl)).snoc (.succeed rfl rfl)
  have started := (bus.snoc (.succeed rfl rfl)).snoc (.serve rfl rfl)
  have signalled := started.snoc (.signal nofun)
  have sockets := ((signalled.snoc (.dns rfl (.shutDown rfl rfl) nofun)).snoc
    (.dns rfl (.closeUDP rfl) nofun)).snoc (.dns rfl (.closeTCP rfl) nofun)
  have reader := ((sockets.snoc (.dns rfl (.reader (.get .fresh)) nofun)).snoc
    (.dns rfl (.reader (.fail _ (.inl rfl))) nofun)).snoc (.dns rfl (.reader (.put _ _)) nofun)
  have jobs := (reader.snoc (.dns rfl (.acceptFails rfl (.inl rfl)) nofun)).snoc
    (.dns rfl (.closeJobs rfl rfl rfl) nofun)
  have worker := jobs.snoc (.dns rfl (.finish (show _ = [] ++ _ :: [] from rfl) rfl rfl) nofun)
  have workers := worker.snoc
    (.dns rfl (.workersDone rfl (by rintro w (_ | ⟨_, ⟨⟩⟩); rfl)) nofun)
  have dns := workers.snoc (.dns rfl (.connsDone rfl nofun) nofun)
  have left := (dns.snoc (.interrupt rfl rfl)).snoc (.shutdown rfl)
  have http := (left.snoc (.close rfl rfl)).snoc (.finish rfl)
  have waited := (http.snoc (.drain rfl rfl)).snoc (.wait rfl rfl rfl)
  have closed := (waited.snoc (.closeBus rfl)).snoc (.closeStore rfl)
  exact ⟨_, _, closed.snoc (.leave rfl rfl), by simp, by simp, rfl, rfl⟩

theorem returned_of_run_signalled : ∃ (events : List (Event Nat Unit)) (d : Daemon Nat Unit),
    Runs (start { workers := 1, cacheEnabled := true, nats := true }) events d ∧
      d.main = .returned none ∧ d.store = false ∧ d.conns = 0 ∧ d.http = .done ∧
      (∀ w ∈ d.service.workers, w = .finished) ∧
      (∃ settled, Account (events.flatMap Event.seen) [] settled) ∧ .signal ∈ events := by
  obtain ⟨events, d, run, -, signalled, started, returned⟩ := runs_signalled
  obtain ⟨-, store, conns, served, -⟩ := returned_of_run run returned
  obtain ⟨http, -, -, workers, -, settled, -⟩ := served started
  exact ⟨events, d, run, returned, store, conns, http, workers, settled, signalled⟩

/-- **`run` returns.** Once a signal has come or the API server has failed, someone can go on until
it has returned, or it waits for the world; and it comes to its return by the steps of the daemon
and the answers it waits for. Once the sockets and connections of the DNS server are closed, the
steps of the daemon are bounded, whatever arrives. -/
theorem run_completes {cfg : Config} {events : List (Event Peer E)} {d : Daemon Peer E}
    (run : Runs (start cfg) events d) (asked : .signal ∈ events ∨ ∃ err, .failed err ∈ events) :
    ((∃ runErr, d.main = .returned runErr) ∨ (∃ e d', Step d e d' ∧ e.work = 1) ∨ d.Waits) ∧
      (∃ later d', Runs d later d' ∧ (∀ e ∈ later, e.work = 1 ∨ e.answers = true) ∧
        ∃ runErr, d'.main = .returned runErr) ∧
      ∀ later d', d.service.stage.tcpClosed = true → d.service.Shut → Runs d later d' →
        (later.map Event.work).sum ≤
          102 * d.service.workers.length + 10 * d.service.slots + 23 := by
  have sound := run.sound_start
  have orderly := run.serves.orderly (Service.orderly_start cfg.workers)
  have alarmed := run.alarmed asked
  refine ⟨?_, run.returns alarmed, fun later d' closed shut rest => ?_⟩
  · rcases advances sound orderly alarmed with returned | ⟨e, d', step, -, own | ⟨waits, -⟩⟩
    · exact .inl returned
    · exact .inr (.inl ⟨e, d', step, own⟩)
    · exact .inr (.inr waits)
  · have started := sound.started closed
    obtain ⟨bound, -⟩ := run.weight rest closed shut started
    have dns := shut.weight_le orderly closed
    have main : d.main.weight ≤ 8 := by
      cases main : d.main with
      | starting | retrying =>
          cases started.symm.trans (sound.early (congrArg Main.early main))
      | _ => simp only [Main.weight, Nat.reduceLeDiff, Nat.le_refl]
    have http : d.http.weight ≤ 2 := by
      cases d.http <;> simp only [Http.weight, Nat.reduceLeDiff, Nat.le_refl]
    simp only [Daemon.weight] at bound
    omega

theorem run_completes_signalled : ∃ (events later : List (Event Nat Unit)) (d d' : Daemon Nat Unit),
    Runs (start { workers := 1, cacheEnabled := true, nats := true }) events d ∧
      .signal ∈ events ∧ Runs d later d' ∧ (∀ e ∈ later, e.work = 1 ∨ e.answers = true) ∧
      ∃ runErr, d'.main = .returned runErr := by
  have loaded := Runs.nil.snoc
    (Step.succeed rfl rfl : Step (start ⟨1, true, true⟩ : Daemon Nat Unit) _ _)
  have signalled := loaded.snoc (.signal nofun)
  obtain ⟨-, ⟨later, d', rest, own, returned⟩, -⟩ := run_completes signalled (.inl (by simp))
  exact ⟨_, later, _, d', signalled, by simp, rest, own, returned⟩

end Daemon

end ShardDNS

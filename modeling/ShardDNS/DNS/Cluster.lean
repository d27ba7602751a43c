import ShardDNS.DNS.Inside
import ShardDNS.DNS.Lookup
import ShardDNS.Store.Coherence
import ShardDNS.Store.Expiry
import ShardDNS.Store.Visibility

/-!
# Requests on a cluster

Requests are handled on every instance of a cluster while writes are committed, announced and
delivered, while events get lost, and while instances are stopped, at any time, and started again.
Each call of a request asks the cache of its instance; on a miss it begins a load, or waits for one
of its key that is in flight.

A cache may answer with what the database no longer says, but only as long as a removal of that
very key is outstanding for its instance, or when the event that should have removed it was lost
(`stale_until_removed`). Once nothing is outstanding, nothing was lost and no load that an
invalidation has overtaken is in flight, every request that arrives is answered as by the database
itself, until the next write is committed (`responses_of_quiet`).
-/

set_option autoImplicit false

namespace ShardDNS.DNS

open Go Store Program

variable {k : Key} {q : Call} {db : Database}

/-! ## Calls of the cached resolver -/

/-- What a call returns for what is cached or loaded under its key. The type assertion of
`LookupName` panics if that is a zone. -/
def Call.reply : (q : Call) → Store.Answer → Option q.Answer
  | .findZone _, .zone (some z) => some (.ok z)
  | .findZone _, _ => some (.error .notFound)
  | .lookupName _ _, .name set => some (.ok set)
  | .lookupGlue _ _, .name set => some (.ok set)
  | _, .zone _ => none

/-- What a call returns when its load fails. -/
def Call.failure : (q : Call) → StoreError → q.Answer
  | .findZone _, e => .error e
  | .lookupName _ _, e => .error e
  | .lookupGlue _ _, e => .error e

/-- **What the database answers under the key of a call is what its resolver returns.** -/
theorem Call.reply_answer (keyed : q.key = some k) (db : Database) (encode : Option Encoder)
    (rotate : Nat → UInt32) :
    q.reply (k.answer encode db) = some (Calls.service (Handler.serving db encode rotate) q) := by
  cases q with
  | findZone name =>
      cases keyed
      change reply (.findZone name) (.zone (db.findZone name).toOption) = some (db.findZone name)
      cases found : db.findZone name with
      | ok z => rfl
      | error e =>
          rw [Database.eq_notFound_of_findZone found]
          rfl
  | lookupName zone name =>
      simp only [Call.key, Option.dite_none_right_eq_some] at keyed
      obtain ⟨-, ⟨⟩⟩ := keyed
      rfl
  | lookupGlue zone name =>
      simp only [Call.key, Option.dite_none_right_eq_some] at keyed
      obtain ⟨-, ⟨⟩⟩ := keyed
      rfl

/-- A call that did not fail, and asked for no zone but by a name in its normal form. -/
def Orderly : Event Call.Answer → Prop
  | ⟨.findZone name, answer⟩ =>
      normalizeZone name = name ∧ ∀ e : StoreError, answer = .error e → e = .notFound
  | ⟨.lookupName _ _, answer⟩ => ∀ e : StoreError, answer ≠ .error e
  | ⟨.lookupGlue _ _, answer⟩ => ∀ e : StoreError, answer ≠ .error e

theorem not_orderly_failure {e : StoreError} (other : e ≠ .notFound) :
    ¬ Orderly ⟨q, q.failure e⟩ := by
  intro orderly
  cases q with
  | findZone name => exact other (orderly.2 e rfl)
  | lookupName zone name => exact orderly e rfl
  | lookupGlue zone name => exact orderly e rfl

/-- The zone that the database finds for a name in its normal form encloses it. -/
theorem zoneAbove_of_orderly {encode : Option Encoder} {rotate : Nat → UInt32}
    (clean : ∀ z ∈ db.zones, 0 ∉ z.name) {event : Event Call.Answer} (orderly : Orderly event)
    (answered : event.2 = Calls.service (Handler.serving db encode rotate) event.1) :
    ZoneAbove event := by
  obtain ⟨q, answer⟩ := event
  cases q with
  | lookupName zone name => exact trivial
  | lookupGlue zone name => exact trivial
  | findZone name =>
      intro z found
      have looked : db.findZone name = .ok z := answered.symm.trans found
      obtain ⟨stored, candidate, -⟩ := Database.findZone_eq_ok_iff.mp looked
      rw [orderly.1] at candidate
      refine ⟨clean z stored, inZone_iff.mpr ?_⟩
      rcases List.mem_cons.mp (Database.mem_chain_of_mem_candidates candidate).1 with same | above
      · exact .inl same.symm
      · exact .inr above

/-! ## Requests -/

/-- Where a request stands with its call: before and after it has asked the cache, and waiting for
a load. -/
inductive Phase where
  | called
  | missed
  | waiting
  deriving DecidableEq

/-- A request, with the values of the counter it gets, the calls it has made and what is left of
handling it. -/
structure Request (I : Type) where
  node : I
  req : Message
  rotate : Nat → UInt32
  trace : List (Event Call.Answer)
  rest : Calling Message
  phase : Phase

namespace Request

variable {I : Type} {r : Request I}

/-- A request that arrives. Of the handler its program reads the counter only. -/
def new (j : I) (req : Message) (rotate : Nat → UInt32) : Request I :=
  { node := j, req := req, rotate := rotate, trace := []
    rest := Calls.handle (Handler.serving .empty none rotate) req, phase := .called }

/-- The request goes on with the answer to its call. -/
def resume (r : Request I) {q : Call} (next : q.Answer → Calling Message) (b : q.Answer) :
    Request I :=
  { r with trace := r.trace ++ [⟨q, b⟩], rest := next b, phase := .called }

/-- The result of a load goes to the requests that wait for it. -/
def deliver [DecidableEq I] (j : I) (k : Key) (result : (q : Call) → Option q.Answer)
    (r : Request I) : Request I :=
  match r.phase, r.rest with
  | .waiting, .ask q next =>
      if r.node = j ∧ q.key = some k then
        match result q with
        | some b => r.resume next b
        | none => r
      else r
  | _, _ => r

theorem deliver_cases [DecidableEq I] (j : I) (k : Key) (result : (q : Call) → Option q.Answer)
    (r : Request I) :
    r.deliver j k result = r ∨ ∃ (q : Call) (next : q.Answer → Calling Message) (b : q.Answer),
      r.rest = .ask q next ∧ q.key = some k ∧ result q = some b ∧
        r.deliver j k result = r.resume next b := by
  unfold deliver
  split
  · rename_i q next _ asks
    split
    · rename_i here
      split
      · rename_i b given
        exact .inr ⟨q, next, b, asks, here.2, given, rfl⟩
      · exact .inl rfl
    · exact .inl rfl
  · exact .inl rfl

/-- A request that waits for the load gets its result. -/
theorem deliver_of_waiting [DecidableEq I] {next : q.Answer → Calling Message}
    {result : (q : Call) → Option q.Answer} {b : q.Answer} (asks : r.rest = .ask q next)
    (waits : r.phase = .waiting) (keyed : q.key = some k) (given : result q = some b) :
    r.deliver r.node k result = r.resume next b := by
  obtain ⟨node, req, rotate, trace, rest, phase⟩ := r
  cases asks
  cases waits
  simp only [deliver, keyed, and_self, if_true, given]

theorem deliver_of_not_waiting [DecidableEq I] (busy : r.phase ≠ .waiting) (j : I) (k : Key)
    (result : (q : Call) → Option q.Answer) : r.deliver j k result = r := by
  unfold deliver
  split
  · rename_i waits _
    exact absurd waits busy
  · rfl

variable {encode : Option Encoder}

/-- A request that has got the answers of the database, as far as its calls were orderly. -/
structure Sound (encode : Option Encoder) (db : Database) (r : Request I) : Prop where
  after : After (Calls.handle (Handler.serving db encode r.rotate) r.req) r.trace r.rest
  answered : (∀ event ∈ r.trace, Orderly event) →
    ∀ event ∈ r.trace, event.2 = Calls.service (Handler.serving db encode r.rotate) event.1

theorem sound_new (db : Database) (j : I) (req : Message) (rotate : Nat → UInt32) :
    Sound encode db (new j req rotate) :=
  ⟨.start, fun _ => List.forall_mem_nil _⟩

theorem Sound.phase (sound : Sound encode db r) (phase : Phase) :
    Sound encode db { r with phase := phase } := ⟨sound.after, sound.answered⟩

/-- A request goes on soundly if the answer it gets is the database's, should it be orderly. -/
theorem Sound.resume (sound : Sound encode db r) {next : q.Answer → Calling Message}
    (asks : r.rest = .ask q next) (b : q.Answer)
    (right : (∀ event ∈ r.trace, Orderly event) → Orderly ⟨q, b⟩ →
      b = Calls.service (Handler.serving db encode r.rotate) q) :
        Sound encode db (r.resume next b) := by
  have after := sound.after
  rw [asks] at after
  refine ⟨after.step b, fun orderly => ?_⟩
  change ∀ event ∈ r.trace ++ [⟨q, b⟩], Orderly event at orderly
  rw [List.forall_mem_append] at orderly
  change ∀ event ∈ r.trace ++ [⟨q, b⟩], _
  rw [List.forall_mem_append]
  refine ⟨sound.answered orderly.1, fun event member => ?_⟩
  cases List.mem_singleton.mp member
  exact right orderly.1 (orderly.2 _ (List.mem_singleton_self _))

/-- The answer of the database under its key is right for a call. -/
theorem Sound.resume_answer (sound : Sound encode db r) {next : q.Answer → Calling Message}
    (asks : r.rest = .ask q next) (keyed : q.key = some k) {b : q.Answer}
    (reply : q.reply (k.answer encode db) = some b) : Sound encode db (r.resume next b) := by
  refine sound.resume asks b fun _ _ => ?_
  rw [Call.reply_answer keyed db encode r.rotate] at reply
  exact (Option.some.inj reply).symm

/-- As long as its calls are orderly, a sound request asks for nothing outside of a zone. -/
theorem Sound.keyed (sound : Sound encode db r) (clean : ∀ z ∈ db.zones, 0 ∉ z.name)
    (orderly : ∀ event ∈ r.trace, Orderly event) {next : q.Answer → Calling Message}
    (asks : r.rest = .ask q next) : q.key ≠ none := by
  have above : ∀ event ∈ r.trace, ZoneAbove event := by
    intro event member
    exact zoneAbove_of_orderly clean (orderly event member) (sound.answered orderly event member)
  have guided := (Calls.guided_handle _ _).after sound.after above
  rw [asks] at guided
  exact guided.1

end Request

/-! ## The cluster -/

/-- The instances, and the requests on them by numbers. -/
structure Cluster (I : Type) where
  fleet : Fleet I
  requests : Nat → Option (Request I)

namespace Cluster

/-- The request of this number goes on so. -/
def withRequest {I : Type} (s : Cluster I) (n : Nat) (r : Request I) : Cluster I :=
  { s with requests := Function.update s.requests n (some r) }

theorem withRequest_withRequest {I : Type} (s : Cluster I) (n : Nat) (r r' : Request I) :
    (s.withRequest n r).withRequest n r' = s.withRequest n r' := by
  unfold withRequest
  rw [Function.update_idem]

abbrev world {I : Type} (s : Cluster I) : World I := s.fleet.world

section Steps

variable {I : Type} [DecidableEq I]

def start (db : Database) : Cluster I := { fleet := .start db, requests := fun _ => none }

/-- The cluster goes on so, without a fault. -/
def withWorld (s : Cluster I) (w : World I) : Cluster I :=
  { s with fleet := { s.fleet with world := w } }

/-- An instance in the place of another. -/
def withInst (s : Cluster I) (j : I) (i : Instance) : Cluster I :=
  s.withWorld (s.world.withInst j i)

/-- A step of the instances or of a request. Loads begin and end with requests. -/
inductive Step (md5 : Bytes → Bytes) (encode : Option Encoder) (cfg : I → Configs) :
    Cluster I → Cluster I → Prop where
  | progress {s : Cluster I} {j : I} {i : Instance}
      (next : Instance.Progress (cfg j) encode s.world.db s.world.clock (s.world.insts j) i) :
      Step md5 encode cfg s (s.withInst j i)
  | act {s : Cluster I} {w : World I} (next : World.Act md5 encode cfg s.world w) :
      Step md5 encode cfg s (s.withWorld w)
  | outage {s : Cluster I} {fleet : Fleet I} (next : Fleet.Outage s.fleet fleet) :
      Step md5 encode cfg s { s with fleet := fleet }
  /-- The requests on an instance that is stopped get no response. -/
  | restart {s : Cluster I} (j : I) :
      Step md5 encode cfg s
        { fleet := s.fleet.restarted j
          requests := fun n => (s.requests n).filter fun r => r.node ≠ j }
  | arrive {s : Cluster I} {n : Nat} (j : I) (req : Message) (rotate : Nat → UInt32)
      (free : s.requests n = none) : Step md5 encode cfg s (s.withRequest n (.new j req rotate))
  | hit {s : Cluster I} {n : Nat} {r : Request I} {q : Call} {next : q.Answer → Calling Message}
      {k : Key} {now : Int} {a : Store.Answer} {readAt : Nat} {b : q.Answer}
      (running : s.requests n = some r) (asks : r.rest = .ask q next) (phase : r.phase = .called)
      (keyed : q.key = some k)
      (found : (s.world.insts r.node).cache.get (cfg r.node) now k = some (a, readAt))
      (reply : q.reply a = some b) : Step md5 encode cfg s (s.withRequest n (r.resume next b))
  | miss {s : Cluster I} {n : Nat} {r : Request I} {q : Call} {next : q.Answer → Calling Message}
      {k : Key} {now : Int} (running : s.requests n = some r) (asks : r.rest = .ask q next)
      (phase : r.phase = .called) (keyed : q.key = some k)
      (absent : (s.world.insts r.node).cache.get (cfg r.node) now k = none) :
      Step md5 encode cfg s (s.withRequest n { r with phase := .missed })
  /-- A load of the key is in flight. -/
  | join {s : Cluster I} {n : Nat} {r : Request I} {q : Call} {next : q.Answer → Calling Message}
      {l : Load} (running : s.requests n = some r) (asks : r.rest = .ask q next)
      (phase : r.phase = .missed) (inFlight : l ∈ (s.world.insts r.node).loads)
      (keyed : q.key = some l.key) :
      Step md5 encode cfg s (s.withRequest n { r with phase := .waiting })
  /-- None is, and the request begins one. -/
  | lead {s : Cluster I} {n : Nat} {r : Request I} {q : Call} {next : q.Answer → Calling Message}
      {k : Key} (running : s.requests n = some r) (asks : r.rest = .ask q next)
      (phase : r.phase = .missed) (keyed : q.key = some k)
      (first : ∀ l ∈ (s.world.insts r.node).loads, l.key ≠ k) :
      Step md5 encode cfg s
        ((s.withRequest n { r with phase := .waiting }).withInst r.node
          { s.world.insts r.node with loads := ⟨k, .entered⟩ :: (s.world.insts r.node).loads })
  | leave {s : Cluster I} {j : I} {before after : List Load} {k : Key} {epoch : Nat}
      {a : Store.Answer} {readAt : Nat}
      (place : (s.world.insts j).loads = before ++ ⟨k, .setting .returned epoch a readAt⟩ ::
        after) :
      Step md5 encode cfg s
        { s.withInst j { s.world.insts j with loads := before ++ after } with
          requests := fun n => (s.requests n).map (Request.deliver j k fun q => q.reply a) }
  | fail {s : Cluster I} {j : I} {before after : List Load} {l : Load} {e : StoreError}
      (place : (s.world.insts j).loads = before ++ l :: after) (asking : l.Asking)
      (other : e ≠ .notFound) :
      Step md5 encode cfg s
        { s.withInst j { s.world.insts j with loads := before ++ after } with
          requests := fun n =>
            (s.requests n).map (Request.deliver j l.key fun q => some (q.failure e)) }
  /-- Of a lookup outside of its zone nothing is said. -/
  | stray {s : Cluster I} {n : Nat} {r : Request I} {q : Call}
      {next : q.Answer → Calling Message} (b : q.Answer) (running : s.requests n = some r)
      (asks : r.rest = .ask q next) (unkeyed : q.key = none) :
      Step md5 encode cfg s (s.withRequest n (r.resume next b))

/-- A step that commits nothing. -/
abbrev CalmStep (md5 : Bytes → Bytes) (encode : Option Encoder) (cfg : I → Configs)
    (s s' : Cluster I) : Prop :=
  Step md5 encode cfg s s' ∧ s'.world.clock = s.world.clock

variable {md5 : Bytes → Bytes} {encode : Option Encoder} {cfg : I → Configs} {s s' : Cluster I}
  {n : Nat} {r : Request I}

/-- The requests do nothing to the instances that those could not do by themselves. -/
theorem Step.fleet_step (step : Step md5 encode cfg s s') :
    s'.fleet = s.fleet ∨ Fleet.Step md5 encode cfg s.fleet s'.fleet := by
  cases step with
  | progress next => exact .inr (.load (.progress next))
  | act next => exact .inr (.act next)
  | outage next => exact .inr (.outage next)
  | restart j => exact .inr (.restart j)
  | arrive j req rotate free => exact .inl rfl
  | hit running asks phase keyed found reply => exact .inl rfl
  | miss running asks phase keyed absent => exact .inl rfl
  | join running asks phase inFlight keyed => exact .inl rfl
  | lead running asks phase keyed first => exact .inr (.load (.enter _))
  | leave place => exact .inr (.load (.leave place))
  | fail place asking other => exact .inr (.load (.fail place asking))
  | stray b running asks unkeyed => exact .inl rfl

theorem withInst_withInst (s : Cluster I) (j : I) (i i' : Instance) :
    (s.withInst j i).withInst j i' = s.withInst j i' := by
  change s.withWorld ((s.world.withInst j i).withInst j i') = _
  rw [World.withInst_withInst]
  rfl

/-- The loads of one instance go on. -/
theorem run_progress (s : Cluster I) (j : I) {i i' : Instance}
    (run : Relation.ReflTransGen (Instance.Progress (cfg j) encode s.world.db s.world.clock) i i') :
    Relation.ReflTransGen (CalmStep md5 encode cfg) (s.withInst j i) (s.withInst j i') := by
  refine run.lift (s.withInst j) fun i i' next => ⟨?_, rfl⟩
  have here : (s.withInst j i).world.insts j = i := World.insts_withInst ..
  have step : Step md5 encode cfg (s.withInst j i) ((s.withInst j i).withInst j i') :=
    .progress (by rwa [here])
  rwa [withInst_withInst] at step

/-- The only load ends, and the only request that waits gets its answer. -/
theorem step_leave (s : Cluster I) {i : Instance} {next : q.Answer → Calling Message}
    {epoch readAt : Nat} {a : Store.Answer} {b : q.Answer} (running : s.requests n = some r)
    (asks : r.rest = .ask q next) (waits : r.phase = .waiting) (keyed : q.key = some k)
    (others : ∀ n' r', n' ≠ n → s.requests n' = some r' → r'.phase ≠ .waiting)
    (only : i.loads = [⟨k, .setting .returned epoch a readAt⟩]) (reply : q.reply a = some b) :
    Step md5 encode cfg (s.withInst r.node i)
      ((s.withInst r.node ⟨i.cache, []⟩).withRequest n (r.resume next b)) := by
  have here : (s.withInst r.node i).world.insts r.node = i := World.insts_withInst ..
  have place : ((s.withInst r.node i).world.insts r.node).loads =
      [] ++ ⟨k, .setting .returned epoch a readAt⟩ :: [] := by
    rw [here, only, List.nil_append]
  have delivered : (fun n' => (s.requests n').map (Request.deliver r.node k fun q => q.reply a)) =
      Function.update s.requests n (some (r.resume next b)) := by
    funext n'
    by_cases same : n' = n
    · subst same
      rw [Function.update_self, running, Option.map_some,
        Request.deliver_of_waiting asks waits keyed reply]
    · rw [Function.update_of_ne same]
      cases found : s.requests n' with
      | none => rfl
      | some r' => rw [Option.map_some, Request.deliver_of_not_waiting (others n' r' same found)]
  have step : Step md5 encode cfg (s.withInst r.node i)
      { (s.withInst r.node i).withInst r.node
          ⟨((s.withInst r.node i).world.insts r.node).cache, [] ++ []⟩ with
        requests := fun n' => (s.requests n').map _ } := .leave place
  rwa [delivered, here, withInst_withInst] at step

/-- **A request that nothing disturbs gets the answer of the database to a call that misses**, and
the answer is in the cache then. -/
theorem call_alone (s : Cluster I) {next : q.Answer → Calling Message} {b : q.Answer} (now : Int)
    (order : List Bytes) (running : s.requests n = some r) (asks : r.rest = .ask q next)
    (called : r.phase = .called) (keyed : q.key = some k) (idle : (s.world.insts r.node).loads = [])
    (others : ∀ n' r', s.requests n' = some r' → r'.phase ≠ .waiting)
    (absent : (s.world.insts r.node).cache.get (cfg r.node) now k = none)
    (reply : q.reply (k.answer encode s.world.db) = some b) :
    Relation.ReflTransGen (CalmStep md5 encode cfg) s
      ((s.withInst r.node
        ⟨(s.world.insts r.node).cache.put (cfg r.node) now order s.world.clock k
          (k.answer encode s.world.db), []⟩).withRequest n (r.resume next b)) := by
  let cache := (s.world.insts r.node).cache
  let answer := k.answer encode s.world.db
  let stored (loads : List Load) : Instance :=
    ⟨cache.put (cfg r.node) now order s.world.clock k answer, loads⟩
  let last : Load := ⟨k, .setting .returned (cache.epoch k.which) answer s.world.clock⟩
  let waiting := s.withRequest n { r with phase := .waiting }
  have missed : Step md5 encode cfg s (s.withRequest n { r with phase := .missed }) :=
    .miss running asks called keyed absent
  have led : Step md5 encode cfg (s.withRequest n { r with phase := .missed })
      (waiting.withInst r.node ⟨cache, [⟨k, .entered⟩]⟩) := by
    have first : ∀ l ∈ (s.world.insts r.node).loads, l.key ≠ k := by
      rw [idle]
      exact List.forall_mem_nil _
    have step : Step md5 encode cfg (s.withRequest n { r with phase := .missed }) _ :=
      .lead (r := { r with phase := .missed }) (Function.update_self ..) asks rfl keyed first
    rw [withRequest_withRequest] at step
    change Step md5 encode cfg _
      (waiting.withInst r.node ⟨cache, _ :: (s.world.insts r.node).loads⟩)
      at step
    rwa [idle] at step
  have loaded : Relation.ReflTransGen (CalmStep md5 encode cfg)
      (waiting.withInst r.node ⟨cache, [⟨k, .entered⟩]⟩)
      (waiting.withInst r.node (stored [last])) :=
    run_progress waiting r.node (Instance.progress_alone k now order)
  refine .head ⟨missed, rfl⟩ (.head ⟨led, rfl⟩ (loaded.tail ⟨?_, rfl⟩))
  have busy : ∀ n' r', n' ≠ n → waiting.requests n' = some r' → r'.phase ≠ .waiting := by
    intro n' r' other found
    change Function.update s.requests n _ n' = some r' at found
    rw [Function.update_of_ne other] at found
    exact others n' r' found
  have only : (stored [last]).loads = [last] := rfl
  have left : Step md5 encode cfg (waiting.withInst r.node (stored [last])) _ :=
    step_leave (r := { r with phase := .waiting }) waiting (Function.update_self ..) asks rfl keyed
      busy only reply
  change Step md5 encode cfg _
    (((s.withInst r.node (stored [])).withRequest n _).withRequest n _) at left
  rwa [withRequest_withRequest] at left

end Steps

/-! ## While no write is committed -/

section Settled

variable {I : Type} {encode : Option Encoder} {cfg : I → Configs} {s : Cluster I} {n : Nat}
  {r : Request I} {later : Nat → Prop}

/-- Everything that is cached or held is what the database says. -/
structure Settled (encode : Option Encoder) (cfg : I → Configs) (w : World I) : Prop where
  ok : ∀ j, (w.insts j).Ok (cfg j) (World.Correct encode) w.db w.clock []
  fresh : ∀ j, ∀ l ∈ (w.insts j).loads, l.Fresh encode w.db

/-- What a settled cache answers is what the database says. -/
theorem Settled.answer_of_get {w : World I} (settled : Settled encode cfg w) {j : I} {now : Int}
    {a : Store.Answer} {readAt : Nat}
    (hit : (w.insts j).cache.get (cfg j) now k = some (a, readAt)) :
    a = k.answer encode w.db :=
  (settled.ok j).good_of_quiet (List.forall_mem_nil _) (CachedResolver.entry_of_get hit)

/-- What holds while no write is committed, of the cluster and of the requests that arrived
since. -/
structure Steady (encode : Option Encoder) (cfg : I → Configs) (db : Database) (later : Nat → Prop)
    (s : Cluster I) : Prop where
  settled : Settled encode cfg s.world
  same : s.world.db = db
  sound : ∀ n r, later n → s.requests n = some r → Request.Sound encode db r

/-- Only one request moves. -/
theorem Steady.withRequest (steady : Steady encode cfg db later s)
    (sound : later n → Request.Sound encode db r) : ∀ n' r', later n' →
      (s.withRequest n r).requests n' = some r' → Request.Sound encode db r' := by
  intro n' r' new found
  by_cases here : n' = n
  · subst here
    change Function.update s.requests n' (some r) n' = some r' at found
    rw [Function.update_self] at found
    cases found
    exact sound new
  · change Function.update s.requests n (some r) n' = some r' at found
    rw [Function.update_of_ne here] at found
    exact steady.sound n' r' new found

end Settled

/-! ## Steps that commit nothing -/

variable {I : Type} [DecidableEq I] {md5 : Bytes → Bytes} {encode : Option Encoder}
  {cfg : I → Configs} {s s' : Cluster I} {n : Nat} {r : Request I} {later : Nat → Prop}

/-- One instance of a settled cluster moves. -/
theorem Settled.update {w w' : World I} (settled : Settled encode cfg w) {j : I} {i : Instance}
    (insts : w'.insts = Function.update w.insts j i) (db : w'.db = w.db)
    (clock : w'.clock = w.clock)
    (ok : i.Ok (cfg j) (World.Correct encode) w.db w.clock [])
    (fresh : ∀ l ∈ i.loads, l.Fresh encode w.db) :
    Settled encode cfg w' := by
  refine ⟨fun j' => ?_, fun j' => ?_⟩
  · rw [insts, db, clock]
    by_cases here : j' = j
    · subst here
      rw [Function.update_self]
      exact ok
    · rw [Function.update_of_ne here]
      exact settled.ok j'
  · rw [insts, db]
    by_cases here : j' = j
    · subst here
      rw [Function.update_self]
      exact fresh
    · rw [Function.update_of_ne here]
      exact settled.fresh j'

/-- **As long as no write is committed, settled instances stay settled.** -/
theorem Settled.step {fleet fleet' : Fleet I} (settled : Settled encode cfg fleet.world)
    (next : Fleet.Step md5 encode cfg fleet fleet')
    (calm : fleet'.world.clock = fleet.world.clock) :
    Settled encode cfg fleet'.world ∧ fleet'.world.db = fleet.world.db := by
  cases next with
  | @load j i next =>
      refine ⟨settled.update rfl rfl rfl ?_ ?_, rfl⟩
      · exact (settled.ok j).step (World.judge_correct encode) next
      · exact next.fresh (settled.fresh j)
  | act next =>
      cases next with
      | commit j normal done => exact absurd calm (Nat.succ_ne_self _)
      | @invalidate before after ev op ops place ready =>
          refine ⟨settled.update rfl rfl rfl ?_ (settled.fresh ev.origin), rfl⟩
          exact (settled.ok ev.origin).run_other op
      | publish place => exact ⟨⟨settled.ok, settled.fresh⟩, rfl⟩
      | deliver place => exact ⟨⟨settled.ok, settled.fresh⟩, rfl⟩
      | @handle j before after op ops place ready =>
          exact ⟨settled.update rfl rfl rfl ((settled.ok j).run_other op) (settled.fresh j), rfl⟩
  | outage next =>
      cases next with
      | unpublished place => exact ⟨⟨settled.ok, settled.fresh⟩, rfl⟩
      | lose place => exact ⟨⟨settled.ok, settled.fresh⟩, rfl⟩
      | reconnect j => exact ⟨⟨settled.ok, settled.fresh⟩, rfl⟩
  | restart j =>
      exact ⟨settled.update rfl rfl rfl Instance.ok_empty (List.forall_mem_nil _), rfl⟩

/-- The results of a load are delivered. -/
theorem Steady.deliver (steady : Steady encode cfg db later s) {j : I}
    {result : (q : Call) → Option q.Answer}
    (right : ∀ (r : Request I) (q : Call) (next : q.Answer → Calling Message) (b : q.Answer),
      Request.Sound encode db r →
      r.rest = .ask q next → q.key = some k → result q = some b →
        Request.Sound encode db (r.resume next b)) :
    ∀ n r, later n → (s.requests n).map (Request.deliver j k result) = some r →
      Request.Sound encode db r := by
  intro n r new found
  obtain ⟨old, running, rfl⟩ := Option.map_eq_some_iff.mp found
  have sound := steady.sound n old new running
  rcases Request.deliver_cases j k result old with same | ⟨q, next, b, asks, keyed, given, resumed⟩
  · rw [same]
    exact sound
  · rw [resumed]
    exact right old q next b sound asks keyed given

/-- **A step that commits nothing.** -/
theorem Steady.step (steady : Steady encode cfg db later s) (clean : ∀ z ∈ db.zones, 0 ∉ z.name)
    (next : Step md5 encode cfg s s') (calm : s'.world.clock = s.world.clock) :
    Steady encode cfg db later s' := by
  obtain ⟨settled, same⟩ : Settled encode cfg s'.world ∧ s'.world.db = s.world.db := by
    rcases next.fleet_step with still | moved
    · rw [world, still]
      exact ⟨steady.settled, rfl⟩
    · exact steady.settled.step moved calm
  refine ⟨settled, same.trans steady.same, ?_⟩
  have sound := steady.sound
  cases next with
  | progress next => exact sound
  | act next => exact sound
  | outage next => exact sound
  | restart j =>
      intro n r new found
      obtain ⟨running, -⟩ := Option.filter_eq_some_iff.mp found
      exact sound n r new running
  | arrive j req rotate free => exact steady.withRequest fun _ => Request.sound_new db j req rotate
  | @hit n r q next k now a readAt b running asks phase keyed found reply =>
      refine steady.withRequest fun new => (sound n r new running).resume_answer asks keyed ?_
      rw [← steady.same, ← steady.settled.answer_of_get found]
      exact reply
  | @miss n r q next k now running asks phase keyed absent =>
      exact steady.withRequest fun new => (sound n r new running).phase .missed
  | @join n r q next l running asks phase inFlight keyed =>
      exact steady.withRequest fun new => (sound n r new running).phase .waiting
  | @lead n r q next k running asks phase keyed first =>
      exact steady.withRequest fun new => (sound n r new running).phase .waiting
  | @leave j before after k epoch a readAt place =>
      have fresh : a = k.answer encode s.world.db := by
        apply steady.settled.fresh j ⟨k, .setting .returned epoch a readAt⟩
        rw [place]
        exact List.mem_append_cons_self
      apply steady.deliver
      intro r q next b sound asks keyed given
      rw [fresh, steady.same] at given
      exact sound.resume_answer asks keyed given
  | @fail j before after l e place asking other =>
      apply steady.deliver
      intro r q next b sound asks keyed given
      cases given
      exact sound.resume asks _ fun _ orderly => absurd orderly (not_orderly_failure other)
  | @stray n r q next b running asks unkeyed =>
      refine steady.withRequest fun new => (sound n r new running).resume asks b fun orderly _ => ?_
      exact absurd unkeyed ((sound n r new running).keyed clean orderly asks)

end Cluster

end ShardDNS.DNS

import ShardDNS.DNS.Recycling

/-!
# Every datagram is accounted for

Whatever the goroutines do and in whatever order, the parties of a state share no buffer, and
account for the datagrams that came in and are not settled. A step is looked at with the
parties it changes (`Step.held`), a run by induction (`Serves.account`).

So each datagram is answered at most once, to the address it came from, and with a reply that
`serveUDP` makes of its own octets, although its buffer is one that was used before and will be
again (`serves_datagrams_settled`). On a connection the responses are those to its messages, in
their order (`serves_responses_in_order`).
-/

set_option autoImplicit false

namespace ShardDNS.DNS

open Go Store Program Slices Slices.Heap List

variable {Peer : Type}

/-! ## The parties of a state -/

section Parties

variable {r p : Party Peer} {js ws cs before after : List (Party Peer)}

theorem perm_job :
    r :: (before ++ p :: after ++ ws ++ cs) ~ p :: r :: (before ++ after ++ ws ++ cs) := by
  refine (Perm.cons r ?_).trans (.swap p r _)
  simp only [append_assoc, cons_append]
  exact perm_middle

theorem perm_worker :
    r :: (js ++ (before ++ p :: after) ++ cs) ~ p :: r :: (js ++ (before ++ after) ++ cs) := by
  refine (Perm.cons r ?_).trans (.swap p r _)
  simp only [append_assoc, cons_append]
  rw [← append_assoc, ← append_assoc js before]
  exact perm_middle

theorem perm_conn :
    r :: (js ++ ws ++ (before ++ p :: after)) ~ p :: r :: (js ++ ws ++ (before ++ after)) := by
  refine (Perm.cons r ?_).trans (.swap p r _)
  rw [← append_assoc, ← append_assoc (js ++ ws)]
  exact perm_middle

end Parties

namespace Service

variable {s : Service Peer}

theorem parties_reader {r : Reader Peer} (here : s.reader = r) :
    s.parties = .reader r :: (s.jobs.map .job ++ s.workers.map .worker ++ s.conns.map .conn) := by
  rw [← here]
  rfl

theorem parties_jobs {before after : List (Job Peer)} {job : Job Peer}
    (here : s.jobs = before ++ job :: after) :
    s.parties ~ .job job :: Service.parties { s with jobs := before ++ after } := by
  unfold parties
  rw [here, map_append, map_append, map_cons]
  exact perm_job

theorem parties_workers {before after : List (Worker Peer)} {w : Worker Peer}
    (here : s.workers = before ++ w :: after) :
    s.parties ~ .worker w :: Service.parties { s with workers := before ++ after } := by
  unfold parties
  rw [here, map_append, map_append, map_cons]
  exact perm_worker

theorem parties_conns {before after : List Conn} {c : Conn}
    (here : s.conns = before ++ c :: after) :
    s.parties ~ .conn c :: Service.parties { s with conns := before ++ after } := by
  unfold parties
  rw [here, map_append, map_append, map_cons]
  exact perm_conn

end Service

/-! ## Steps -/

variable {happens : Happening Peer}

section Steps

variable {mem mem' : Memory UInt8} {ss ss' rest : List (Party Peer)} {p p' : Party Peer}
  {pending ins : List (Datagram Peer)} {P : List (Datagram Peer) → Prop}

/-- A step of one party. -/
theorem held_one (held : Held parties bufSize mem ss pending) (before : ss ~ p :: rest)
    (after : ss' ~ p' :: rest)
    (change : ∀ es, p.Holds mem.heap es → Transfer bufSize mem mem' p.owned p'.owned ∧
      ∃ es' outs, p'.Holds mem'.heap es' ∧ es ++ ins ~ es' ++ outs ∧ P outs) :
    ∃ pending' outs, Held parties bufSize mem' ss' pending' ∧ pending ++ ins ~ pending' ++ outs ∧
      P outs := by
  refine held.step [p] [p'] before after fun es holds => ?_
  obtain ⟨transfer, es', outs, holds', rest⟩ := change es (holding_singleton_iff.mp holds)
  refine ⟨?_, es', outs, holding_singleton_iff.mpr holds', rest⟩
  rw [flatMap_singleton, flatMap_singleton]
  exact transfer

/-- After a step, the parties account for the datagrams they did, but for those that the step
took in or settled. -/
def Continues (pending : List (Datagram Peer)) (happens : Happening Peer) (mem : Memory UInt8)
    (ss : List (Party Peer)) : Prop :=
  ∃ pending' outs, Held parties bufSize mem ss pending' ∧
    pending ++ happens.incoming ~ pending' ++ outs ∧ Gives happens outs

/-- A step that leaves all parties alone. -/
theorem held_same (held : Held parties bufSize mem ss pending) (taken : happens.incoming = [])
    (given : happens.outgoing = []) : Continues pending happens mem ss :=
  ⟨pending, [], held, by rw [taken], gives_nil given⟩

/-- A step of a party that takes nothing in and settles nothing. -/
theorem held_kept (held : Held parties bufSize mem ss pending) (before : ss ~ p :: rest)
    (after : ss' ~ p' :: rest) (taken : happens.incoming = []) (given : happens.outgoing = [])
    (change : ∀ es, p.Holds mem.heap es →
      Transfer bufSize mem mem' p.owned p'.owned ∧ p'.Holds mem'.heap es) :
    Continues pending happens mem' ss' := by
  refine held_one held before after fun es holds => ?_
  obtain ⟨transfer, holds'⟩ := change es holds
  refine ⟨transfer, es, [], holds', ?_, gives_nil given⟩
  rw [taken]

/-- The datagram of a job that is sent is in the queue. -/
theorem held_send {job : Job Peer} (held : Held parties bufSize mem ss pending)
    (before : ss ~ .reader (.sending job) :: rest)
    (after : ss' ~ .reader .getting :: .job job :: rest) : Continues pending .internal mem ss' := by
  refine held.step [.reader (.sending job)] [.reader .getting, .job job] before after
    fun es holds => ?_
  have filled : Sized mem.heap job.buf ∧ job.Holds mem.heap es := holding_singleton_iff.mp holds
  have idle : Reader.Holds mem.heap [] (.getting : Reader Peer) := rfl
  have queued : Holding parties mem.heap [.reader .getting, .job job] es :=
    holding_cons_iff.mpr ⟨[], es, rfl, idle, holding_singleton_iff.mpr filled⟩
  exact ⟨transfer_of_subperm (.refl _), es, [], queued, .refl _, gives_nil rfl⟩

/-- The datagram of a job that is received is with a worker. -/
theorem held_receive {job : Job Peer} (held : Held parties bufSize mem ss pending)
    (before : ss ~ .worker .receiving :: .job job :: rest)
    (after : ss' ~ .worker (.parsing job) :: rest) : Continues pending .internal mem ss' := by
  refine held.step [.worker .receiving, .job job] [.worker (.parsing job)] before after
    fun es holds => ?_
  obtain ⟨mine, more, rfl, idle, queued⟩ := holding_cons_iff.mp holds
  obtain rfl : mine = [] := idle
  have filled : parties.holds mem.heap (.job job) more := holding_singleton_iff.mp queued
  have taken : Holding parties mem.heap [.worker (.parsing job)] more :=
    holding_singleton_iff.mpr filled
  exact ⟨transfer_of_subperm (.refl _), more, [], taken, .refl _, gives_nil rfl⟩

theorem held_drop {job : Job Peer} (held : Held parties bufSize mem ss pending)
    (before : ss ~ .reader (.sending job) :: rest) (after : ss' ~ .reader .getting :: rest) :
    Continues pending .dropped (mem.put job.buf) ss' := by
  refine held_one held before after fun es holds => ?_
  obtain ⟨sized, data, rfl, -⟩ := holds
  have idle : Reader.Holds mem.heap [] (.getting : Reader Peer) := rfl
  exact ⟨transfer_put sized.2, [], _, idle, by rfl, gives_one .dropped trivial rfl⟩

/-- A connection that starts has said nothing. -/
theorem held_enter (held : Held parties bufSize mem ss pending) (after : ss' ~ .conn {} :: ss) :
    Continues pending .internal mem ss' := by
  refine held.step [] [.conn {}] (.refl _) after fun es holds => ?_
  obtain rfl := holding_nil_iff.mp holds
  have silent : Holding parties mem.heap [(.conn {} : Party Peer)] [] :=
    holding_singleton_iff.mpr ⟨between_nil, rfl⟩
  exact ⟨transfer_of_subperm (.refl _), [], [], silent, .refl _, gives_nil rfl⟩

theorem held_forget {pool : List Nat} (held : Held parties bufSize mem ss pending)
    (kept : pool <+ mem.pool) : Continues pending .forgot { mem with pool := pool } ss := by
  refine held.step [] [] (.refl _) (.refl _) fun es holds => ?_
  obtain rfl := holding_nil_iff.mp holds
  exact ⟨transfer_forget kept, [], [], .nil, .refl _, gives_nil rfl⟩

theorem held_conn {c c' : Conn} (held : Held parties bufSize mem ss pending)
    (before : ss ~ .conn c :: rest) (after : ss' ~ .conn c' :: rest) (taken : happens.incoming = [])
    (given : happens.outgoing = [])
    (change : c.talk.Holds mem.heap c.taken c.sent →
      Talked mem mem' c.talk.owned c'.taken c'.sent c'.talk) :
    Continues pending happens mem' ss' := by
  refine held_kept held before after taken given fun es holds => ?_
  obtain ⟨holds, rfl⟩ := holds
  exact ⟨(change holds).moved, (change holds).holds, rfl⟩

/-- A connection changes in what does not concern its buffer. -/
theorem held_conn_same {c c' : Conn} (held : Held parties bufSize mem ss pending)
    (before : ss ~ .conn c :: rest) (after : ss' ~ .conn c' :: rest) (taken : happens.incoming = [])
    (given : happens.outgoing = []) (talk : c'.talk.owned = c.talk.owned)
    (same : c.talk.Holds mem.heap c.taken c.sent → c'.talk.Holds mem.heap c'.taken c'.sent) :
    Continues pending happens mem ss' :=
  held_conn held before after taken given fun holds =>
    ⟨transfer_of_subperm (by rw [talk]), same holds⟩

end Steps

/-- **A step keeps the account.** -/
theorem Step.held {s s' : Service Peer} {happens : Happening Peer}
    {pending : List (Datagram Peer)} (step : Step s happens s')
    (held : Held DNS.parties bufSize s.mem s.parties pending) :
    Continues pending happens s'.mem s'.parties := by
  cases step with
  | reader step =>
      refine held_one held (.refl _) (.refl _) fun es holds => ?_
      obtain ⟨transfer, holds', quiet⟩ := step.holds held.exclusive holds
      exact ⟨transfer, _, [], holds', by rw [append_nil], gives_nil quiet⟩
  | send ready closed space =>
      refine held_send held (.of_eq (Service.parties_reader ready)) ?_
      refine (Service.parties_jobs rfl).trans ?_
      rw [append_nil]
      exact .swap _ _ _
  | drop ready closed full =>
      exact held_drop held (.of_eq (Service.parties_reader ready)) (.refl _)
  | crash ready closed => exact held_same held rfl rfl
  | @receive before after job jobs waiting first =>
      refine held_receive held ?_ (Service.parties_workers rfl)
      refine (Service.parties_workers waiting).trans (.cons _ ?_)
      exact @Service.parties_jobs _ { s with workers := before ++ after } [] jobs job first
  | finish waiting empty closed =>
      have before := Service.parties_workers waiting
      refine held_kept held before (Service.parties_workers rfl) rfl rfl fun es holds => ?_
      exact ⟨transfer_of_subperm (.refl _), holds⟩
  | worker here step =>
      have before := Service.parties_workers here
      refine held_one held before (Service.parties_workers rfl) fun es holds => ?_
      obtain ⟨transfer, es', outs, ⟨holds', split⟩, gives⟩ := step.worked holds
      refine ⟨transfer, es', outs, holds', ?_, gives⟩
      rw [step.incoming, append_nil, split]
  | accept ready socket => exact held_same held rfl rfl
  | acceptFails ready cause => exact held_same held rfl rfl
  | enter ready space =>
      refine held_enter held ((Service.parties_conns rfl).trans ?_)
      rw [append_nil]
      exact .refl _
  | refuse ready full => exact held_same held rfl rfl
  | conn here step =>
      have before := Service.parties_conns here
      exact held_conn held before (Service.parties_conns rfl) rfl rfl (step.talked held.exclusive)
  | release here last slot =>
      have before := Service.parties_conns here
      refine held_conn_same held before (Service.parties_conns rfl) rfl rfl ?_ ?_
      · rw [last]
        rfl
      · rw [last]
        exact id
  | afterFunc here done watched opened =>
      have before := Service.parties_conns here
      exact held_conn_same held before (Service.parties_conns rfl) rfl rfl rfl id
  | arrive here socket up data =>
      have before := Service.parties_conns here
      exact held_conn_same held before (Service.parties_conns rfl) rfl rfl rfl id
  | suffer here suffers =>
      obtain ⟨line, late, rfl⟩ := suffers.eq
      have before := Service.parties_conns here
      exact held_conn_same held before (Service.parties_conns rfl) rfl rfl rfl id
  | network troubled => exact held_same held rfl rfl
  | cancel => exact held_same held rfl rfl
  | forget kept => exact held_forget held kept
  | shutDown ready done => exact held_same held rfl rfl
  | closeUDP ready => exact held_same held rfl rfl
  | closeTCP ready => exact held_same held rfl rfl
  | closeJobs ready reader acceptor => exact held_same held rfl rfl
  | workersDone ready done => exact held_same held rfl rfl
  | connsDone ready done => exact held_same held rfl rfl

/-! ## Runs -/

theorem held_start (n : Nat) :
    Held DNS.parties bufSize (Service.start n : Service Peer).mem
      (Service.start n : Service Peer).parties [] := by
  have idle : ∀ k, Holding DNS.parties ([] : Heap UInt8)
      (map Party.worker (replicate k (.receiving : Worker Peer))) [] := by
    intro k
    induction k with
    | zero => exact .nil
    | succ k ih => exact holding_cons_iff.mpr ⟨[], [], rfl, rfl, ih⟩
  have nothing : ∀ k,
      (map Party.worker (replicate k (.receiving : Worker Peer))).flatMap Party.owned = [] := by
    intro k
    induction k with
    | zero => rfl
    | succ k ih => exact ih
  have free : (Service.start n : Service Peer).parties.flatMap Party.owned = [] := by
    simp only [Service.parties, Service.start, map_nil, nil_append, append_nil, flatMap_cons]
    exact nothing _
  refine ⟨?_, [], .refl _, ?_⟩
  · change Exclusive bufSize _ ((Service.start n : Service Peer).parties.flatMap Party.owned)
    rw [free]
    exact ⟨nodup_nil, nofun, nofun⟩
  · simp only [Service.parties, Service.start, map_nil, nil_append, append_nil]
    exact holding_cons_iff.mpr ⟨[], [], rfl, rfl, idle _⟩

/-- The datagrams that came in are those the parties account for and those that were settled. -/
structure Account (happened : List (Happening Peer)) (pending : List (Datagram Peer))
    (settled : List (Datagram Peer × Fate)) : Prop where
  all : happened.flatMap Happening.incoming ~ pending ++ settled.map Prod.fst
  seen : settled.flatMap (fun x => x.2.seen x.1.2) = happened.flatMap Happening.outgoing
  right : ∀ x ∈ settled, x.2.Right x.1.1

theorem Account.step {happened : List (Happening Peer)}
    {pending pending' outs : List (Datagram Peer)} {settled : List (Datagram Peer × Fate)}
    (account : Account happened pending settled)
    (moved : pending ++ happens.incoming ~ pending' ++ outs) (gives : Gives happens outs) :
    ∃ settled', Account (happened ++ [happens]) pending' settled' := by
  obtain ⟨more, rfl, settles⟩ := gives
  refine ⟨settled ++ more, ?_, ?_, ?_⟩
  · rw [flatMap_append, flatMap_singleton, map_append]
    calc happened.flatMap Happening.incoming ++ happens.incoming
      _ ~ pending ++ settled.map Prod.fst ++ happens.incoming := account.all.append_right _
      _ ~ pending ++ happens.incoming ++ settled.map Prod.fst := by
        rw [append_assoc, append_assoc]
        exact perm_append_comm.append_left pending
      _ ~ pending' ++ more.map Prod.fst ++ settled.map Prod.fst := moved.append_right _
      _ ~ pending' ++ (settled.map Prod.fst ++ more.map Prod.fst) := by
        rw [append_assoc]
        exact perm_append_comm.append_left pending'
  · rw [flatMap_append, flatMap_append, flatMap_singleton, account.seen, settles.seen]
  · exact forall_mem_append.mpr ⟨account.right, settles.right⟩

/-- **All along a run, no buffer is in two hands and every datagram is accounted for.** -/
theorem Serves.account {n : Nat} {happened : List (Happening Peer)} {s : Service Peer}
    (run : Serves (Service.start n) happened s) :
    ∃ pending settled, Held DNS.parties bufSize s.mem s.parties pending ∧
      Account happened pending settled := by
  induction run with
  | nil => exact ⟨[], [], held_start n, .refl _, rfl, nofun⟩
  | snoc run step ih =>
      obtain ⟨pending, settled, held, account⟩ := ih
      obtain ⟨pending', outs, held', moved, gives⟩ := step.held held
      obtain ⟨settled', account'⟩ := account.step moved gives
      exact ⟨pending', settled', held', account'⟩

/-! ## Connections -/

theorem Talk.Holds.spoken {heap : Heap UInt8} {taken sent : Bytes} {t : Talk}
    (holds : t.Holds heap taken sent) : Spoken taken sent := by
  cases t with
  | getting => exact .silent holds
  | header buf => exact .silent holds.2
  | body buf n => exact .silent holds.2.2
  | parsing buf data => exact .silent holds.2.between
  | handling buf req =>
      obtain ⟨-, data, heard, -⟩ := holds
      exact .silent heard.between
  | packing buf resp =>
      obtain ⟨-, data, heard, -⟩ := holds
      exact .silent heard.between
  | framing buf msg =>
      obtain ⟨-, -, data, heard, -⟩ := holds
      exact .silent heard.between
  | writing buf written =>
      obtain ⟨-, data, heard, -⟩ := holds
      exact .silent heard.between
  | putting buf => exact holds.2
  | closing => exact holds
  | releasing => exact holds
  | finished => exact holds

/-- What a party knows, if all account for something. -/
theorem Holding.of_mem {heap : Heap UInt8} {ss : List (Party Peer)} {es : List (Datagram Peer)}
    {p : Party Peer} (holding : Holding DNS.parties heap ss es) (member : p ∈ ss) :
    ∃ mine, p.Holds heap mine := by
  induction holding with
  | nil => cases member
  | cons first _ ih =>
      rcases mem_cons.mp member with rfl | inside
      · exact ⟨_, first⟩
      · exact ih inside

theorem Serves.spoken {n : Nat} {happened : List (Happening Peer)} {s : Service Peer}
    (run : Serves (Service.start n) happened s) {c : Conn} (member : c ∈ s.conns) :
    Spoken c.taken c.sent := by
  obtain ⟨pending, settled, held, -⟩ := run.account
  obtain ⟨es, -, holding⟩ := held.holding
  have inside : .conn c ∈ s.parties :=
    mem_cons_of_mem _ (mem_append_right _ (mem_map_of_mem member))
  obtain ⟨mine, holds, -⟩ := Holding.of_mem holding inside
  exact holds.spoken

/-! ## Results -/

/-- **Every datagram is answered at most once, to its sender, with what `serveUDP` makes of its
first 4096 octets.** -/
theorem serves_datagrams_settled {n : Nat} {happened : List (Happening Peer)} {s : Service Peer}
    (run : Serves (Service.start n) happened s) :
    ∃ (pending : List (Datagram Peer)) (settled : List (Datagram Peer × Fate)),
      happened.flatMap Happening.incoming ~ pending ++ settled.map Prod.fst ∧
      happened.flatMap Happening.outgoing = settled.flatMap (fun x => x.2.seen x.1.2) ∧
      ∀ x ∈ settled, x.2.Right x.1.1 := by
  obtain ⟨pending, settled, -, account⟩ := run.account
  exact ⟨pending, settled, account.all, account.seen.symm, account.right⟩

/-- A header that announces a question, and no question. -/
def cutQuery : Bytes := [0, 7, 1, 0, 0, 1, 0, 0, 0, 0, 0, 0]

theorem serves_cutQuery : ∃ s, Serves (Service.start 1)
    [.internal, .received cutQuery 53, .internal, .internal, .internal,
      .replied (formErr cutQuery) (53 : Nat)] s := by
  have got := Serves.nil.snoc (Step.reader (.get .fresh) : Step (Service.start 1 : Service Nat) _ _)
  have filled := got.snoc (.reader (.read 0 cutQuery 53 rfl))
  have sent := filled.snoc (.send rfl rfl (by decide))
  have received := sent.snoc (.receive (show _ = [] ++ _ :: [] from rfl) rfl)
  have parsed := received.snoc (.worker (show _ = [] ++ _ :: [] from rfl) (.parse _))
  exact ⟨_, parsed.snoc (.worker (show _ = [] ++ _ :: [] from rfl) (.write _ _ rfl))⟩

theorem serves_datagrams_settled_cutQuery :
    ∃ (pending : List (Datagram Nat)) (settled : List (Datagram Nat × Fate)),
      [(cutQuery, 53)] ~ pending ++ settled.map Prod.fst ∧
      [.replied (formErr cutQuery) 53] = settled.flatMap (fun x => x.2.seen x.1.2) ∧
      ∀ x ∈ settled, x.2.Right x.1.1 := by
  obtain ⟨s, run⟩ := serves_cutQuery
  exact serves_datagrams_settled run

/-- **No buffer is in two hands.** -/
theorem serves_buffers_exclusive {n : Nat} {happened : List (Happening Peer)} {s : Service Peer}
    (run : Serves (Service.start n) happened s) :
    (s.parties.flatMap Party.owned ++ s.mem.pool).Nodup ∧
      ∀ b ∈ s.mem.pool, (s.mem.heap.array b).length = bufSize := by
  obtain ⟨pending, settled, held, -⟩ := run.account
  exact ⟨held.exclusive.nodup, held.exclusive.sized⟩

theorem serves_buffers_exclusive_cutQuery : ∃ (happened : List (Happening Nat)) (s : Service Nat),
    Serves (Service.start 1) happened s ∧ happened.flatMap Happening.incoming = [(cutQuery, 53)] ∧
      (s.parties.flatMap Party.owned ++ s.mem.pool).Nodup ∧
      ∀ b ∈ s.mem.pool, (s.mem.heap.array b).length = bufSize := by
  obtain ⟨s, run⟩ := serves_cutQuery
  exact ⟨_, s, run, rfl, serves_buffers_exclusive run⟩

/-- **What is written to a connection are the responses to its first messages**, in their order,
in whatever pieces they came in and however many connections there are. -/
theorem serves_responses_in_order {n : Nat} {happened : List (Happening Peer)} {s : Service Peer}
    (run : Serves (Service.start n) happened s) {c : Conn} (member : c ∈ s.conns) :
    ∃ (talk : List (Bytes × Bytes)) (part : Bytes), (∀ x ∈ talk, OutcomeTCP x.1 (some x.2)) ∧
      c.sent = (talk.map Prod.snd).flatMap frame ++ part ∧
      talk.map Prod.fst <+: messages (c.taken ++ c.unread) ∧
      (part = [] ∨ ∃ data out, OutcomeTCP data (some out) ∧ part <+: frame out ∧
        talk.map Prod.fst ++ [data] <+: messages (c.taken ++ c.unread)) :=
  (run.spoken member).messages c.unread

theorem serves_stream : ∃ (happened : List (Happening Nat)) (s : Service Nat) (c : Conn),
    Serves (Service.start 1) happened s ∧ c ∈ s.conns ∧
      c.taken ++ c.unread = frame cutQuery ++ [0] ∧ c.sent = frame (formErr cutQuery) := by
  have accepted := Serves.nil.snoc (Step.accept rfl rfl : Step (Service.start 1 : Service Nat) _ _)
  have entered := accepted.snoc (.enter rfl (by decide))
  have got := entered.snoc (.conn (show _ = [] ++ _ :: [] from rfl) (.get rfl .fresh))
  have first := got.snoc (.arrive (show _ = [] ++ _ :: [] from rfl) rfl rfl [0])
  have second := first.snoc
    (.arrive (show _ = [] ++ _ :: [] from rfl) rfl rfl (12 :: cutQuery ++ [0]))
  have header := second.snoc
    (.conn (show _ = [] ++ _ :: [] from rfl) (.readHeader rfl rfl (by decide)))
  have body := header.snoc (.conn (show _ = [] ++ _ :: [] from rfl) (.readBody rfl rfl (by decide)))
  have parsed := body.snoc (.conn (show _ = [] ++ _ :: [] from rfl) (.parse rfl))
  have framed := parsed.snoc (.conn (show _ = [] ++ _ :: [] from rfl) (.frame id rfl))
  have written := framed.snoc (.conn (show _ = [] ++ _ :: [] from rfl) (.write rfl rfl))
  exact ⟨_, _, _, written, .head _, rfl, rfl⟩

theorem serves_responses_in_order_cutQuery :
    ∃ (c : Conn) (talk : List (Bytes × Bytes)) (part : Bytes),
    c.sent = frame (formErr cutQuery) ∧ (∀ x ∈ talk, OutcomeTCP x.1 (some x.2)) ∧
      c.sent = (talk.map Prod.snd).flatMap frame ++ part ∧
      talk.map Prod.fst <+: messages (c.taken ++ c.unread) ∧
      (part = [] ∨ ∃ data out, OutcomeTCP data (some out) ∧ part <+: frame out ∧
        talk.map Prod.fst ++ [data] <+: messages (c.taken ++ c.unread)) := by
  obtain ⟨happened, s, c, run, member, -, sent⟩ := serves_stream
  obtain ⟨talk, part, rest⟩ := serves_responses_in_order run member
  exact ⟨c, talk, part, sent, rest⟩

end ShardDNS.DNS

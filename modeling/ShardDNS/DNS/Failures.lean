import ShardDNS.DNS.Envelope

/-!
# Calls that fail

When a call of the resolver fails, `Handle` ends the response with SERVFAIL. The response has
been filled in place by then, by as many passes of the loop as came before, and none of it is
left (`handle_of_failed_call`). The failed lookups of `addGlue` are passed over, and FindZone
may say that a zone is not found.

The proof follows the program: a failed call makes `lookup` fail, a failed `lookup` makes the
pass fail, and a failed pass the loop.
-/

set_option autoImplicit false

namespace ShardDNS.DNS

open Go Store Program

/-- A call that is answered with an error, where an error is none of the expected answers. -/
def Fails : Event Call.Answer → Prop
  | ⟨.findZone _, answer⟩ => ∃ e : StoreError, answer = .error e ∧ e ≠ .notFound
  | ⟨.lookupName _ _, answer⟩ => ∃ e : StoreError, answer = .error e
  | ⟨.lookupGlue _ _, _⟩ => False

namespace Calls

open Handler (Match Step ResolveError serverFailure)

variable {h : Handler} {i : Nat} {resp : Message} {zone : Zone} {name owner : Bytes}
  {qtype : UInt16} {m : Match}

/-! ## Lookup -/

/-- The result is an error. -/
def IsError {α : Type} (result : Except StoreError α) : Prop := ∃ e, result = .error e

theorem fails_lookupName (zone name : Bytes) : (lookupName zone name).Surfaces Fails IsError :=
  Surfaces.call (q := Call.lookupName zone name) fun _ fails => fails

/-- An error is handed on, and what follows a lookup that succeeds may fail in turn. -/
theorem fails_bind {α β : Type} {p : Calling (Except StoreError α)}
    {f : Except StoreError α → Calling (Except StoreError β)} (first : p.Surfaces Fails IsError)
    (handed : ∀ e, f (.error e) = pure (.error e))
    (second : ∀ a, (f (.ok a)).Surfaces Fails IsError) :
    (p >>= f).Surfaces Fails IsError := by
  refine first.bind (fun result failed => ?_) fun result => ?_
  · obtain ⟨e, rfl⟩ := failed
    rw [handed]
    exact .pure ⟨e, rfl⟩
  · cases result with
    | error e =>
        rw [handed]
        exact .pure
    | ok a => exact second a

theorem fails_encloserLoop (zone : Zone) (fuel : Nat) (name : Bytes) :
    (encloserLoop zone fuel name).Surfaces Fails IsError := by
  induction fuel generalizing name with
  | zero => exact .pure
  | succ fuel ih =>
      unfold encloserLoop
      split
      · exact .pure
      · split
        · exact .pure
        · refine fails_bind (fails_lookupName _ _) (fun _ => rfl) fun aset => ?_
          dsimp only
          split
          · exact .pure
          · split
            · split <;> exact .pure
            · split
              · exact .pure
              · exact ih _

theorem fails_lookup (zone : Zone) (name : Bytes) (qtype : UInt16) :
    (lookup zone name qtype).Surfaces Fails IsError := by
  refine fails_bind (fails_lookupName _ _) (fun _ => rfl) fun set => ?_
  dsimp only
  split
  · split <;> exact .pure
  · split
    · exact .pure
    · refine fails_bind (fails_encloserLoop _ _ _) (fun _ => rfl) fun stopped => ?_
      cases stopped with
      | inl m => exact .pure
      | inr encloser =>
          refine fails_bind (fails_lookupName _ _) (fun _ => rfl) fun wset => ?_
          dsimp only
          split <;> exact .pure

theorem fails_zoneFor (name : Bytes) : (zoneFor name).Surfaces Fails IsError := by
  have first : (findZone name).Surfaces Fails fun result =>
      ∃ e, result = .error e ∧ e ≠ .notFound :=
    Surfaces.call (q := Call.findZone name) fun _ fails => fails
  refine first.bind (fun result failed => ?_) fun result => ?_
  · obtain ⟨e, rfl, other⟩ := failed
    cases e with
    | notFound => exact absurd rfl other
    | _ => exact .pure ⟨_, rfl⟩
  · cases result with
    | ok z => exact .pure
    | error e => cases e <;> exact .pure

/-! ## Glue -/

/-- No failure of a lookup for glue counts. -/
theorem fails_addGlueLoop (zone : Zone) (records : List Record) (seen : List Bytes)
    (additional : List RR) :
    (addGlueLoop zone records seen additional).Surfaces Fails fun _ => False := by
  induction records generalizing seen additional with
  | nil => exact .pure
  | cons r records ih =>
      have passed : ∀ target : Bytes, (lookupGlue zone.name target).Surfaces Fails fun _ => False :=
        fun target => Surfaces.call (q := Call.lookupGlue zone.name target) fun _ fails => fails
      unfold addGlueLoop
      dsimp only
      split
      · exact .pure
      · split
        · exact ih _ _
        · split
          · exact ih _ _
          · refine (passed _).bind (fun _ => False.elim) fun answer => ?_
            cases answer with
            | error e => exact ih _ _
            | ok set => exact ih _ _

theorem fails_addGlue (resp : Message) (zone : Zone) (records : List Record) :
    (addGlue resp zone records).Surfaces Fails fun _ => False :=
  (fails_addGlueLoop _ _ _ _).bind (fun _ => False.elim) fun _ => .pure

theorem fails_addAdditional (resp : Message) (zone : Zone) (qtype : UInt16)
    (records : List Record) :
    (addAdditional resp zone qtype records).Surfaces Fails fun _ => False := by
  unfold addAdditional
  split
  · exact fails_addGlue _ _ _
  · exact .pure

/-! ## A pass -/

/-- The pass ends the loop with an error. -/
def Step.IsFailed (step : Step) : Prop := ∃ e, step = .failed e

theorem fails_redirect (target : Bytes) : (redirect target).Surfaces Fails Step.IsFailed := by
  refine (fails_zoneFor target).bind (fun result failed => ?_) fun result => ?_
  · obtain ⟨e, rfl⟩ := failed
    exact .pure ⟨_, rfl⟩
  · cases result with
    | error e => exact .pure
    | ok served => cases served <;> exact .pure

/-- The redirection that ends a pass. -/
theorem fails_redirect_bind (resp : Message) (target : Bytes) :
    (redirect target >>= fun step => (return (resp, step) : Calling (Message × Step))).Surfaces
      Fails
      fun result => Step.IsFailed result.2 :=
  (fails_redirect target).bind (fun _ failed => .pure failed) fun _ => .pure

theorem fails_followDNAME (dnameAt : Bytes) (dname : Record) :
    (followDNAME resp name owner dnameAt dname).Surfaces Fails fun result =>
      Step.IsFailed result.2 := by
  unfold followDNAME
  dsimp only
  split
  · exact .pure
  · split
    · exact .pure
    · split
      · exact .pure
      · exact fails_redirect_bind _ _

theorem fails_followCNAME (cname : Record) (cnames : List Record) :
    (followCNAME h i resp owner cname cnames).Surfaces Fails fun result =>
      Step.IsFailed result.2 := by
  unfold followCNAME
  dsimp only
  split
  · exact .pure
  · exact fails_redirect_bind _ _

theorem fails_answer : (answer h i resp zone name owner qtype m).Surfaces Fails fun result =>
    Step.IsFailed result.2 := by
  unfold answer
  dsimp only
  split
  · exact .pure
  · split
    · split <;> exact .pure
    · split
      · exact (fails_addAdditional _ _ _ _).bind (fun _ => False.elim) fun _ => .pure
      · split
        · exact fails_followCNAME _ _
        · exact .pure

/-- **A call that fails makes the pass fail.** -/
theorem fails_hop : (hop h i resp zone name owner qtype).Surfaces Fails fun result =>
    Step.IsFailed result.2 := by
  refine (fails_lookup zone name qtype).bind (fun result failed => ?_) fun result => ?_
  · obtain ⟨e, rfl⟩ := failed
    exact .pure ⟨_, rfl⟩
  · cases result with
    | error e => exact .pure
    | ok m =>
        dsimp only
        split
        · exact (fails_addGlue _ _ _).bind (fun _ => False.elim) fun _ => .pure
        · split
          · exact fails_followDNAME _ _
          · exact fails_answer

/-- **A pass that fails makes the loop fail**, whatever came before. -/
theorem fails_resolveLoop (left : Nat) :
    (resolveLoop h qtype left resp zone name owner).Surfaces Fails fun result =>
      ∃ e, result.2 = some e := by
  induction left generalizing resp zone name owner with
  | zero => exact .pure
  | succ left ih =>
      refine fails_hop.bind (fun result failed => ?_) fun result => ?_
      · obtain ⟨resp', step⟩ := result
        obtain ⟨e, rfl⟩ := failed
        exact .pure ⟨e, rfl⟩
      · obtain ⟨resp', step⟩ := result
        cases step with
        | failed e => exact .pure
        | done => exact .pure
        | next zone' name' owner' => exact ih

/-! ## The response -/

end Calls

/-- The response when a call has failed: the ID, the opcode, the RD bit, the questions and the
EDNS0 data of the request, with SERVFAIL and no records. -/
def failure (req : Message) : Message :=
  { id := req.id
    flags := flagQR ||| (req.flags &&& flagRD) ||| (req.flags &&& ((0x0F : UInt16) <<< 11)) |||
      rcodeServerFailure
    questions := req.questions
    edns0 := req.edns0
    edns0DO := req.edns0 && req.edns0DO
    edns0Size := if req.edns0 then UInt16.ofNat maxEDNSUDPSize else 0 }

/-- What a failed response keeps is its envelope. -/
theorem serverFailure_eq (resp : Message) :
    Handler.serverFailure resp =
      { resp.envelope with flags := resp.envelope.flags ||| rcodeServerFailure } := by
  have masks : ~~~flagAA &&& ~~~0x000F = ~~~Message.resolutionFlags := by decide
  simp only [Handler.serverFailure, Message.clearAA, Message.setRcode, Message.envelope,
    UInt16.and_assoc, masks]
  rfl

theorem failure_eq (req : Message) :
    failure req = { Message.newResponse req with
      flags := (Message.newResponse req).flags ||| rcodeServerFailure } := by
  rw [Message.flags_newResponse]
  unfold failure Message.newResponse
  cases req.edns0 <;> rfl

theorem setRcode_newResponse (req : Message) :
    (Message.newResponse req).setRcode rcodeServerFailure = failure req := by
  rw [failure_eq, Message.setRcode, Message.flags_newResponse_and (by decide)]
  rfl

theorem serverFailure_of_envelope {req resp : Message}
    (kept : resp.envelope = (Message.newResponse req).envelope) :
    Handler.serverFailure resp = failure req := by
  obtain ⟨answers, authority, additional⟩ := Message.sections_newResponse req
  rw [serverFailure_eq, kept, failure_eq, Message.envelope,
    Message.flags_newResponse_and (by decide)]
  simp only [answers, authority, additional]

theorem echo_failure {req : Message} {mask : UInt16} (echoed : 0x7900 &&& mask = mask) :
    (failure req).flags &&& mask = req.flags &&& mask := by
  have kept : (failure req).flags &&& 0x7900 = req.flags &&& 0x7900 := by
    rw [failure_eq]
    dsimp only
    rw [Message.or_and_mask, Message.flags_newResponse_echo,
      show rcodeServerFailure &&& 0x7900 = 0 by decide, UInt16.or_zero]
  rw [← Message.and_and_of_subset (failure req).flags echoed, kept,
    Message.and_and_of_subset req.flags echoed]

namespace Calls

theorem failed_handleQuestion (h : Handler) (req : Message) (q : Question) :
    (handleQuestion h (Message.newResponse req) q).Surfaces Fails fun resp =>
      resp = failure req := by
  unfold handleQuestion
  dsimp only
  generalize questionName q.name = qname
  split
  · exact .pure
  · have first : (findZone qname).Surfaces Fails fun result =>
        ∃ e, result = .error e ∧ e ≠ .notFound :=
      Surfaces.call (q := Call.findZone qname) fun _ fails => fails
    refine first.bind (fun result failed => ?_) fun result => ?_
    · obtain ⟨e, rfl, other⟩ := failed
      cases e with
      | notFound => exact absurd rfl other
      | _ => exact .pure (setRcode_newResponse req)
    · cases result with
      | error e => cases e <;> exact .pure
      | ok zone =>
          -- the loop has kept the envelope, and only that is left of the response
          have loop : (resolve h (Message.newResponse req).setAA zone qname
              (trimSuffix q.name (ascii ".")) q.type).Surfaces Fails fun result =>
                (∃ e, result.2 = some e) ∧
                  result.1.envelope = (Message.newResponse req).envelope :=
            fun trace result run failed => ⟨fails_resolveLoop _ run failed,
              keeps_resolveLoop (Message.closed_envelope _) _ (Message.envelope_setAA _) run⟩
          refine loop.bind (fun result failed => ?_) fun result => ?_
          · obtain ⟨resp, error⟩ := result
            obtain ⟨⟨e, rfl⟩, kept⟩ := failed
            exact .pure (serverFailure_of_envelope kept)
          · obtain ⟨resp, error⟩ := result
            cases error <;> exact .pure

theorem failed_handle (h : Handler) (req : Message) :
    (handle h req).Surfaces Fails fun resp => resp = failure req := by
  unfold handle
  dsimp only
  split
  · exact .pure
  · split
    · split
      · exact .pure
      · split
        · exact .pure
        · split
          · exact .pure
          · exact failed_handleQuestion h req _
    · exact .pure

/-- **A failed call leaves no partial answer**: whatever the resolver answers, the response of a
request during which a call has failed is the failure of that request, with its opcode and RD
bit, SERVFAIL, AA clear and no records. -/
theorem handle_of_failed_call (h : Handler) (req resp : Message) (trace : List (Event Call.Answer))
    (run : (handle h req).Runs trace resp) (failed : ∃ event ∈ trace, Fails event) :
    resp = failure req ∧ resp.rcode = rcodeServerFailure ∧ resp.aa = false ∧
      resp.opcode = req.opcode ∧ resp.flags &&& flagRD = req.flags &&& flagRD ∧
      resp.answers = [] ∧ resp.authority = [] ∧ resp.additional = [] := by
  have same := failed_handle h req run failed
  rw [same]
  refine ⟨rfl, ?_, ?_, ?_, ?_, rfl, rfl, rfl⟩
  · rw [← setRcode_newResponse, Message.rcode_setRcode]
    decide
  · rw [← setRcode_newResponse, Message.aa_setRcode, Message.aa_newResponse]
  · rw [Message.opcode_eq, Message.opcode_eq, echo_failure (by decide)]
  · exact echo_failure (by decide)

/-! ## An alias whose target cannot be looked up -/

def brokenAlias : Record :=
  { zone := ascii "a", name := ascii "w.a", type := ascii "CNAME", ttl := 300, rdata := ascii "b"
    wire := some [1, 98, 0] }

def brokenHandler : Handler :=
  { resolver := { findZone := fun _ => .error .database, lookupName := fun _ _ => .error .database }
    rotate := fun _ => 0 }

def brokenQuery : Message :=
  { questions := [{ name := ascii "w.a", type := typeA, cls := classIN }] }

/-- The alias is found and appended to the answers; then the database is lost. -/
def brokenTrace : List (Event Call.Answer) :=
  [⟨.findZone (ascii "w.a"), .ok (Zone.plain (ascii "a"))⟩,
   ⟨.lookupName (ascii "a") (ascii "w.a"), .ok { records := [brokenAlias] }⟩,
   ⟨.findZone (ascii "b"), .error .database⟩]

theorem handle_of_failed_call_alias : ∃ resp,
    (handle brokenHandler brokenQuery).Runs brokenTrace resp ∧
      (∃ event ∈ brokenTrace, Fails event) ∧ resp = failure brokenQuery ∧ resp.answers = [] := by
  obtain ⟨resp, run⟩ : ∃ resp, (handle brokenHandler brokenQuery).Runs brokenTrace resp := by
    refine ⟨?_, Runs.ask (q := Call.findZone (ascii "w.a")) _ ?_⟩
    rotate_left
    · refine Runs.ask (q := Call.lookupName (ascii "a") (ascii "w.a")) _ ?_
      refine Runs.ask (q := Call.findZone (ascii "b")) _ ?_
      exact .done _
  have failed : ∃ event ∈ brokenTrace, Fails event :=
    ⟨⟨.findZone (ascii "b"), .error .database⟩, by simp [brokenTrace], .database, rfl, nofun⟩
  have response := handle_of_failed_call brokenHandler brokenQuery resp brokenTrace run failed
  exact ⟨resp, run, failed, response.1, response.2.2.2.2.2.1⟩

end Calls

end ShardDNS.DNS

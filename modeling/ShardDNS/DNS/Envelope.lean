import ShardDNS.DNS.Calls
import ShardDNS.DNS.Resolution

/-!
# What every response keeps

The handler does few things to a response: it sets the response code, sets and clears the AA
bit, fills the answer and authority sections, and appends address records to the additional
section. A property that these keep (`Message.Closed`) is kept by a pass of the resolution
loop (`Calls.keeps_hop`), by any number of passes (`Calls.keeps_resolveLoop`) and by the
handling of a request (`Calls.keeps_handle`), whatever the resolver answers to each call.

All of a response but its three sections, the AA bit and the response code is its envelope,
and it is the one the response started with (`Calls.envelope_handle`).
-/

set_option autoImplicit false

namespace ShardDNS.DNS

open Go Store Program

namespace Message

/-- The flags resolution sets: AA and the response code. -/
def resolutionFlags : UInt16 := flagAA ||| 0x000F

/-- A message without what resolution fills in. -/
def envelope (m : Message) : Message :=
  { m with
    flags := m.flags &&& ~~~resolutionFlags
    answers := []
    authority := []
    additional := [] }

/-- What two messages with one envelope have in common. -/
structure SameEnvelope (a b : Message) : Prop where
  id : a.id = b.id
  questions : a.questions = b.questions
  edns0 : a.edns0 = b.edns0
  edns0Size : a.edns0Size = b.edns0Size
  flags : ∀ {mask : UInt16}, ~~~resolutionFlags &&& mask = mask →
    a.flags &&& mask = b.flags &&& mask

theorem eq_of_envelope {a b : Message} (same : a.envelope = b.envelope) : SameEnvelope a b := by
  have words : a.envelope.id = b.envelope.id ∧ a.envelope.questions = b.envelope.questions ∧
      a.envelope.edns0 = b.envelope.edns0 ∧ a.envelope.edns0Size = b.envelope.edns0Size ∧
      a.envelope.flags = b.envelope.flags := by
    rw [same]
    exact ⟨rfl, rfl, rfl, rfl, rfl⟩
  obtain ⟨sameID, questions, edns0, edns0Size, flags⟩ := words
  refine ⟨sameID, questions, edns0, edns0Size, fun {mask} outside => ?_⟩
  have masked : a.flags &&& ~~~resolutionFlags = b.flags &&& ~~~resolutionFlags := flags
  rw [← and_and_of_subset a.flags outside, masked, and_and_of_subset b.flags outside]

theorem envelope_setRcode (m : Message) (rcode : UInt16) :
    (m.setRcode rcode).envelope = m.envelope := by
  have flags : (m.setRcode rcode).flags &&& ~~~resolutionFlags =
      m.flags &&& ~~~resolutionFlags := by
    simp only [setRcode, or_and_mask]
    rw [and_and_of_disjoint rcode (by decide), UInt16.or_zero,
      and_and_of_subset m.flags (by decide)]
  simp only [envelope, flags]
  rfl

theorem envelope_setAA (m : Message) : m.setAA.envelope = m.envelope := by
  have flags : m.setAA.flags &&& ~~~resolutionFlags = m.flags &&& ~~~resolutionFlags := by
    simp only [setAA, or_and_mask]
    rw [show flagAA &&& ~~~resolutionFlags = 0 by decide, UInt16.or_zero]
  simp only [envelope, flags]
  rfl

theorem envelope_clearAA (m : Message) : m.clearAA.envelope = m.envelope := by
  have flags : m.clearAA.flags &&& ~~~resolutionFlags = m.flags &&& ~~~resolutionFlags := by
    simp only [clearAA]
    rw [and_and_of_subset m.flags (by decide)]
  simp only [envelope, flags]
  rfl

/-- The property is kept by everything the handler does to a response. -/
structure Closed (P : Message → Prop) : Prop where
  setRcode : ∀ {m : Message}, P m → ∀ rcode, P (m.setRcode rcode)
  setAA : ∀ {m : Message}, P m → P m.setAA
  clearAA : ∀ {m : Message}, P m → P m.clearAA
  answers : ∀ {m : Message}, P m → ∀ rrs, P { m with answers := rrs }
  authority : ∀ {m : Message}, P m → ∀ rrs, P { m with authority := rrs }
  addresses : ∀ {m : Message}, P m → ∀ rrs : List RR,
    (∀ rr ∈ rrs, rr.type = typeA ∨ rr.type = typeAAAA) →
      P { m with additional := m.additional ++ rrs }
  failed : ∀ {m : Message}, P m → P (Handler.serverFailure m)

theorem closed_envelope (kept : Message) : Closed fun m => m.envelope = kept where
  setRcode same rcode := by rw [envelope_setRcode, same]
  setAA same := by rw [envelope_setAA, same]
  clearAA same := by rw [envelope_clearAA, same]
  answers same _ := same
  authority same _ := same
  addresses same _ _ := same
  failed same := by
    rw [Handler.serverFailure, envelope_setRcode, envelope_clearAA]
    exact same

/-- No record of the additional section is an OPT record. -/
def NoOPT (m : Message) : Prop := ∀ rr ∈ m.additional, rr.type ≠ typeOPT

theorem closed_noOPT : Closed NoOPT where
  setRcode none _ := none
  setAA none := none
  clearAA none := none
  answers none _ := none
  authority none _ := none
  addresses none rrs addresses := by
    refine List.forall_mem_append.mpr ⟨none, fun rr member => ?_⟩
    rcases addresses rr member with type | type <;> rw [type] <;> decide
  failed _ := nofun

end Message

theorem type_of_rrOf {owner : Bytes} {r : Record} {rr : RR} (sent : rrOf owner r = some rr) :
    rr.type = typeCode r.type := by
  unfold rrOf at sent
  dsimp only at sent
  split at sent
  · cases sent
  · split at sent
    · cases sent
    · cases sent
      rfl

namespace Calls

open Handler (Match Step ResolveError)

variable {P : Message → Prop} {resp : Message} {zone : Zone} {name owner : Bytes} {qtype : UInt16}
  {h : Handler} {i : Nat} {m : Match}

/-! ## Additional records -/

/-- Glue is appended, and it is addresses. -/
theorem addresses_addGlueLoop {records : List Record} {seen : List Bytes} {additional : List RR} :
    (addGlueLoop zone records seen additional).Ensures fun rrs => ∃ more, rrs = additional ++ more ∧
      ∀ rr ∈ more, rr.type = typeA ∨ rr.type = typeAAAA := by
  induction records generalizing seen additional with
  | nil => exact .pure ⟨[], by simp, nofun⟩
  | cons r records ih =>
      unfold addGlueLoop
      dsimp only
      split
      · exact .pure ⟨[], by simp, nofun⟩
      · split
        · exact ih
        · split
          · exact ih
          · refine .step fun answer => ?_
            cases answer with
            | error e => exact ih
            | ok set =>
                dsimp only
                rw [foldl_appendRR]
                intro trace rrs run
                obtain ⟨more, rfl, addresses⟩ := ih run
                refine ⟨_, List.append_assoc .., List.forall_mem_append.mpr ⟨fun rr member => ?_,
                  addresses⟩⟩
                obtain ⟨a, found, sent⟩ := List.mem_filterMap.mp member
                rw [type_of_rrOf sent]
                rcases of_decide_eq_true (List.mem_filter.mp found).2 with type | type
                · exact .inl (by rw [type]; decide +kernel)
                · exact .inr (by rw [type]; decide +kernel)

variable (closed : Message.Closed P)

include closed

theorem keeps_addGlue (start : P resp) (records : List Record) :
    (addGlue resp zone records).Ensures P := by
  refine addresses_addGlueLoop.bind fun additional glue => .pure ?_
  obtain ⟨more, rfl, addresses⟩ := glue
  exact closed.addresses start more addresses

theorem keeps_addAdditional (start : P resp) (records : List Record) :
    (addAdditional resp zone qtype records).Ensures P := by
  unfold addAdditional
  split
  · exact keeps_addGlue closed start records
  · exact .pure start

/-! ## A pass -/

theorem keeps_negative (start : P resp) (found : Bool) : P (negative resp zone found) := by
  have coded : P (if found then resp else resp.setRcode rcodeNXDomain) := by
    cases found with
    | true => exact start
    | false => exact closed.setRcode start _
  unfold negative
  dsimp only
  split
  · exact closed.authority coded _
  · exact coded

theorem keeps_referral (start : P resp) : (referral resp zone m).Ensures P :=
  keeps_addGlue closed (closed.authority (closed.clearAA start) _) _

theorem keeps_followDNAME (start : P resp) (dnameAt : Bytes) (dname : Record) :
    (followDNAME resp name owner dnameAt dname).Ensures fun result => P result.1 := by
  unfold followDNAME
  dsimp only
  split
  · exact .pure (closed.answers start _)
  · split
    · exact .pure (closed.setRcode (closed.answers start _) _)
    · split
      · exact .pure (closed.answers start _)
      · exact .step fun step => .pure (closed.answers start _)

theorem keeps_followCNAME (start : P resp) (cname : Record) (cnames : List Record) :
    (followCNAME h i resp owner cname cnames).Ensures fun result => P result.1 := by
  unfold followCNAME
  dsimp only
  split
  · exact .pure (closed.answers start _)
  · exact .step fun step => .pure (closed.answers start _)

theorem keeps_answerANY (start : P resp) : P (h.answerANY i resp zone name owner m) := by
  rw [Handler.answerANY_eq]
  dsimp only
  split
  · exact keeps_negative closed (closed.answers start _) _
  · exact closed.answers start _

theorem keeps_answer (start : P resp) :
    (answer h i resp zone name owner qtype m).Ensures fun result => P result.1 := by
  unfold answer
  dsimp only
  split
  · exact .pure (keeps_answerANY closed start)
  · split
    · split
      · exact .pure start
      · exact .pure (closed.answers start _)
    · split
      · exact (keeps_addAdditional closed (closed.answers start _) _).bind fun _ kept => .pure kept
      · split
        · exact keeps_followCNAME closed start _ _
        · exact .pure (keeps_negative closed start _)

/-- **One pass keeps what the handler's operations keep.** -/
theorem keeps_hop (start : P resp) :
    (hop h i resp zone name owner qtype).Ensures fun result => P result.1 := by
  refine .step fun looked => ?_
  cases looked with
  | error e => exact .pure start
  | ok m =>
      dsimp only
      split
      · exact (keeps_referral closed start).bind fun _ kept => .pure kept
      · split
        · exact keeps_followDNAME closed start _ _
        · exact keeps_answer closed start

/-- **Any number of passes does.** -/
theorem keeps_resolveLoop (left : Nat) (start : P resp) :
    (resolveLoop h qtype left resp zone name owner).Ensures fun result => P result.1 := by
  induction left generalizing resp zone name owner with
  | zero => exact .pure start
  | succ left ih =>
      refine (keeps_hop closed start).bind fun result kept => ?_
      obtain ⟨resp', step⟩ := result
      cases step with
      | failed e => exact .pure kept
      | done => exact .pure kept
      | next zone' name' owner' => exact ih kept

/-! ## Requests -/

theorem keeps_handleQuestion (start : P resp) (q : Question) :
    (handleQuestion h resp q).Ensures P := by
  unfold handleQuestion
  dsimp only
  split
  · exact .pure (closed.setRcode start _)
  · refine .step fun found => ?_
    cases found with
    | error e => cases e <;> exact .pure (closed.setRcode start _)
    | ok zone =>
        refine (keeps_resolveLoop closed _ (closed.setAA start)).bind fun result kept => ?_
        obtain ⟨resp', error⟩ := result
        cases error with
        | some e => exact .pure (closed.failed kept)
        | none => exact .pure kept

/-- **The handling of a request does.** -/
theorem keeps_handle (h : Handler) (req : Message) (start : P (Message.newResponse req)) :
    (handle h req).Ensures P := by
  unfold handle
  dsimp only
  split
  · exact .pure (closed.setRcode start _)
  · split
    · split
      · exact .pure (closed.setRcode start _)
      · split
        · exact .pure (closed.setRcode start _)
        · split
          · exact .pure (closed.setRcode start _)
          · exact keeps_handleQuestion closed start _
    · exact .pure (closed.setRcode start _)

omit closed in
/-- **Every response has the envelope it started with.** -/
theorem envelope_handle (h : Handler) (req : Message) :
    (handle h req).Ensures fun resp => resp.envelope = (Message.newResponse req).envelope :=
  keeps_handle (Message.closed_envelope _) h req rfl

omit closed in
theorem noOPT_handle (h : Handler) (req : Message) : (handle h req).Ensures Message.NoOPT := by
  refine keeps_handle Message.closed_noOPT h req ?_
  unfold Message.newResponse
  split <;> exact nofun

end Calls

namespace Handler

variable (h : Handler)

theorem envelope_handle (req : Message) :
    (h.handle req).envelope = (Message.newResponse req).envelope := by
  rw [← Calls.answer_handle]
  exact (Calls.envelope_handle h req).answer

@[simp] theorem questions_handle (req : Message) : (h.handle req).questions = req.questions := by
  rw [(Message.eq_of_envelope (h.envelope_handle req)).questions, Message.questions_newResponse]

theorem edns0_handle (req : Message) : (h.handle req).edns0 = req.edns0 := by
  rw [(Message.eq_of_envelope (h.envelope_handle req)).edns0, Message.edns0_newResponse]

theorem edns0Size_handle (req : Message) :
    (h.handle req).edns0Size = if req.edns0 then UInt16.ofNat maxEDNSUDPSize else 0 := by
  rw [(Message.eq_of_envelope (h.envelope_handle req)).edns0Size, Message.newResponse]
  split
  · simp only [Message.setEDNS0]
    decide
  · rfl

end Handler

end ShardDNS.DNS

import ShardDNS.DNS.Datagrams
import ShardDNS.DNS.Groups

/-!
# Rotation permutes the answers

The counter that rotates the answers is shared with other requests, so a request may find any
values in it. Only `appendSet` reads it. What is looked up, where a redirection leads and which
additional records are added is all decided on the records as the resolver gave them.

Two handlers that differ in their counters therefore make the same passes, step by step, and
their responses differ in the order of the answers alone (`shuffled_handle`). A datagram is
filled by the lengths of the records, so both are sent in the same form
(`Message.Shuffled.packedAlike`).
-/

set_option autoImplicit false

namespace ShardDNS.DNS

open Go Store

/-! ## Messages that differ in the order of their answers -/

namespace Message

/-- The second message is the first with its answers in some other order. -/
def Shuffled (m m' : Message) : Prop :=
  ∃ answers, m.answers.Perm answers ∧ m' = { m with answers := answers }

theorem Shuffled.refl (m : Message) : m.Shuffled m := ⟨m.answers, .refl _, rfl⟩

/-- The branch of `PackUDP`: the message is sent whole, without its additional records, or cut
down to its questions. -/
inductive Branch where
  | whole
  | trimmed
  | truncated
  deriving DecidableEq, Repr

def branch (m : Message) : Branch :=
  if m.encode.length ≤ m.udpSize then .whole
  else if m.additional ≠ [] ∧ m.trimmed.encode.length ≤ m.udpSize then .trimmed
  else .truncated

variable {m m' : Message}

theorem Shuffled.length_encode (shuffled : m.Shuffled m') : m.encode.length = m'.encode.length := by
  obtain ⟨answers, order, rfl⟩ := shuffled
  have same := (order.flatMap_right RR.encode).length_eq
  have opt : { m with answers := answers }.optRecords = m.optRecords := rfl
  simp only [encode, opt, List.length_append, header, length_putUint16, same]

/-- The header is the same, as are the counts in it. -/
theorem Shuffled.header_encode (shuffled : m.Shuffled m') :
    m.encode.take 12 = m'.encode.take 12 := by
  obtain ⟨answers, order, rfl⟩ := shuffled
  have size : ∀ n : Message, n.setCounts.header.length = 12 := by
    intro n
    simp [header]
  have counts : m.setCounts.header = { m with answers := answers }.setCounts.header := by
    simp only [setCounts, header, order.length_eq]
  rw [encode, encode, ← size m, List.take_left, counts, size, ← size { m with answers := answers },
    List.take_left]

theorem Shuffled.trimmed (shuffled : m.Shuffled m') : m.trimmed.Shuffled m'.trimmed := by
  obtain ⟨answers, order, rfl⟩ := shuffled
  exact ⟨answers, order, rfl⟩

theorem Shuffled.rdataFits (shuffled : m.Shuffled m') : m.RDataFits ↔ m'.RDataFits := by
  obtain ⟨answers, order, rfl⟩ := shuffled
  simp only [RDataFits, List.mem_append, order.mem_iff]

theorem Shuffled.branch (shuffled : m.Shuffled m') : m.branch = m'.branch := by
  have size := shuffled.length_encode
  have size' := shuffled.trimmed.length_encode
  obtain ⟨answers, order, rfl⟩ := shuffled
  simp only [Message.branch, size, size', udpSize]

theorem Shuffled.datagram (shuffled : m.Shuffled m') : m.datagram.Shuffled m'.datagram := by
  have size := shuffled.length_encode
  have size' := shuffled.trimmed.length_encode
  have trimmed := shuffled.trimmed
  have limit : m.udpSize = m'.udpSize := by
    obtain ⟨answers, -, rfl⟩ := shuffled
    rfl
  have additional : m.additional = m'.additional := by
    obtain ⟨answers, -, rfl⟩ := shuffled
    rfl
  have last : m.truncated = m'.truncated := by
    obtain ⟨answers, -, rfl⟩ := shuffled
    rfl
  unfold Message.datagram
  rw [← size, ← size', ← limit, ← additional, ← last]
  split
  · exact shuffled
  · split
    · exact trimmed
    · exact .refl _

/-- `PackUDP` does the same for both messages: it fails for both, or takes one branch and
writes as many octets behind one header, the TC bit included. -/
structure PackedAlike (m m' : Message) : Prop where
  branch : m.branch = m'.branch
  fails : ∀ e, m.packUDP = .error e ↔ m'.packUDP = .error e
  alike : ∀ out out', m.packUDP = .ok out → m'.packUDP = .ok out' →
    out.length = out'.length ∧ out.take 12 = out'.take 12

theorem Shuffled.packedAlike (shuffled : m.Shuffled m') : m.PackedAlike m' := by
  refine ⟨shuffled.branch, fun e => ?_, fun out out' packed packed' => ?_⟩
  · by_cases fits : m.RDataFits
    · rw [packUDP_of_fits fits, packUDP_of_fits (shuffled.rdataFits.mp fits)]
      simp
    · rw [packUDP_of_not_rdataFits fits,
        packUDP_of_not_rdataFits fun fits' => fits (shuffled.rdataFits.mpr fits')]
  · by_cases fits : m.RDataFits
    · rw [packUDP_of_fits fits] at packed
      rw [packUDP_of_fits (shuffled.rdataFits.mp fits)] at packed'
      cases packed
      cases packed'
      exact ⟨shuffled.datagram.length_encode, shuffled.datagram.header_encode⟩
    · rw [packUDP_of_not_rdataFits fits] at packed
      cases packed

end Message

/-! ## What the counter is not read for -/

namespace Handler

variable {r : Resolver} {rotate rotate' : Nat → UInt32} {i : Nat} {resp : Message} {zone : Zone}
  {name owner : Bytes} {qtype : UInt16} {m : Match} {answers : List RR}

theorem encloserLoop_congr (fuel : Nat) (encloser : Bytes) :
    (Handler.mk r rotate).encloserLoop zone fuel encloser =
      (Handler.mk r rotate').encloserLoop zone fuel encloser := by
  induction fuel generalizing encloser with
  | zero => rfl
  | succ fuel ih => simp only [encloserLoop, ih]

theorem lookup_congr :
    (Handler.mk r rotate).lookup zone name qtype =
      (Handler.mk r rotate').lookup zone name qtype := by
  simp only [lookup, @encloserLoop_congr r rotate rotate']

theorem addGlueLoop_congr (records : List Record) (seen : List Bytes) (additional : List RR) :
    (Handler.mk r rotate).addGlueLoop zone records seen additional =
      (Handler.mk r rotate').addGlueLoop zone records seen additional := by
  induction records generalizing seen additional with
  | nil => rfl
  | cons record records ih => simp only [addGlueLoop, ih]

theorem passes_congr (left : Nat) (zone : Zone) (name owner : Bytes) :
    (Handler.mk r rotate).passes qtype left zone name owner =
      (Handler.mk r rotate').passes qtype left zone name owner := by
  induction left generalizing zone name owner with
  | zero => rfl
  | succ left ih => simp only [passes, follow, @lookup_congr r rotate rotate', ih]

/-! ## A pass with two counters -/

/-- Two passes end alike, with the answers in some other order. -/
def StepAlike (x y : Message × Step) : Prop := x.1.Shuffled y.1 ∧ x.2 = y.2

theorem negative_shuffled {found : Bool} (order : resp.answers.Perm answers) :
    (negative resp zone found).Shuffled (negative { resp with answers := answers } zone found) := by
  refine ⟨answers, ?_, ?_⟩
  · rw [answers_negative]
    exact order
  · unfold negative
    cases found <;> cases soaRR zone <;> rfl

theorem appendSet_perm (order : resp.answers.Perm answers) (owner : Bytes) (records : List Record) :
    ((Handler.mk r rotate).appendSet i resp.answers owner records).Perm
      ((Handler.mk r rotate').appendSet i answers owner records) := by
  rw [appendSet_start, appendSet_start]
  exact order.append (((List.rotate_perm _ _).trans (List.rotate_perm _ _).symm).filterMap _)

theorem referral_shuffled (order : resp.answers.Perm answers) :
    ((Handler.mk r rotate).referral resp zone m).Shuffled
      ((Handler.mk r rotate').referral { resp with answers := answers } zone m) := by
  refine ⟨answers, order, ?_⟩
  unfold referral addGlue
  dsimp only
  rw [addGlueLoop_congr]
  rfl

theorem addAdditional_shuffled (order : resp.answers.Perm answers) (records : List Record) :
    ((Handler.mk r rotate).addAdditional resp zone qtype records).Shuffled
      ((Handler.mk r rotate').addAdditional { resp with answers := answers } zone qtype
        records) := by
  unfold addAdditional
  split
  · exact ⟨answers, order, by unfold addGlue; rw [addGlueLoop_congr]⟩
  · exact ⟨answers, order, rfl⟩

theorem followDNAME_alike {dnameAt : Bytes} {dname : Record} (order : resp.answers.Perm answers) :
    StepAlike ((Handler.mk r rotate).followDNAME resp name owner dnameAt dname)
      ((Handler.mk r rotate').followDNAME { resp with answers := answers } name owner dnameAt
        dname) := by
  have record : (appendRR resp.answers dnameAt dname).Perm (appendRR answers dnameAt dname) := by
    rw [appendRR_eq, appendRR_eq]
    exact order.append_right _
  unfold followDNAME
  dsimp only
  split
  · exact ⟨⟨_, record, rfl⟩, rfl⟩
  · split
    · exact ⟨⟨_, record, rfl⟩, rfl⟩
    · split
      · exact ⟨⟨_, record, rfl⟩, rfl⟩
      · exact ⟨⟨_, record.append_right _, rfl⟩, rfl⟩

theorem followCNAME_alike {cname : Record} {cnames : List Record}
    (order : resp.answers.Perm answers) :
    StepAlike ((Handler.mk r rotate).followCNAME i resp owner cname cnames)
      ((Handler.mk r rotate').followCNAME i { resp with answers := answers } owner cname
        cnames) := by
  have set := @appendSet_perm r rotate rotate' i resp answers order owner (cname :: cnames)
  unfold followCNAME
  dsimp only
  split
  · exact ⟨⟨_, set, rfl⟩, rfl⟩
  · exact ⟨⟨_, set, rfl⟩, rfl⟩

theorem answerANY_shuffled (order : resp.answers.Perm answers) :
    ((Handler.mk r rotate).answerANY i resp zone name owner m).Shuffled
      ((Handler.mk r rotate').answerANY i { resp with answers := answers } zone name owner m) := by
  have set : ((Handler.mk r rotate).anyAnswers i resp zone name owner m).Perm
      ((Handler.mk r rotate').anyAnswers i { resp with answers := answers } zone name owner m) := by
    unfold anyAnswers
    dsimp only
    rw [appendSet_start, appendSet_start]
    exact (order.append_right _).append
      (((List.rotate_perm _ _).trans (List.rotate_perm _ _).symm).filterMap _)
  rw [answerANY_eq, answerANY_eq]
  dsimp only
  rw [← set.length_eq]
  split
  · exact @negative_shuffled { resp with answers := _ } zone _ _ set
  · exact ⟨_, set, rfl⟩

theorem answer_alike (order : resp.answers.Perm answers) :
    StepAlike ((Handler.mk r rotate).answer i resp zone name owner qtype m)
      ((Handler.mk r rotate').answer i { resp with answers := answers } zone name owner
        qtype m) := by
  unfold answer
  dsimp only
  split
  · exact ⟨answerANY_shuffled order, rfl⟩
  · split
    · cases soaRR zone with
      | error e => exact ⟨⟨answers, order, rfl⟩, rfl⟩
      | ok rr => exact ⟨⟨_, order.append_right _, rfl⟩, rfl⟩
    · split
      · rename_i record records _
        have set := @appendSet_perm r rotate rotate' i resp answers order owner (record :: records)
        exact ⟨addAdditional_shuffled set _, rfl⟩
      · split
        · exact followCNAME_alike order
        · exact ⟨negative_shuffled order, rfl⟩

/-- **A pass ends alike with any two counters.** -/
theorem hop_alike (order : resp.answers.Perm answers) :
    StepAlike ((Handler.mk r rotate).hop i resp zone name owner qtype)
      ((Handler.mk r rotate').hop i { resp with answers := answers } zone name owner qtype) := by
  have same := @lookup_congr r rotate rotate' zone name qtype
  cases looked : (Handler.mk r rotate).lookup zone name qtype with
  | error e =>
      rw [hop_of_error looked, hop_of_error (same ▸ looked)]
      exact ⟨⟨answers, order, rfl⟩, rfl⟩
  | ok m =>
      have looked' := same ▸ looked
      by_cases uncut : m.cut = []
      · cases found : m.dname with
        | some dname =>
            rw [hop_of_dname looked uncut found, hop_of_dname looked' uncut found]
            exact followDNAME_alike order
        | none =>
            rw [hop_of_plain looked uncut found, hop_of_plain looked' uncut found]
            exact answer_alike order
      · rw [hop_of_cut looked uncut, hop_of_cut looked' uncut]
        exact ⟨referral_shuffled order, rfl⟩

/-! ## A request with two counters -/

/-- **The loop ends alike**: by induction over the passes left, each of which goes on alike. -/
theorem resolveLoop_alike (left : Nat) (zone : Zone) (name owner : Bytes)
    (order : resp.answers.Perm answers) :
    ((Handler.mk r rotate).resolveLoop qtype left resp zone name owner).1.Shuffled
        ((Handler.mk r rotate').resolveLoop qtype left { resp with answers := answers } zone
          name owner).1 ∧
      ((Handler.mk r rotate).resolveLoop qtype left resp zone name owner).2 =
        ((Handler.mk r rotate').resolveLoop qtype left { resp with answers := answers } zone name
          owner).2 := by
  induction left generalizing resp answers zone name owner with
  | zero => exact ⟨⟨answers, order, rfl⟩, rfl⟩
  | succ left ih =>
      have alike := @hop_alike r rotate rotate' (maxChain - left) resp zone name owner qtype
        answers order
      unfold resolveLoop
      cases first : (Handler.mk r rotate).hop (maxChain - left) resp zone name owner qtype with
      | mk resp₁ step =>
          cases second : (Handler.mk r rotate').hop (maxChain - left)
            { resp with answers := answers } zone name owner qtype with
          | mk resp₂ step₂ =>
              rw [first, second] at alike
              obtain ⟨shuffled, rfl⟩ := alike
              cases step with
              | next zone' name' owner' =>
                  obtain ⟨answers', order', rfl⟩ := shuffled
                  exact ih zone' name' owner' order'
              | done => exact ⟨shuffled, rfl⟩
              | failed e => exact ⟨shuffled, rfl⟩

theorem resolve_alike (resp : Message) (zone : Zone) (name owner : Bytes) :
    ∃ m m' e, m.Shuffled m' ∧
      (Handler.mk r rotate).resolve resp zone name owner qtype = (m, e) ∧
      (Handler.mk r rotate').resolve resp zone name owner qtype = (m', e) := by
  obtain ⟨shuffled, same⟩ := @resolveLoop_alike r rotate rotate' resp qtype resp.answers
    (maxChain + 1) zone name owner (.refl _)
  exact ⟨_, _, _, shuffled, rfl, Prod.ext rfl same.symm⟩

/-- A response without its sections has no answers to reorder. -/
theorem serverFailure_shuffled {m m' : Message} (shuffled : m.Shuffled m') :
    (serverFailure m).Shuffled (serverFailure m') := by
  obtain ⟨answers, -, rfl⟩ := shuffled
  exact .refl _

theorem handleQuestion_shuffled (resp : Message) (q : Question) :
    ((Handler.mk r rotate).handleQuestion resp q).Shuffled
      ((Handler.mk r rotate').handleQuestion resp q) := by
  unfold handleQuestion
  dsimp only
  split
  · exact .refl _
  · cases r.findZone (questionName q.name) with
    | error e => cases e <;> exact .refl _
    | ok zone =>
        obtain ⟨m, m', e, shuffled, first, second⟩ := @resolve_alike r rotate rotate' q.type
          resp.setAA zone (questionName q.name) (trimSuffix q.name (ascii "."))
        dsimp only
        rw [first, second]
        cases e with
        | none => exact shuffled
        | some e => exact serverFailure_shuffled shuffled

/-- **The responses to a request differ in the order of their answers.** -/
theorem shuffled_handle (req : Message) :
    ((Handler.mk r rotate).handle req).Shuffled ((Handler.mk r rotate').handle req) := by
  unfold handle
  dsimp only
  split
  · exact .refl _
  · split
    · split
      · exact .refl _
      · split
        · exact .refl _
        · split
          · exact .refl _
          · exact handleQuestion_shuffled _ _
    · exact .refl _

/-! ## Each record once for each time its set is selected -/

/-- The passes of a request do not depend on the counter. -/
theorem trail_congr (req : Message) :
    (Handler.mk r rotate).trail req = (Handler.mk r rotate').trail req := by
  unfold trail
  split
  · rename_i q _
    split
    · cases r.findZone (questionName q.name) with
      | error e => rfl
      | ok zone =>
          obtain ⟨m, m', e, -, first, second⟩ := @resolve_alike r rotate rotate' q.type
            (Message.newResponse req).setAA zone (questionName q.name)
            (trimSuffix q.name (ascii "."))
          dsimp only
          rw [first, second, @passes_congr r rotate rotate']
          cases e <;> rfl
    · rfl
  · rfl

/-- **Rotation only permutes.** Whatever the values of the counter, a request gets the same
response up to the order of its answers, which are the groups of the passes made, with each
servable record of a set once for each pass that selected it; and `PackUDP` sends the responses
in the same form. -/
theorem rotation_permutes (r : Resolver) (rotate rotate' : Nat → UInt32) (req : Message) :
    let resp := (Handler.mk r rotate).handle req
    let resp' := (Handler.mk r rotate').handle req
    resp' = { resp with answers := resp'.answers } ∧
      resp.answers.Perm resp'.answers ∧
      (Handler.mk r rotate).trail req = (Handler.mk r rotate').trail req ∧
      resp.answers.Perm (((Handler.mk r rotate).trail req).flatMap fun p =>
        p.group.fixed ++ p.group.records.filterMap (rrOf p.group.owner)) ∧
      resp.PackedAlike resp' := by
  have shuffled := @shuffled_handle r rotate rotate' req
  have groups := rrsFrom_perm (Handler.mk r rotate) 0 ((Handler.mk r rotate).trail req)
  simp only [← answers_handle, Group.rrs, List.rotate_zero] at groups
  refine ⟨?_, ?_, trail_congr req, groups, shuffled.packedAlike⟩
  · obtain ⟨answers, -, same⟩ := shuffled
    rw [same]
  · obtain ⟨answers, order, same⟩ := shuffled
    rw [same]
    exact order

end Handler

end ShardDNS.DNS

import ShardDNS.Store.Database

/-!
# The query handler

`handle` answers one request from a resolver. `lookup` finds what a zone says
about a name: its records, a delegation or a DNAME above it, or a wildcard.
`resolve` follows CNAME and DNAME redirections, one pass of its loop (`hop`) per
name looked up, and stops after nine.

The handler's shared counter rotates the answers. Other requests advance it at
any time, so a handler here has any sequence of counter values, one for each
pass of the loop.
-/

set_option autoImplicit false

namespace ShardDNS.DNS

open Go LabelTree Store

def maxChain : Nat := 8

def maxAdditional : Nat := 16

structure Handler where
  resolver : Resolver
  /-- What `rotate.Add(1)` returns in each pass of the loop of `resolve`. -/
  rotate : Nat → UInt32

/-! ## Records as resource records -/

/-- The name that `Handle` looks up for a question name. -/
def questionName (name : Bytes) : Bytes := toLower (trimSuffix name (ascii "."))

/-- `wireOf`: the RDATA of a record. What the store has encoded is sent, also where an error came
with it; without that the text is encoded here. -/
def wireOf (r : Record) : Option Bytes :=
  match r.wire with
  | some wire => some wire
  | none =>
      match r.wireErr with
      | some _ => none
      | none => (buildRData (typeCode r.type) r.rdata).toOption

/-- The resource record `appendRR` appends; none for an unservable record. -/
def rrOf (owner : Bytes) (r : Record) : Option RR :=
  let typ := typeCode r.type
  match wireOf r with
  | none => none
  | some wire =>
      if typ = 0 then none
      else some { name := owner, type := typ, cls := classIN, ttl := r.ttl.toUInt32, rdata := wire }

def appendRR (rrs : List RR) (owner : Bytes) (r : Record) : List RR :=
  match rrOf owner r with
  | some rr => rrs ++ [rr]
  | none => rrs

def filterType (records : List Record) (qtype : UInt16) : List Record :=
  records.filter fun r => typeCode r.type = qtype

/-- `soaRR`: the SOA record of a zone. -/
def soaRR (zone : Zone) : Except PackNameError RR := do
  let admin := replaceFirst zone.adminEmail 64 dot
  let rdata ← buildSOA zone.primaryNS admin (UInt32.ofInt zone.serial) zone.refresh.toUInt32
    zone.retry.toUInt32 zone.expire.toUInt32 zone.minTTL.toUInt32
  .ok
    { name := zone.name, type := typeSOA, cls := classIN, ttl := zone.minTTL.toUInt32
      rdata := rdata }

/-- `negative`: the SOA record in the authority section, and NXDOMAIN for a name
that does not exist. -/
def negative (resp : Message) (zone : Zone) (found : Bool) : Message :=
  let resp := if found then resp else resp.setRcode rcodeNXDomain
  match soaRR zone with
  | .ok soa =>
      let soa := if zone.minTTL.toUInt32 < soa.ttl then { soa with ttl := zone.minTTL.toUInt32 }
        else soa
      { resp with authority := resp.authority ++ [soa] }
  | .error _ => resp

namespace Handler

/-- `appendSet`: all the records, from the one the counter points at. -/
def appendSet (h : Handler) (hop : Nat) (rrs : List RR) (owner : Bytes) (records : List Record) :
    List RR :=
  let start := if 1 < records.length then
      (h.rotate hop % UInt32.ofNat records.length).toNat
    else 0
  (records.rotate start).foldl (fun rrs r => appendRR rrs owner r) rrs

/-- Going through `records[(start+i)%n]` is going through the rotated list. -/
theorem map_get_mod_eq_rotate {α : Type} (records : List α) (start : Nat) :
    ((List.finRange records.length).map fun i : Fin records.length =>
      records.get ⟨(start + i) % records.length, Nat.mod_lt _ i.pos⟩) = records.rotate start := by
  refine List.ext_getElem (by simp) fun i inside _ => ?_
  simp [List.getElem_rotate, Nat.add_comm]

/-- **The loop of `appendSet`**: it appends `records[(start+i)%n]` for `i` from 0 to `n-1`. -/
theorem appendSet_eq_loop (h : Handler) (hop : Nat) (rrs : List RR) (owner : Bytes)
    (records : List Record) :
    h.appendSet hop rrs owner records =
      let start := if 1 < records.length then
          (h.rotate hop % UInt32.ofNat records.length).toNat
        else 0
      (List.finRange records.length).foldl (fun rrs (i : Fin records.length) =>
        appendRR rrs owner (records.get ⟨(start + i) % records.length, Nat.mod_lt _ i.pos⟩))
        rrs := by
  rw [appendSet, ← map_get_mod_eq_rotate, List.foldl_map]

/-! ## Lookup -/

/-- What a zone says about a name. The source's `cut` is nil where it is empty
here. -/
structure Match where
  records : List Record := []
  found : Bool := false
  cutName : Bytes := []
  cut : List Record := []
  dname : Option Record := none
  dnameAt : Bytes := []
  deriving DecidableEq, Repr

/-- The loop of `lookup` over the ancestors of a name. It ends with a delegation or
a DNAME above the name, or with the name it stopped at. -/
def encloserLoop (h : Handler) (zone : Zone) : Nat → Bytes → Except StoreError (Match ⊕ Bytes)
  | 0, encloser => .ok (.inr encloser)
  | fuel + 1, encloser =>
      if encloser = zone.name then .ok (.inr encloser)
      else
        match indexByte encloser dot with
        | none => .ok (.inr encloser)
        | some i => do
            let encloser := encloser.drop (i + 1)
            let aset ← h.resolver.lookupName zone.name encloser
            if encloser ≠ zone.name ∧ 0 < (filterType aset.records typeNS).length then
              .ok (.inl { cutName := encloser, cut := filterType aset.records typeNS })
            else
              match (filterType aset.records typeDNAME).head? with
              | some dname =>
                  if encloser ≠ zone.name then
                    .ok (.inl { dname := some dname, dnameAt := encloser })
                  else .ok (.inr encloser)
              | none =>
                  if aset.exists ∨ encloser = zone.name then .ok (.inr encloser)
                  else h.encloserLoop zone fuel encloser

/-- `lookup`. -/
def lookup (h : Handler) (zone : Zone) (name : Bytes) (qtype : UInt16) :
    Except StoreError Match := do
  let set ← h.resolver.lookupName zone.name name
  if 0 < set.records.length then
    if name ≠ zone.name ∧ qtype ≠ typeDS ∧ 0 < (filterType set.records typeNS).length then
      .ok { cutName := name, cut := filterType set.records typeNS }
    else .ok { records := set.records, found := true }
  else if set.hasChildren ∨ name = zone.name then .ok { found := true }
  else do
    match ← h.encloserLoop zone (name.length + 1) name with
    | .inl m => .ok m
    | .inr encloser =>
        let wset ← h.resolver.lookupName zone.name (ascii "*." ++ encloser)
        if 0 < wset.records.length then .ok { records := wset.records, found := true }
        else .ok {}

/-- `zoneFor`: the zone of a name, if it is served here. -/
def zoneFor (h : Handler) (name : Bytes) : Except StoreError (Option Zone) :=
  match h.resolver.findZone name with
  | .ok z => .ok (some z)
  | .error .notFound => .ok none
  | .error e => .error e

/-! ## Additional records -/

/-- The loop of `addGlue`, with the targets already seen. -/
def addGlueLoop (h : Handler) (zone : Zone) : List Record → List Bytes → List RR → List RR
  | [], _, additional => additional
  | r :: records, seen, additional =>
      if maxAdditional ≤ seen.length then additional
      else
        let target := toLower (rdataNames (typeCode r.type) ((wireOf r).getD []))
        if target = [] ∨ ¬ inZone target zone.name then h.addGlueLoop zone records seen additional
        else if seen.contains target then h.addGlueLoop zone records seen additional
        else
          match h.resolver.lookupName zone.name target with
          | .error _ => h.addGlueLoop zone records (target :: seen) additional
          | .ok set =>
              let addresses := set.records.filter fun a =>
                a.type = ascii "A" ∨ a.type = ascii "AAAA"
              h.addGlueLoop zone records (target :: seen)
                (addresses.foldl (fun rrs a => appendRR rrs target a) additional)

def addGlue (h : Handler) (resp : Message) (zone : Zone) (records : List Record) : Message :=
  { resp with additional := h.addGlueLoop zone records [] resp.additional }

def addAdditional (h : Handler) (resp : Message) (zone : Zone) (qtype : UInt16)
    (records : List Record) : Message :=
  if qtype = typeMX ∨ qtype = typeNS ∨ qtype = typeSRV then h.addGlue resp zone records else resp

/-! ## The resolution loop -/

/-- The errors of `resolve`: the resolver's, and a SOA record asked for that cannot
be encoded. -/
inductive ResolveError where
  | store (e : StoreError)
  | soa (e : PackNameError)
  deriving DecidableEq, Repr

/-- How a pass of the loop of `resolve` ends. -/
inductive Step where
  | failed (e : ResolveError)
  | done
  | next (zone : Zone) (name owner : Bytes)
  deriving DecidableEq, Repr

/-- A redirection goes on in the zone of its target, if that is served here. -/
def redirect (h : Handler) (target : Bytes) : Step :=
  match h.zoneFor target with
  | .error e => .failed (.store e)
  | .ok none => .done
  | .ok (some zone) => .next zone target target

/-- The pass for a name under a delegation: a referral. -/
def referral (h : Handler) (resp : Message) (zone : Zone) (m : Match) : Message :=
  let resp := resp.clearAA
  let resp :=
    { resp with authority := m.cut.foldl (fun rrs r => appendRR rrs m.cutName r) resp.authority }
  h.addGlue resp zone m.cut

/-- The pass for a name under a DNAME record: the record and a CNAME synthesised from
it. -/
def followDNAME (h : Handler) (resp : Message) (name owner dnameAt : Bytes) (dname : Record) :
    Message × Step :=
  let resp := { resp with answers := appendRR resp.answers dnameAt dname }
  let target := rdataNames typeDNAME ((wireOf dname).getD [])
  if target = [] then (resp, .done)
  else
    let next := trimSuffix name (ascii "." ++ dnameAt) ++ ascii "." ++ toLower target
    if 253 < next.length then (resp.setRcode rcodeServerFailure, .done)
    else
      match packName [] next with
      | .error _ => (resp, .done)
      | .ok cname =>
          ({ resp with
              answers := resp.answers ++
                [{ name := owner, type := typeCNAME, cls := classIN
                   ttl := dname.ttl.toUInt32, rdata := cname }] },
            h.redirect next)

/-- The pass for a name with a CNAME record and none of the question's type. -/
def followCNAME (h : Handler) (hop : Nat) (resp : Message) (owner : Bytes) (cname : Record)
    (cnames : List Record) : Message × Step :=
  let resp := { resp with answers := h.appendSet hop resp.answers owner (cname :: cnames) }
  let target := toLower (rdataNames typeCNAME ((wireOf cname).getD []))
  if target = [] then (resp, .done) else (resp, h.redirect target)

/-- The pass of type ANY. -/
def answerANY (h : Handler) (hop : Nat) (resp : Message) (zone : Zone) (name owner : Bytes)
    (m : Match) : Message :=
  let apex := decide (name = zone.name)
  let resp :=
    if apex then
      match soaRR zone with
      | .ok soa => { resp with answers := resp.answers ++ [soa] }
      | .error _ => resp
    else resp
  let resp := { resp with answers := h.appendSet hop resp.answers owner m.records }
  if resp.answers.length = 0 then negative resp zone (m.found || apex) else resp

/-- The pass for a name that is neither under a delegation nor under a DNAME. -/
def answer (h : Handler) (hop : Nat) (resp : Message) (zone : Zone) (name owner : Bytes)
    (qtype : UInt16) (m : Match) : Message × Step :=
  let apex := decide (name = zone.name)
  if qtype = typeANY then (h.answerANY hop resp zone name owner m, .done)
  else if apex ∧ qtype = typeSOA then
    match soaRR zone with
    | .error e => (resp, .failed (.soa e))
    | .ok soa => ({ resp with answers := resp.answers ++ [soa] }, .done)
  else
    match filterType m.records qtype with
    | r :: matched =>
        let resp := { resp with answers := h.appendSet hop resp.answers owner (r :: matched) }
        (h.addAdditional resp zone qtype (r :: matched), .done)
    | [] =>
        match if qtype = typeCNAME then [] else filterType m.records typeCNAME with
        | cname :: cnames => h.followCNAME hop resp owner cname cnames
        | [] => (negative resp zone (0 < m.records.length || m.found || apex), .done)

/-- One pass of the loop of `resolve`. -/
def hop (h : Handler) (hop : Nat) (resp : Message) (zone : Zone) (name owner : Bytes)
    (qtype : UInt16) : Message × Step :=
  match h.lookup zone name qtype with
  | .error e => (resp, .failed (.store e))
  | .ok m =>
      if 0 < m.cut.length then (h.referral resp zone m, .done)
      else
        match m.dname with
        | some dname => h.followDNAME resp name owner m.dnameAt dname
        | none => h.answer hop resp zone name owner qtype m

/-- The loop of `resolve`, for the passes that are left. -/
def resolveLoop (h : Handler) (qtype : UInt16) :
    Nat → Message → Zone → Bytes → Bytes → Message × Option ResolveError
  | 0, resp, _, _, _ => (resp, none)
  | left + 1, resp, zone, name, owner =>
      match h.hop (maxChain - left) resp zone name owner qtype with
      | (resp, .failed e) => (resp, some e)
      | (resp, .done) => (resp, none)
      | (resp, .next zone name owner) => h.resolveLoop qtype left resp zone name owner

/-- `resolve`: the response as far as it got, and the error that stopped it. -/
def resolve (h : Handler) (resp : Message) (zone : Zone) (name owner : Bytes) (qtype : UInt16) :
    Message × Option ResolveError :=
  h.resolveLoop qtype (maxChain + 1) resp zone name owner

/-! ## Requests -/

/-- The response when resolution fails. -/
def serverFailure (resp : Message) : Message :=
  { resp with answers := [], authority := [], additional := [] }.clearAA.setRcode rcodeServerFailure

/-- `Handle`, for a question of a type it resolves. -/
def handleQuestion (h : Handler) (resp : Message) (q : Question) : Message :=
  let qname := questionName q.name
  if qname = [] then resp.setRcode rcodeRefused
  else
    match h.resolver.findZone qname with
    | .error .notFound => resp.setRcode rcodeRefused
    | .error _ => resp.setRcode rcodeServerFailure
    | .ok zone =>
        match h.resolve resp.setAA zone qname (trimSuffix q.name (ascii ".")) q.type with
        | (resp, some _) => serverFailure resp
        | (resp, none) => resp

/-- `Handle`. -/
def handle (h : Handler) (req : Message) : Message :=
  let resp := Message.newResponse req
  if req.opcode ≠ 0 then resp.setRcode rcodeNotImplemented
  else
    match req.questions with
    | [q] =>
        if q.cls ≠ classIN ∧ q.cls ≠ classANY then resp.setRcode rcodeRefused
        else if q.type = typeOPT then resp.setRcode rcodeFormatError
        else if q.type = typeAXFR ∨ q.type = typeIXFR then resp.setRcode rcodeRefused
        else h.handleQuestion resp q
    | _ => resp.setRcode rcodeFormatError

variable {h : Handler} {q : Question} {req : Message}

/-- A pass that ends the loop is its last. -/
theorem resolveLoop_of_done {left : Nat} {resp resp' : Message} {zone : Zone} {name owner : Bytes}
    {qtype : UInt16} (done : h.hop (maxChain - left) resp zone name owner qtype = (resp', .done)) :
    h.resolveLoop qtype (left + 1) resp zone name owner = (resp', none) := by
  simp only [resolveLoop, done]

/-- A first pass that ends the loop is all of it. -/
theorem resolve_of_done {resp resp' : Message} {zone : Zone} {name owner : Bytes} {qtype : UInt16}
    (done : h.hop 0 resp zone name owner qtype = (resp', .done)) :
    h.resolve resp zone name owner qtype = (resp', none) :=
  resolveLoop_of_done (by rw [Nat.sub_self, done])

/-- The request is a query whose question the handler puts to its resolver. -/
def Reaches (req : Message) (q : Question) : Prop :=
  req.opcode = 0 ∧ (q.cls = classIN ∨ q.cls = classANY) ∧
    q.type ∉ [typeOPT, typeAXFR, typeIXFR] ∧ questionName q.name ≠ []

instance (req : Message) (q : Question) : Decidable (Reaches req q) :=
  inferInstanceAs (Decidable (_ ∧ _))

theorem handle_eq_handleQuestion (single : req.questions = [q]) (reaches : Reaches req q) :
    h.handle req = h.handleQuestion (Message.newResponse req) q := by
  obtain ⟨opcode, cls, type, -⟩ := reaches
  simp only [List.mem_cons, List.not_mem_nil, or_false, not_or] at type
  have classed : ¬ (q.cls ≠ classIN ∧ q.cls ≠ classANY) := by tauto
  have transfer : ¬ (q.type = typeAXFR ∨ q.type = typeIXFR) := by tauto
  simp only [handle, opcode, ne_eq, not_true_eq_false, if_false, single, if_neg classed,
    if_neg type.1, if_neg transfer]

/-- A request that does not reach the resolver is turned down. -/
theorem handle_of_not_reaches (kept : ∀ q, req.questions = [q] → ¬ Reaches req q) :
    ∃ rcode ∈ [rcodeFormatError, rcodeNotImplemented, rcodeRefused],
      h.handle req = (Message.newResponse req).setRcode rcode := by
  unfold handle
  dsimp only
  split
  · exact ⟨rcodeNotImplemented, by decide, rfl⟩
  · rename_i opcode
    split
    · rename_i q single
      split
      · exact ⟨rcodeRefused, by decide, rfl⟩
      · rename_i cls
        split
        · exact ⟨rcodeFormatError, by decide, rfl⟩
        · rename_i notOPT
          split
          · exact ⟨rcodeRefused, by decide, rfl⟩
          · rename_i transfer
            have empty : questionName q.name = [] := by
              by_contra named
              refine kept q single ⟨not_not.mp opcode, ?_, ?_, named⟩
              · tauto
              · simp only [List.mem_cons, List.not_mem_nil, or_false]
                tauto
            simp only [handleQuestion, if_pos empty]
            exact ⟨rcodeRefused, by decide, rfl⟩
    · exact ⟨rcodeFormatError, by decide, rfl⟩

/-- It is answered without records. -/
theorem sections_handle_of_not_reaches (h : Handler)
    (kept : ∀ q, req.questions = [q] → ¬ Reaches req q) :
    (h.handle req).answers = [] ∧ (h.handle req).authority = [] ∧
      (h.handle req).additional = [] := by
  obtain ⟨rcode, -, handled⟩ := handle_of_not_reaches (h := h) kept
  rw [handled]
  exact Message.sections_newResponse req

theorem not_reaches_of_single (single : req.questions = [q]) (unreached : ¬ Reaches req q) :
    ∀ q', req.questions = [q'] → ¬ Reaches req q' := by
  intro q' same
  rw [single] at same
  cases same
  exact unreached

/-- A query that reaches the resolver is resolved from its question's zone. -/
theorem handle_of_reaches {zone : Zone} (single : req.questions = [q]) (reaches : Reaches req q)
    (served : h.resolver.findZone (questionName q.name) = .ok zone) :
    h.handle req =
      match h.resolve (Message.newResponse req).setAA zone (questionName q.name)
        (trimSuffix q.name (ascii ".")) q.type with
      | (resp, some _) => serverFailure resp
      | (resp, none) => resp := by
  simp only [handle_eq_handleQuestion single reaches, handleQuestion, if_neg reaches.2.2.2, served]

/-- One without a zone is refused. -/
theorem handle_of_notFound (single : req.questions = [q]) (reaches : Reaches req q)
    (absent : h.resolver.findZone (questionName q.name) = .error .notFound) :
    h.handle req = (Message.newResponse req).setRcode rcodeRefused := by
  simp only [handle_eq_handleQuestion single reaches, handleQuestion, if_neg reaches.2.2.2, absent]

end Handler

end ShardDNS.DNS

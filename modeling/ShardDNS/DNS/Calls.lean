import ShardDNS.DNS.Handler
import ShardDNS.Library.Program

/-!
# The handler and its calls

The handler as a program that calls its resolver. A store that is written to meanwhile, a
cache, a deadline or a lost connection may answer two calls with one argument differently, so
nothing is assumed of the answers. The functions are those of the handler, call by call; of
the handler itself they read the counter only.

With a resolver that is a function they compute what the handler computes
(`answer_handle`).
-/

set_option autoImplicit false

namespace ShardDNS.DNS

open Go Store Program

/-- A call of the resolver. The lookups of `addGlue` are told apart from the others. -/
inductive Call where
  | findZone (name : Bytes)
  | lookupName (zone name : Bytes)
  | lookupGlue (zone name : Bytes)
  deriving DecidableEq, Repr

def Call.Answer : Call → Type
  | .findZone _ => Except StoreError Zone
  | .lookupName _ _ => Except StoreError NameSet
  | .lookupGlue _ _ => Except StoreError NameSet

/-- A program that calls the resolver. -/
abbrev Calling (α : Type) := Program Call Call.Answer α

namespace Calls

open Handler (Match Step ResolveError serverFailure)

/-! ## The calls -/

def findZone (name : Bytes) : Calling (Except StoreError Zone) := call (Call.findZone name)

def lookupName (zone name : Bytes) : Calling (Except StoreError NameSet) :=
  call (Call.lookupName zone name)

def lookupGlue (zone name : Bytes) : Calling (Except StoreError NameSet) :=
  call (Call.lookupGlue zone name)

/-! ## Lookup -/

def encloserLoop (zone : Zone) : Nat → Bytes → Calling (Except StoreError (Match ⊕ Bytes))
  | 0, encloser => return .ok (.inr encloser)
  | fuel + 1, encloser =>
      if encloser = zone.name then return .ok (.inr encloser)
      else
        match indexByte encloser dot with
        | none => return .ok (.inr encloser)
        | some i => do
            let encloser := encloser.drop (i + 1)
            match ← lookupName zone.name encloser with
            | .error e => return .error e
            | .ok aset =>
                if encloser ≠ zone.name ∧ 0 < (filterType aset.records typeNS).length then
                  return .ok (.inl { cutName := encloser, cut := filterType aset.records typeNS })
                else
                  match (filterType aset.records typeDNAME).head? with
                  | some dname =>
                      if encloser ≠ zone.name then
                        return .ok (.inl { dname := some dname, dnameAt := encloser })
                      else return .ok (.inr encloser)
                  | none =>
                      if aset.exists ∨ encloser = zone.name then return .ok (.inr encloser)
                      else encloserLoop zone fuel encloser

def lookup (zone : Zone) (name : Bytes) (qtype : UInt16) : Calling (Except StoreError Match) := do
  match ← lookupName zone.name name with
  | .error e => return .error e
  | .ok set =>
      if 0 < set.records.length then
        if name ≠ zone.name ∧ qtype ≠ typeDS ∧ 0 < (filterType set.records typeNS).length then
          return .ok { cutName := name, cut := filterType set.records typeNS }
        else return .ok { records := set.records, found := true }
      else if set.hasChildren ∨ name = zone.name then return .ok { found := true }
      else
        match ← encloserLoop zone (name.length + 1) name with
        | .error e => return .error e
        | .ok (.inl m) => return .ok m
        | .ok (.inr encloser) =>
            match ← lookupName zone.name (ascii "*." ++ encloser) with
            | .error e => return .error e
            | .ok wset =>
                if 0 < wset.records.length then
                  return .ok { records := wset.records, found := true }
                else return .ok {}

def zoneFor (name : Bytes) : Calling (Except StoreError (Option Zone)) := do
  match ← findZone name with
  | .ok z => return .ok (some z)
  | .error .notFound => return .ok none
  | .error e => return .error e

/-! ## Additional records -/

def addGlueLoop (zone : Zone) : List Record → List Bytes → List RR → Calling (List RR)
  | [], _, additional => return additional
  | r :: records, seen, additional =>
      if maxAdditional ≤ seen.length then return additional
      else
        let target := toLower (rdataNames (typeCode r.type) ((wireOf r).getD []))
        if target = [] ∨ ¬ inZone target zone.name then addGlueLoop zone records seen additional
        else if seen.contains target then addGlueLoop zone records seen additional
        else do
          match ← lookupGlue zone.name target with
          | .error _ => addGlueLoop zone records (target :: seen) additional
          | .ok set =>
              let addresses := set.records.filter fun a =>
                a.type = ascii "A" ∨ a.type = ascii "AAAA"
              addGlueLoop zone records (target :: seen)
                (addresses.foldl (fun rrs a => appendRR rrs target a) additional)

def addGlue (resp : Message) (zone : Zone) (records : List Record) : Calling Message := do
  let additional ← addGlueLoop zone records [] resp.additional
  return { resp with additional := additional }

def addAdditional (resp : Message) (zone : Zone) (qtype : UInt16) (records : List Record) :
    Calling Message :=
  if qtype = typeMX ∨ qtype = typeNS ∨ qtype = typeSRV then addGlue resp zone records
  else return resp

/-! ## The resolution loop -/

def redirect (target : Bytes) : Calling Step := do
  match ← zoneFor target with
  | .error e => return .failed (.store e)
  | .ok none => return .done
  | .ok (some zone) => return .next zone target target

def referral (resp : Message) (zone : Zone) (m : Match) : Calling Message :=
  let resp := resp.clearAA
  let resp :=
    { resp with authority := m.cut.foldl (fun rrs r => appendRR rrs m.cutName r) resp.authority }
  addGlue resp zone m.cut

def followDNAME (resp : Message) (name owner dnameAt : Bytes) (dname : Record) :
    Calling (Message × Step) :=
  let resp := { resp with answers := appendRR resp.answers dnameAt dname }
  let target := rdataNames typeDNAME ((wireOf dname).getD [])
  if target = [] then return (resp, .done)
  else
    let next := trimSuffix name (ascii "." ++ dnameAt) ++ ascii "." ++ toLower target
    if 253 < next.length then return (resp.setRcode rcodeServerFailure, .done)
    else
      match packName [] next with
      | .error _ => return (resp, .done)
      | .ok cname => do
          let resp := { resp with
            answers := resp.answers ++
              [{ name := owner, type := typeCNAME, cls := classIN
                 ttl := dname.ttl.toUInt32, rdata := cname }] }
          let step ← redirect next
          return (resp, step)

def followCNAME (h : Handler) (hop : Nat) (resp : Message) (owner : Bytes) (cname : Record)
    (cnames : List Record) : Calling (Message × Step) :=
  let resp := { resp with answers := h.appendSet hop resp.answers owner (cname :: cnames) }
  let target := toLower (rdataNames typeCNAME ((wireOf cname).getD []))
  if target = [] then return (resp, .done)
  else do
    let step ← redirect target
    return (resp, step)

def answer (h : Handler) (hop : Nat) (resp : Message) (zone : Zone) (name owner : Bytes)
    (qtype : UInt16) (m : Match) : Calling (Message × Step) :=
  let apex := decide (name = zone.name)
  if qtype = typeANY then return (h.answerANY hop resp zone name owner m, .done)
  else if apex ∧ qtype = typeSOA then
    match soaRR zone with
    | .error e => return (resp, .failed (.soa e))
    | .ok soa => return ({ resp with answers := resp.answers ++ [soa] }, .done)
  else
    match filterType m.records qtype with
    | r :: matched => do
        let resp := { resp with answers := h.appendSet hop resp.answers owner (r :: matched) }
        let resp ← addAdditional resp zone qtype (r :: matched)
        return (resp, .done)
    | [] =>
        match if qtype = typeCNAME then [] else filterType m.records typeCNAME with
        | cname :: cnames => followCNAME h hop resp owner cname cnames
        | [] => return (negative resp zone (0 < m.records.length || m.found || apex), .done)

def hop (h : Handler) (hop : Nat) (resp : Message) (zone : Zone) (name owner : Bytes)
    (qtype : UInt16) : Calling (Message × Step) := do
  match ← lookup zone name qtype with
  | .error e => return (resp, .failed (.store e))
  | .ok m =>
      if 0 < m.cut.length then
        let resp ← referral resp zone m
        return (resp, .done)
      else
        match m.dname with
        | some dname => followDNAME resp name owner m.dnameAt dname
        | none => answer h hop resp zone name owner qtype m

def resolveLoop (h : Handler) (qtype : UInt16) :
    Nat → Message → Zone → Bytes → Bytes → Calling (Message × Option ResolveError)
  | 0, resp, _, _, _ => return (resp, none)
  | left + 1, resp, zone, name, owner => do
      match ← hop h (maxChain - left) resp zone name owner qtype with
      | (resp, .failed e) => return (resp, some e)
      | (resp, .done) => return (resp, none)
      | (resp, .next zone name owner) => resolveLoop h qtype left resp zone name owner

def resolve (h : Handler) (resp : Message) (zone : Zone) (name owner : Bytes) (qtype : UInt16) :
    Calling (Message × Option ResolveError) :=
  resolveLoop h qtype (maxChain + 1) resp zone name owner

/-! ## Requests -/

def handleQuestion (h : Handler) (resp : Message) (q : Question) : Calling Message :=
  let qname := questionName q.name
  if qname = [] then return resp.setRcode rcodeRefused
  else do
    match ← findZone qname with
    | .error .notFound => return resp.setRcode rcodeRefused
    | .error _ => return resp.setRcode rcodeServerFailure
    | .ok zone =>
        match ← resolve h resp.setAA zone qname (trimSuffix q.name (ascii ".")) q.type with
        | (resp, some _) => return serverFailure resp
        | (resp, none) => return resp

/-- `Handle`, call by call. -/
def handle (h : Handler) (req : Message) : Calling Message :=
  let resp := Message.newResponse req
  if req.opcode ≠ 0 then return resp.setRcode rcodeNotImplemented
  else
    match req.questions with
    | [q] =>
        if q.cls ≠ classIN ∧ q.cls ≠ classANY then return resp.setRcode rcodeRefused
        else if q.type = typeOPT then return resp.setRcode rcodeFormatError
        else if q.type = typeAXFR ∨ q.type = typeIXFR then return resp.setRcode rcodeRefused
        else handleQuestion h resp q
    | _ => return resp.setRcode rcodeFormatError

/-! ## With the handler's own resolver -/

/-- The answers of a handler's resolver. -/
def service (h : Handler) : (c : Call) → c.Answer
  | .findZone name => h.resolver.findZone name
  | .lookupName zone name => h.resolver.lookupName zone name
  | .lookupGlue zone name => h.resolver.lookupName zone name

variable {h : Handler}

@[simp] theorem answer_findZone (name : Bytes) :
    (findZone name).answer (service h) = h.resolver.findZone name := rfl

@[simp] theorem answer_lookupName (zone name : Bytes) :
    (lookupName zone name).answer (service h) = h.resolver.lookupName zone name := rfl

@[simp] theorem answer_lookupGlue (zone name : Bytes) :
    (lookupGlue zone name).answer (service h) = h.resolver.lookupName zone name := rfl

@[simp] theorem answer_encloserLoop (zone : Zone) (fuel : Nat) (name : Bytes) :
    (encloserLoop zone fuel name).answer (service h) = h.encloserLoop zone fuel name := by
  induction fuel generalizing name with
  | zero => rfl
  | succ fuel ih =>
      unfold encloserLoop Handler.encloserLoop
      split
      · rfl
      · cases indexByte name dot with
        | none => rfl
        | some i =>
            dsimp only
            rw [answer_bind, answer_lookupName]
            cases h.resolver.lookupName zone.name (name.drop (i + 1)) with
            | error e => rfl
            | ok aset =>
                rw [ok_bind]
                dsimp only
                split
                · rfl
                · cases (filterType aset.records typeDNAME).head? with
                  | some dname => dsimp only; split <;> rfl
                  | none =>
                      dsimp only
                      split
                      · rfl
                      · exact ih _

@[simp] theorem answer_lookup (zone : Zone) (name : Bytes) (qtype : UInt16) :
    (lookup zone name qtype).answer (service h) = h.lookup zone name qtype := by
  unfold lookup Handler.lookup
  rw [answer_bind, answer_lookupName]
  cases h.resolver.lookupName zone.name name with
  | error e => rfl
  | ok set =>
      rw [ok_bind]
      dsimp only
      split
      · split <;> rfl
      · split
        · rfl
        · rw [answer_bind, answer_encloserLoop]
          cases h.encloserLoop zone (name.length + 1) name with
          | error e => rfl
          | ok stopped =>
              rw [ok_bind]
              cases stopped with
              | inl m => rfl
              | inr encloser =>
                  dsimp only
                  rw [answer_bind, answer_lookupName]
                  cases h.resolver.lookupName zone.name (ascii "*." ++ encloser) with
                  | error e => rfl
                  | ok wset =>
                      rw [ok_bind]
                      dsimp only
                      split <;> rfl

@[simp] theorem answer_zoneFor (name : Bytes) :
    (zoneFor name).answer (service h) = h.zoneFor name := by
  unfold zoneFor Handler.zoneFor
  rw [answer_bind, answer_findZone]
  cases h.resolver.findZone name with
  | ok z => rfl
  | error e => cases e <;> rfl

@[simp] theorem answer_addGlueLoop (zone : Zone) (records : List Record) (seen : List Bytes)
    (additional : List RR) :
    (addGlueLoop zone records seen additional).answer (service h) =
      h.addGlueLoop zone records seen additional := by
  induction records generalizing seen additional with
  | nil => rfl
  | cons r records ih =>
      unfold addGlueLoop Handler.addGlueLoop
      dsimp only
      split
      · rfl
      · split
        · exact ih _ _
        · split
          · exact ih _ _
          · rw [answer_bind, answer_lookupGlue]
            generalize toLower (rdataNames (typeCode r.type) ((wireOf r).getD [])) = target
            cases h.resolver.lookupName zone.name target with
            | error e => exact ih _ _
            | ok set => exact ih _ _

@[simp] theorem answer_addGlue (resp : Message) (zone : Zone) (records : List Record) :
    (addGlue resp zone records).answer (service h) = h.addGlue resp zone records := by
  rw [addGlue, answer_bind, answer_addGlueLoop]
  rfl

@[simp] theorem answer_addAdditional (resp : Message) (zone : Zone) (qtype : UInt16)
    (records : List Record) :
    (addAdditional resp zone qtype records).answer (service h) =
      h.addAdditional resp zone qtype records := by
  unfold addAdditional Handler.addAdditional
  split
  · exact answer_addGlue ..
  · rfl

@[simp] theorem answer_redirect (target : Bytes) :
    (redirect target).answer (service h) = h.redirect target := by
  unfold redirect Handler.redirect
  rw [answer_bind, answer_zoneFor]
  cases h.zoneFor target with
  | error e => rfl
  | ok served => cases served <;> rfl

@[simp] theorem answer_referral (resp : Message) (zone : Zone) (m : Match) :
    (referral resp zone m).answer (service h) = h.referral resp zone m :=
  answer_addGlue ..

@[simp] theorem answer_followDNAME (resp : Message) (name owner dnameAt : Bytes) (dname : Record) :
    (followDNAME resp name owner dnameAt dname).answer (service h) =
      h.followDNAME resp name owner dnameAt dname := by
  unfold followDNAME Handler.followDNAME
  dsimp only
  split
  · rfl
  · split
    · rfl
    · generalize trimSuffix name (ascii "." ++ dnameAt) ++ ascii "." ++
        toLower (rdataNames typeDNAME ((wireOf dname).getD [])) = next
      cases packName [] next with
      | error e => rfl
      | ok cname =>
          dsimp only
          rw [answer_bind, answer_redirect]
          rfl

@[simp] theorem answer_followCNAME (i : Nat) (resp : Message) (owner : Bytes) (cname : Record)
    (cnames : List Record) :
    (followCNAME h i resp owner cname cnames).answer (service h) =
      h.followCNAME i resp owner cname cnames := by
  unfold followCNAME Handler.followCNAME
  dsimp only
  split
  · rfl
  · rw [answer_bind, answer_redirect]
    rfl

@[simp] theorem answer_answer (i : Nat) (resp : Message) (zone : Zone) (name owner : Bytes)
    (qtype : UInt16) (m : Match) :
    (answer h i resp zone name owner qtype m).answer (service h) =
      h.answer i resp zone name owner qtype m := by
  unfold answer Handler.answer
  dsimp only
  split
  · rfl
  · split
    · cases soaRR zone <;> rfl
    · cases filterType m.records qtype with
      | cons r matched =>
          dsimp only
          rw [answer_bind, answer_addAdditional]
          rfl
      | nil =>
          dsimp only
          cases if qtype = typeCNAME then [] else filterType m.records typeCNAME with
          | cons cname cnames => exact answer_followCNAME ..
          | nil => rfl

@[simp] theorem answer_hop (i : Nat) (resp : Message) (zone : Zone) (name owner : Bytes)
    (qtype : UInt16) :
    (hop h i resp zone name owner qtype).answer (service h) =
      h.hop i resp zone name owner qtype := by
  unfold hop Handler.hop
  rw [answer_bind, answer_lookup]
  cases h.lookup zone name qtype with
  | error e => rfl
  | ok m =>
      dsimp only
      split
      · rw [answer_bind, answer_referral]
        rfl
      · cases m.dname with
        | some dname => exact answer_followDNAME ..
        | none => exact answer_answer ..

@[simp] theorem answer_resolveLoop (qtype : UInt16) (left : Nat) (resp : Message) (zone : Zone)
    (name owner : Bytes) :
    (resolveLoop h qtype left resp zone name owner).answer (service h) =
      h.resolveLoop qtype left resp zone name owner := by
  induction left generalizing resp zone name owner with
  | zero => rfl
  | succ left ih =>
      unfold resolveLoop Handler.resolveLoop
      rw [answer_bind, answer_hop]
      obtain ⟨resp', step⟩ := h.hop (maxChain - left) resp zone name owner qtype
      cases step with
      | failed e => rfl
      | done => rfl
      | next zone' name' owner' => exact ih ..

@[simp] theorem answer_handleQuestion (resp : Message) (q : Question) :
    (handleQuestion h resp q).answer (service h) = h.handleQuestion resp q := by
  unfold handleQuestion Handler.handleQuestion resolve Handler.resolve
  dsimp only
  split
  · rfl
  · rw [answer_bind, answer_findZone]
    generalize questionName q.name = qname
    cases h.resolver.findZone qname with
    | error e => cases e <;> rfl
    | ok zone =>
        dsimp only
        rw [answer_bind, answer_resolveLoop]
        obtain ⟨resp', error⟩ := h.resolveLoop q.type (maxChain + 1) resp.setAA zone qname
          (trimSuffix q.name (ascii "."))
        cases error <;> rfl

/-- **A resolver that is a function answers the program with what the handler computes.** -/
theorem answer_handle (h : Handler) (req : Message) :
    (handle h req).answer (service h) = h.handle req := by
  unfold handle Handler.handle
  dsimp only
  split
  · rfl
  · rcases req.questions with - | ⟨q, - | ⟨q', more⟩⟩
    · rfl
    · dsimp only
      split
      · rfl
      · split
        · rfl
        · split
          · rfl
          · exact answer_handleQuestion ..
    · rfl

end Calls

end ShardDNS.DNS

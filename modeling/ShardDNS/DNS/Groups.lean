import ShardDNS.DNS.Chains
import ShardDNS.DNS.Folding

/-!
# The answers, pass by pass

A pass of the resolution loop adds a group of records to the answers: a DNAME record and the
CNAME record synthesised from it, a SOA record, or the records of one name, rotated. Which
group that is depends on what was found, not on the counter (`Pass.group`). The passes of a
question are a list that the resolver alone determines (`passes`), and the answers are the
groups of these passes, one after the other (`answers_resolveLoop_eq`, `answers_handle`).
-/

set_option autoImplicit false

namespace ShardDNS.DNS

open Go Store LabelTree

/-! ## Groups -/

/-- What a pass adds to the answers: records in a fixed order, and a set that is rotated. -/
structure Group where
  fixed : List RR := []
  owner : Bytes
  records : List Record := []

/-- The group, with its set taken from a place on. -/
def Group.rrs (g : Group) (start : Nat) : List RR :=
  g.fixed ++ (g.records.rotate start).filterMap (rrOf g.owner)

variable {rr : RR}

/-- The records of a group do not depend on where its set starts. -/
theorem Group.mem_rrs {g : Group} {start : Nat} :
    rr ∈ g.rrs start ↔ rr ∈ g.fixed ∨ ∃ r ∈ g.records, rrOf g.owner r = some rr := by
  simp only [Group.rrs, List.mem_append, List.mem_filterMap, List.mem_rotate]

/-- Nor does how often they occur. -/
theorem Group.rrs_perm (g : Group) (start start' : Nat) : (g.rrs start).Perm (g.rrs start') := by
  have both : (g.records.rotate start).Perm (g.records.rotate start') :=
    (List.rotate_perm _ _).trans (List.rotate_perm _ _).symm
  exact (both.filterMap _).append_left _

/-- The CNAME record synthesised from a DNAME record, for the name it leads to. -/
def synthesisedRR (owner : Bytes) (dname : Record) (next : Bytes) : RR :=
  { name := owner, type := typeCNAME, cls := classIN, ttl := dname.ttl.toUInt32
    rdata := encodeLabels (textLabels next) ++ [0] }

/-- The records that answer a question: those of its type, or else of type CNAME. -/
def answerSet (qtype : UInt16) (records : List Record) : List Record :=
  if filterType records qtype ≠ [] then filterType records qtype
  else if qtype = typeCNAME then []
  else filterType records typeCNAME

/-- A pass of the loop: what it looks up, and what it finds. -/
structure Pass where
  qtype : UInt16
  zone : Zone
  name : Bytes
  owner : Bytes
  found : Handler.Match

namespace Pass

/-- The group of a pass. -/
def group (p : Pass) : Group :=
  if p.found.cut ≠ [] then { owner := p.owner }
  else
    match p.found.dname with
    | some dname =>
        { owner := p.owner
          fixed := (rrOf p.found.dnameAt dname).toList ++
            ((Handler.dnameTarget p.name p.found.dnameAt dname).map
              (synthesisedRR p.owner dname)).toList }
    | none =>
        if p.qtype = typeANY then
          { owner := p.owner
            fixed := if p.name = p.zone.name then (soaRR p.zone).toOption.toList else []
            records := p.found.records }
        else if p.name = p.zone.name ∧ p.qtype = typeSOA then
          { owner := p.owner, fixed := (soaRR p.zone).toOption.toList }
        else { owner := p.owner, records := answerSet p.qtype p.found.records }

/-- The name the pass goes on at. -/
def target (p : Pass) : Option Bytes :=
  if p.found.cut = [] then Handler.target p.qtype p.zone p.name p.found else none

variable {p : Pass}

theorem group_of_cut (cut : p.found.cut ≠ []) : p.group = { owner := p.owner } := by
  rw [group, if_pos cut]

theorem group_of_dname {dname : Record} (uncut : p.found.cut = [])
    (dnamed : p.found.dname = some dname) :
    p.group =
      { owner := p.owner
        fixed := (rrOf p.found.dnameAt dname).toList ++
          ((Handler.dnameTarget p.name p.found.dnameAt dname).map
            (synthesisedRR p.owner dname)).toList } := by
  simp only [group, uncut, ne_eq, not_true_eq_false, if_false, dnamed]

theorem group_of_any (uncut : p.found.cut = []) (plain : p.found.dname = none)
    (any : p.qtype = typeANY) :
    p.group =
      { owner := p.owner
        fixed := if p.name = p.zone.name then (soaRR p.zone).toOption.toList else []
        records := p.found.records } := by
  simp only [group, uncut, ne_eq, not_true_eq_false, if_false, plain, if_pos any]

theorem group_of_soa (uncut : p.found.cut = []) (plain : p.found.dname = none)
    (asked : p.name = p.zone.name ∧ p.qtype = typeSOA) :
    p.group = { owner := p.owner, fixed := (soaRR p.zone).toOption.toList } := by
  have notANY : p.qtype ≠ typeANY := by
    rw [asked.2]
    decide
  simp only [group, uncut, ne_eq, not_true_eq_false, if_false, plain, if_neg notANY, if_pos asked]

theorem group_of_set (uncut : p.found.cut = []) (plain : p.found.dname = none)
    (notANY : p.qtype ≠ typeANY) (other : ¬ (p.name = p.zone.name ∧ p.qtype = typeSOA)) :
    p.group = { owner := p.owner, records := answerSet p.qtype p.found.records } := by
  simp only [group, uncut, ne_eq, not_true_eq_false, if_false, plain, if_neg notANY, if_neg other]

/-- The cases of a pass: a cut, a DNAME record, all records, the SOA record of an apex, and the
records of a type. -/
inductive Kind (p : Pass) : Prop where
  | cut (cut : p.found.cut ≠ [])
  | dname (dname : Record) (uncut : p.found.cut = []) (found : p.found.dname = some dname)
  | any (uncut : p.found.cut = []) (plain : p.found.dname = none) (any : p.qtype = typeANY)
  | soa (uncut : p.found.cut = []) (plain : p.found.dname = none)
      (asked : p.name = p.zone.name ∧ p.qtype = typeSOA)
  | set (uncut : p.found.cut = []) (plain : p.found.dname = none) (notANY : p.qtype ≠ typeANY)
      (other : ¬ (p.name = p.zone.name ∧ p.qtype = typeSOA))

theorem kind (p : Pass) : p.Kind := by
  by_cases uncut : p.found.cut = []
  · cases found : p.found.dname with
    | some dname => exact .dname dname uncut found
    | none =>
        by_cases any : p.qtype = typeANY
        · exact .any uncut found any
        · by_cases asked : p.name = p.zone.name ∧ p.qtype = typeSOA
          · exact .soa uncut found asked
          · exact .set uncut found any asked
  · exact .cut uncut

theorem owner_group : p.group.owner = p.owner := by
  cases p.kind with
  | cut cut => rw [group_of_cut cut]
  | dname dname uncut found => rw [group_of_dname uncut found]
  | any uncut plain any => rw [group_of_any uncut plain any]
  | soa uncut plain asked => rw [group_of_soa uncut plain asked]
  | set uncut plain notANY other => rw [group_of_set uncut plain notANY other]

/-- The pass answers with the SOA record of its zone. -/
def AnswersSOA (p : Pass) : Prop :=
  p.name = p.zone.name ∧ (p.qtype = typeANY ∨ p.qtype = typeSOA) ∧ ∃ soa, soaRR p.zone = .ok soa

/-- The stored records the pass answers with. -/
def stored (p : Pass) : List RR := p.group.records.filterMap (rrOf p.owner)

/-- Where a record that a pass adds is from. -/
inductive Source (p : Pass) (rr : RR) : Prop where
  | dname (dname : Record) (found : p.found.dname = some dname)
      (sent : rrOf p.found.dnameAt dname = some rr)
  | synthesised (dname : Record) (next : Bytes) (found : p.found.dname = some dname)
      (leads : Handler.dnameTarget p.name p.found.dnameAt dname = some next)
      (same : rr = synthesisedRR p.owner dname next)
  | soa (answers : p.AnswersSOA) (built : soaRR p.zone = .ok rr)
  | stored (member : rr ∈ p.stored)

theorem mem_soaRR_iff {zone : Zone} : rr ∈ (soaRR zone).toOption.toList ↔ soaRR zone = .ok rr := by
  cases soaRR zone with
  | error e => simp [Except.toOption]
  | ok soa => simp [Except.toOption, eq_comm]

theorem owner_and_type_of_soaRR {zone : Zone} {soa : RR} (built : soaRR zone = .ok soa) :
    soa.name = zone.name ∧ soa.type = typeSOA := by
  obtain ⟨rdata, -, same⟩ := bind_eq_ok.mp built
  cases same
  exact ⟨rfl, rfl⟩

theorem mem_stored_iff : rr ∈ p.stored ↔ ∃ r ∈ p.group.records, rrOf p.group.owner r = some rr := by
  rw [owner_group, stored, List.mem_filterMap]

/-- The records before the stored ones are those of a DNAME record, or the SOA record. -/
theorem Source.of_fixed (member : rr ∈ p.group.fixed) : p.Source rr := by
  cases p.kind with
  | cut cut =>
      rw [group_of_cut cut] at member
      cases member
  | dname dname uncut found =>
      rw [group_of_dname uncut found, List.mem_append, Option.mem_toList,
        Option.mem_toList] at member
      rcases member with sent | written
      · exact .dname dname found sent
      · obtain ⟨next, leads, rfl⟩ := Option.map_eq_some_iff.mp written
        exact .synthesised dname next found leads rfl
  | any uncut plain any =>
      rw [group_of_any uncut plain any] at member
      dsimp only at member
      split at member
      · rename_i at'
        have built := mem_soaRR_iff.mp member
        exact .soa ⟨at', .inl any, rr, built⟩ built
      · cases member
  | soa uncut plain asked =>
      rw [group_of_soa uncut plain asked] at member
      have built := mem_soaRR_iff.mp member
      exact .soa ⟨asked.1, .inr asked.2, rr, built⟩ built
  | set uncut plain notANY other =>
      rw [group_of_set uncut plain notANY other] at member
      cases member

/-- **What a pass adds**: the records from each of its sources. -/
theorem mem_rrs_iff_source (kept : p.found.dname ≠ none → p.found.cut = [])
    (apex : p.name = p.zone.name → p.found.cut = [] ∧ p.found.dname = none) :
    rr ∈ p.group.rrs 0 ↔ p.Source rr := by
  rw [Group.mem_rrs, ← mem_stored_iff]
  constructor
  · rintro (member | member)
    · exact .of_fixed member
    · exact .stored member
  · rintro (⟨dname, found, sent⟩ | ⟨dname, next, found, leads, rfl⟩ | ⟨answers, built⟩ | member)
    · rw [group_of_dname (kept (by simp [found])) found]
      exact .inl (List.mem_append_left _ (Option.mem_toList.mpr sent))
    · rw [group_of_dname (kept (by simp [found])) found]
      refine .inl (List.mem_append_right _ (Option.mem_toList.mpr ?_))
      rw [leads, Option.map_some]
    · obtain ⟨at', type, -⟩ := answers
      obtain ⟨uncut, plain⟩ := apex at'
      rcases type with any | asked
      · rw [group_of_any uncut plain any]
        dsimp only
        rw [if_pos at']
        exact .inl (mem_soaRR_iff.mpr built)
      · rw [group_of_soa uncut plain ⟨at', asked⟩]
        exact .inl (mem_soaRR_iff.mpr built)
    · exact .inr member

end Pass

/-- The question name as it is spelled, without a final dot. -/
def Question.spelled (q : Question) : Bytes := trimSuffix q.name (ascii ".")

namespace Handler

/-! ## What a pass adds -/

/-- The place `appendSet` starts a set at. -/
def start (h : Handler) (hop : Nat) (records : List Record) : Nat :=
  if 1 < records.length then (h.rotate hop % UInt32.ofNat records.length).toNat else 0

theorem appendSet_start (h : Handler) (hop : Nat) (rrs : List RR) (owner : Bytes)
    (records : List Record) :
    h.appendSet hop rrs owner records =
      rrs ++ (records.rotate (h.start hop records)).filterMap (rrOf owner) :=
  foldl_appendRR _ _ _

variable {h : Handler} {i : Nat} {resp : Message} {zone : Zone} {name owner : Bytes}
  {qtype : UInt16} {m : Match}

theorem answers_answerANY :
    (h.answerANY i resp zone name owner m).answers =
      resp.answers ++ ((if name = zone.name then (soaRR zone).toOption.toList else []) ++
        (m.records.rotate (h.start i m.records)).filterMap (rrOf owner)) := by
  have added : h.anyAnswers i resp zone name owner m =
      resp.answers ++ ((if name = zone.name then (soaRR zone).toOption.toList else []) ++
        (m.records.rotate (h.start i m.records)).filterMap (rrOf owner)) := by
    rw [anyAnswers, appendSet_start, List.append_assoc]
  rw [answerANY_eq, ← added]
  dsimp only
  split
  · rw [answers_negative]
  · rfl

theorem answers_followCNAME (cname : Record) (cnames : List Record) :
    (h.followCNAME i resp owner cname cnames).1.answers =
      resp.answers ++ ((cname :: cnames).rotate (h.start i (cname :: cnames))).filterMap
        (rrOf owner) := by
  rw [← appendSet_start]
  unfold followCNAME
  dsimp only
  split <;> rfl

theorem answers_answer_set (notANY : qtype ≠ typeANY)
    (other : ¬ (name = zone.name ∧ qtype = typeSOA)) :
    (h.answer i resp zone name owner qtype m).1.answers =
      resp.answers ++ ((answerSet qtype m.records).rotate
        (h.start i (answerSet qtype m.records))).filterMap (rrOf owner) := by
  have apart : ¬ (decide (name = zone.name) = true ∧ qtype = typeSOA) := by
    simpa using other
  unfold answer answerSet
  dsimp only
  rw [if_neg notANY, if_neg apart]
  cases matched : filterType m.records qtype with
  | cons r rest => simp [answers_addAdditional, appendSet_start]
  | nil =>
      by_cases same : qtype = typeCNAME
      · simp [same, answers_negative]
      · simp only [ne_eq, not_true_eq_false, if_false, if_neg same]
        cases cnames : filterType m.records typeCNAME with
        | cons cname rest => exact answers_followCNAME cname rest
        | nil => simp [answers_negative]

/-- **A pass adds its group to the answers.** -/
theorem answers_hop_eq (h : Handler) (i : Nat) (resp : Message) (owner : Bytes)
    (looked : h.lookup zone name qtype = .ok m) :
    (h.hop i resp zone name owner qtype).1.answers =
      resp.answers ++ (Pass.mk qtype zone name owner m).group.rrs
        (h.start i (Pass.mk qtype zone name owner m).group.records) := by
  cases (Pass.mk qtype zone name owner m).kind with
  | cut cut =>
      rw [hop_of_cut looked cut, Pass.group_of_cut cut]
      exact (List.append_nil _).symm
  | dname dname uncut found =>
      rw [hop_of_dname looked uncut found, Pass.group_of_dname uncut found]
      cases leads : dnameTarget name m.dnameAt dname with
      | some next =>
          rw [followDNAME_of_target h resp owner leads]
          simp [Group.rrs, synthesisedRR]
      | none =>
          obtain ⟨resp', followed, answers, -⟩ := followDNAME_of_no_target h resp owner leads
          rw [followed, answers]
          simp [Group.rrs]
  | any uncut plain any =>
      dsimp only at any
      rw [hop_of_plain looked uncut plain, Pass.group_of_any uncut plain any, answer, if_pos any,
        answers_answerANY]
      rfl
  | soa uncut plain asked =>
      have notANY : qtype ≠ typeANY := by
        rw [show qtype = typeSOA from asked.2]
        decide
      rw [hop_of_plain looked uncut plain, Pass.group_of_soa uncut plain asked, answer,
        if_neg notANY, if_pos (by simpa using asked)]
      cases soaRR zone <;> simp [Group.rrs, Except.toOption]
  | set uncut plain notANY other =>
      rw [hop_of_plain looked uncut plain, Pass.group_of_set uncut plain notANY other,
        answers_answer_set notANY other]
      simp [Group.rrs]

/-! ## The passes of a question -/

/-- Goes on at a name in its zone, if that is served. -/
def follow (h : Handler) (go : Zone → Bytes → List Pass) (next : Option Bytes) : List Pass :=
  match next with
  | none => []
  | some next =>
      match h.resolver.findZone next with
      | .ok zone => go zone next
      | .error _ => []

/-- The passes the loop makes, of at most so many. -/
def passes (h : Handler) (qtype : UInt16) : Nat → Zone → Bytes → Bytes → List Pass
  | 0, _, _, _ => []
  | left + 1, zone, name, owner =>
      match h.lookup zone name qtype with
      | .error _ => []
      | .ok m =>
          { qtype := qtype, zone := zone, name := name, owner := owner, found := m } ::
            h.follow (fun zone' next => h.passes qtype left zone' next next)
              (Pass.mk qtype zone name owner m).target

theorem follow_of_served {go : Zone → Bytes → List Pass} {next : Bytes}
    (served : h.resolver.findZone next = .ok zone) : h.follow go (some next) = go zone next := by
  simp only [follow, served]

theorem follow_of_unserved {go : Zone → Bytes → List Pass} {next : Option Bytes}
    (unserved : ∀ name zone, next = some name → h.resolver.findZone name ≠ .ok zone) :
    h.follow go next = [] := by
  unfold follow
  split
  · rfl
  · rename_i name
    split
    · rename_i zone served
      exact absurd served (unserved name zone rfl)
    · rfl

/-- The groups of passes one after the other, the first of them pass `i`. -/
def rrsFrom (h : Handler) : Nat → List Pass → List RR
  | _, [] => []
  | i, p :: ps => p.group.rrs (h.start i p.group.records) ++ h.rrsFrom (i + 1) ps

theorem mem_rrsFrom {i : Nat} {ps : List Pass} :
    rr ∈ h.rrsFrom i ps ↔ ∃ p ∈ ps, rr ∈ p.group.rrs 0 := by
  induction ps generalizing i with
  | nil => simp [rrsFrom]
  | cons p ps ih =>
      rw [rrsFrom, List.mem_append, ih, List.exists_mem_cons_iff, Group.mem_rrs, Group.mem_rrs]

/-- The groups of passes hold the records of their sets once each, whatever the counter. -/
theorem rrsFrom_perm (h : Handler) (i : Nat) (ps : List Pass) :
    (h.rrsFrom i ps).Perm (ps.flatMap fun p => p.group.rrs 0) := by
  induction ps generalizing i with
  | nil => exact .nil
  | cons p ps ih =>
      rw [rrsFrom, List.flatMap_cons]
      exact (p.group.rrs_perm _ 0).append (ih (i + 1))

theorem hop_of_error {e : StoreError} (failed : h.lookup zone name qtype = .error e) :
    h.hop i resp zone name owner qtype = (resp, .failed (.store e)) := by
  simp only [hop, failed]

/-- A pass goes on where its target is served. -/
theorem hop_eq_next_iff (looked : h.lookup zone name qtype = .ok m) {zone' : Zone}
    {name' owner' : Bytes} :
    (h.hop i resp zone name owner qtype).2 = .next zone' name' owner' ↔
      (Pass.mk qtype zone name owner m).target = some name' ∧
        h.resolver.findZone name' = .ok zone' ∧ owner' = name' := by
  unfold Pass.target
  dsimp only
  by_cases uncut : m.cut = []
  · rw [if_pos uncut]
    cases leads : target qtype zone name m with
    | none =>
        have ends := hop_of_no_target h i resp owner looked uncut leads
        simp only [reduceCtorEq, false_and, iff_false]
        exact ends.ends _ _ _
    | some next =>
        obtain ⟨added, -, passed⟩ := hop_of_target h i resp owner looked uncut leads
        rw [passed]
        dsimp only
        rw [redirect_eq_next_iff, Option.some.injEq]
        constructor
        · rintro ⟨served, rfl, rfl⟩
          exact ⟨rfl, served, rfl⟩
        · rintro ⟨rfl, served, rfl⟩
          exact ⟨served, rfl, rfl⟩
  · rw [hop_of_cut looked uncut, if_neg uncut]
    simp

/-- **The loop adds the groups of its passes to the answers.** -/
theorem answers_resolveLoop_eq (h : Handler) (qtype : UInt16) {left : Nat}
    (few : left ≤ maxChain + 1) (resp : Message) (zone : Zone) (name owner : Bytes) :
    (h.resolveLoop qtype left resp zone name owner).1.answers =
      resp.answers ++ h.rrsFrom (maxChain + 1 - left) (h.passes qtype left zone name owner) := by
  induction left generalizing resp zone name owner with
  | zero => simp [resolveLoop, passes, rrsFrom]
  | succ left ih =>
      have number : maxChain + 1 - (left + 1) = maxChain - left := by omega
      have later : maxChain - left + 1 = maxChain + 1 - left := by omega
      rw [resolveLoop, passes, number]
      cases looked : h.lookup zone name qtype with
      | error e => simp [hop_of_error looked, rrsFrom]
      | ok m =>
          have first := answers_hop_eq h (maxChain - left) resp owner looked
          have onward := @hop_eq_next_iff h (maxChain - left) resp zone name owner qtype m looked
          dsimp only
          rw [rrsFrom]
          cases passed : h.hop (maxChain - left) resp zone name owner qtype with
          | mk resp' step =>
              rw [passed] at first onward
              dsimp only at first onward
              have ends : (∀ zone' name' owner', step ≠ .next zone' name' owner') →
                  h.follow (fun zone' next => h.passes qtype left zone' next next)
                    (Pass.mk qtype zone name owner m).target = [] :=
                fun stops => follow_of_unserved fun name' zone' leads served =>
                  stops zone' name' name' (onward.mpr ⟨leads, served, rfl⟩)
              cases step with
              | next zone' name' owner' =>
                  obtain ⟨leads, served, rfl⟩ := onward.mp rfl
                  dsimp only
                  rw [leads, follow_of_served served, ih (by omega), first, later,
                    List.append_assoc]
              | failed e =>
                  rw [ends (by simp), rrsFrom, List.append_nil]
                  exact first
              | done =>
                  rw [ends (by simp), rrsFrom, List.append_nil]
                  exact first

/-! ## What a lookup finds -/

/-- What is found for a name is taken as the resolver gave it: the records are those of one
name of the zone, and a DNAME record is the first of an ancestor. -/
structure Match.Taken (h : Handler) (zone : Zone) (name : Bytes) (m : Match) : Prop where
  records : m.records = [] ∨
    ∃ at' set, h.resolver.lookupName zone.name at' = .ok set ∧ m.records = set.records
  dname : ∀ dname, m.dname = some dname → m.dnameAt ∈ ancestors dot name ∧
    ∃ set, h.resolver.lookupName zone.name m.dnameAt = .ok set ∧
      (filterType set.records typeDNAME).head? = some dname
  uncut : m.dname ≠ none → m.cut = []
  plain : m.records ≠ [] → m.cut = [] ∧ m.dname = none

/-- The walk to the closest encloser ends at an ancestor. -/
theorem taken_of_encloserLoop {fuel : Nat} {encloser : Bytes}
    (walked : h.encloserLoop zone fuel encloser = .ok (.inl m)) : m.Taken h zone encloser := by
  induction fuel generalizing encloser with
  | zero => cases walked
  | succ fuel ih =>
      unfold encloserLoop at walked
      split at walked
      · cases walked
      · split at walked
        · cases walked
        · rename_i i cut
          have above := ancestors_of_indexByte_some cut
          obtain ⟨set, got, walked⟩ := bind_eq_ok.mp walked
          split at walked
          · cases walked
            exact ⟨.inl rfl, by simp, by simp, by simp⟩
          · split at walked
            · rename_i dname first
              split at walked
              · cases walked
                refine ⟨.inl rfl, fun d same => ⟨by simp [above], set, got, ?_⟩, fun _ => rfl,
                  by simp⟩
                exact first.trans same
              · cases walked
            · split at walked
              · cases walked
              · have later := ih walked
                refine ⟨later.records, fun d same => ?_, later.uncut, later.plain⟩
                obtain ⟨member, found⟩ := later.dname d same
                exact ⟨by rw [above]; exact List.mem_cons_of_mem _ member, found⟩

theorem taken_of_lookup (looked : h.lookup zone name qtype = .ok m) : m.Taken h zone name := by
  unfold lookup at looked
  obtain ⟨set, got, looked⟩ := bind_eq_ok.mp looked
  split at looked
  · split at looked
    · cases looked
      exact ⟨.inl rfl, by simp, by simp, by simp⟩
    · cases looked
      exact ⟨.inr ⟨name, set, got, rfl⟩, by simp, by simp, by simp⟩
  · split at looked
    · cases looked
      exact ⟨.inl rfl, by simp, by simp, by simp⟩
    · obtain ⟨stopped, walked, looked⟩ := bind_eq_ok.mp looked
      cases stopped with
      | inl found =>
          cases looked
          exact taken_of_encloserLoop walked
      | inr encloser =>
          obtain ⟨wset, wild, looked⟩ := bind_eq_ok.mp looked
          split at looked
          · cases looked
            exact ⟨.inr ⟨_, wset, wild, rfl⟩, by simp, by simp, by simp⟩
          · cases looked
            exact ⟨.inl rfl, by simp, by simp, by simp⟩

variable {p : Pass} {req : Message} {q : Question}

/-- **What a pass that has been made adds.** -/
theorem mem_rrs_iff (looked : h.lookup p.zone p.name p.qtype = .ok p.found) :
    rr ∈ p.group.rrs 0 ↔ p.Source rr := by
  refine Pass.mem_rrs_iff_source (taken_of_lookup looked).uncut fun apex => ?_
  rw [apex] at looked
  exact lookup_apex looked

/-! ## What passes have in common -/

theorem follow_cases (go : Zone → Bytes → List Pass) (next : Option Bytes) :
    h.follow go next = [] ∨
      ∃ name zone, next = some name ∧ h.resolver.findZone name = .ok zone ∧
        h.follow go next = go zone name := by
  unfold follow
  split
  · exact .inl rfl
  · rename_i name
    split
    · rename_i zone served
      exact .inr ⟨name, zone, rfl, served, rfl⟩
    · exact .inl rfl

/-- **Induction over the passes of a question**: the first, and those it leads on to. -/
theorem passes_induction {motive : Zone → Bytes → Bytes → List Pass → Prop}
    (nil : ∀ zone name owner, motive zone name owner [])
    (single : ∀ zone name owner m, h.lookup zone name qtype = .ok m →
      motive zone name owner [⟨qtype, zone, name, owner, m⟩])
    (cons : ∀ zone name owner m zone' next ps, h.lookup zone name qtype = .ok m →
      (Pass.mk qtype zone name owner m).target = some next → h.resolver.findZone next = .ok zone' →
        motive zone' next next ps → motive zone name owner (⟨qtype, zone, name, owner, m⟩ :: ps))
    (left : Nat) (zone : Zone) (name owner : Bytes) :
    motive zone name owner (h.passes qtype left zone name owner) := by
  induction left generalizing zone name owner with
  | zero => exact nil zone name owner
  | succ left ih =>
      unfold passes
      cases looked : h.lookup zone name qtype with
      | error e => exact nil zone name owner
      | ok m =>
          dsimp only
          rcases @follow_cases h (fun zone' next => h.passes qtype left zone' next next)
            (Pass.mk qtype zone name owner m).target with stops | ⟨next, zone', leads, served, goes⟩
          · rw [stops]
            exact single zone name owner m looked
          · rw [goes]
            exact cons zone name owner m zone' next _ looked leads served (ih zone' next next)

theorem length_passes_le (left : Nat) (zone : Zone) (name owner : Bytes) :
    (h.passes qtype left zone name owner).length ≤ left := by
  induction left generalizing zone name owner with
  | zero => exact Nat.le_refl 0
  | succ left ih =>
      unfold passes
      cases h.lookup zone name qtype with
      | error e => exact Nat.zero_le _
      | ok m =>
          rw [List.length_cons]
          refine Nat.succ_le_succ ?_
          rcases @follow_cases h (fun zone' next => h.passes qtype left zone' next next)
            (Pass.mk qtype zone name owner m).target with stops | ⟨next, zone', -, -, goes⟩
          · rw [stops]
            exact Nat.zero_le _
          · rw [goes]
            exact ih zone' next next

/-- Every pass is of the question's type and has found what there is. -/
theorem looked_of_mem_passes {left : Nat} (member : p ∈ h.passes qtype left zone name owner) :
    p.qtype = qtype ∧ h.lookup p.zone p.name p.qtype = .ok p.found := by
  refine @passes_induction h qtype
    (fun _ _ _ ps => ∀ p ∈ ps, p.qtype = qtype ∧ h.lookup p.zone p.name p.qtype = .ok p.found)
    ?_ ?_ ?_ left zone name owner p member
  · intro zone name owner p none
    cases none
  · intro zone name owner m looked p alone
    rw [List.mem_singleton.mp alone]
    exact ⟨rfl, looked⟩
  · intro zone name owner m zone' next ps looked _ _ ih p member
    rcases List.mem_cons.mp member with rfl | later
    · exact ⟨rfl, looked⟩
    · exact ih p later

theorem Pass.target_eq_some_iff {next : Bytes} :
    p.target = some next ↔ p.found.cut = [] ∧ target p.qtype p.zone p.name p.found = some next := by
  unfold Pass.target
  split
  · rename_i uncut
    exact (and_iff_right uncut).symm
  · rename_i cut
    exact iff_of_false (by simp) fun both => cut both.1

/-- A name a redirection leads to from a lower-cased name is lower-cased. -/
theorem toLower_target (looked : h.lookup zone name qtype = .ok m) (lowered : toLower name = name)
    {next : Bytes} (leads : (Pass.mk qtype zone name owner m).target = some next) :
    toLower next = next := by
  unfold Pass.target target at leads
  dsimp only at leads
  split at leads
  · split at leads
    · rename_i dname found
      obtain ⟨above, -⟩ := (taken_of_lookup looked).dname dname found
      obtain ⟨front, shape⟩ := mem_ancestors.mp above
      obtain ⟨-, text, -⟩ := dnameTarget_eq_some_iff.mp leads
      rw [shape] at lowered text
      rw [text, substitute_below, toLower_append_dot, (toLower_parts lowered).1,
        (lowered_toLower _).toLower_eq]
    · split at leads
      · cases leads
      · obtain ⟨cname, -, leads⟩ := Option.bind_eq_some_iff.mp leads
        unfold cnameTarget at leads
        dsimp only at leads
        split at leads
        · cases leads
        · cases leads
          exact (lowered_toLower _).toLower_eq
  · cases leads

/-- So are all names of its chain. -/
theorem Leads.toLower_eq {k : Nat} {last : Zone} {lastName : Bytes}
    (led : Leads h qtype k zone name last lastName) (lowered : toLower name = name) :
    toLower lastName = lastName := by
  induction led with
  | here => exact lowered
  | @next k zone zone' last name next lastName m looked uncut leads served rest ih =>
      have goes : (Pass.mk qtype zone name name m).target = some next :=
        Pass.target_eq_some_iff.mpr ⟨uncut, leads⟩
      exact ih (toLower_target looked lowered goes)

/-- A pass made for a redirection is in the zone of its name, which is lower-cased and owns
what it adds. -/
structure Continued (h : Handler) (p : Pass) : Prop where
  owner : p.owner = p.name
  lowered : toLower p.name = p.name
  served : h.resolver.findZone p.name = .ok p.zone

/-- **Every pass but the first is made for a redirection.** -/
theorem passes_continued (left : Nat) (zone : Zone) (name owner : Bytes)
    (lowered : toLower name = name) :
    (∀ p ∈ (h.passes qtype left zone name owner).head?,
        p.zone = zone ∧ p.name = name ∧ p.owner = owner) ∧
      ∀ p ∈ (h.passes qtype left zone name owner).tail, h.Continued p := by
  revert lowered
  refine @passes_induction h qtype
    (fun zone name owner ps => toLower name = name →
      (∀ p ∈ ps.head?, p.zone = zone ∧ p.name = name ∧ p.owner = owner) ∧
        ∀ p ∈ ps.tail, h.Continued p) ?_ ?_ ?_ left zone name owner
  · intro zone name owner _
    simp
  · intro zone name owner m _ _
    simp
  · intro zone name owner m zone' next ps looked leads served ih lowered
    have lowered' := toLower_target looked lowered leads
    obtain ⟨first, later⟩ := ih lowered'
    refine ⟨by simp, fun p member => ?_⟩
    rw [List.tail_cons] at member
    cases ps with
    | nil => cases member
    | cons p' ps =>
        rcases List.mem_cons.mp member with rfl | member
        · obtain ⟨rfl, rfl, same⟩ := first p rfl
          exact ⟨same, lowered', served⟩
        · exact later p member

/-- Every pass but the last is redirected. -/
theorem passes_onward (left : Nat) (zone : Zone) (name owner : Bytes) :
    (h.passes qtype left zone name owner).Pairwise fun p _ => p.target ≠ none := by
  refine @passes_induction h qtype (fun _ _ _ ps => ps.Pairwise fun p _ => p.target ≠ none)
    ?_ ?_ ?_ left zone name owner
  · intro zone name owner
    exact .nil
  · intro zone name owner m _
    exact List.pairwise_singleton _ _
  · intro zone name owner m zone' next ps _ leads _ ih
    exact .cons (fun _ _ => by rw [leads]; simp) ih

variable (owner) in
/-- A chain goes on where its first name leads. -/
theorem leads_succ_iff {k : Nat} {last : Zone} {lastName : Bytes}
    (looked : h.lookup zone name qtype = .ok m) :
    Leads h qtype (k + 1) zone name last lastName ↔
      ∃ next zone', (Pass.mk qtype zone name owner m).target = some next ∧
        h.resolver.findZone next = .ok zone' ∧ Leads h qtype k zone' next last lastName := by
  constructor
  · intro led
    cases led with
    | next looked' uncut leads served rest =>
        rw [looked] at looked'
        cases looked'
        exact ⟨_, _, Pass.target_eq_some_iff.mpr ⟨uncut, leads⟩, served, rest⟩
  · rintro ⟨next, zone', leads, served, rest⟩
    obtain ⟨uncut, leads⟩ := Pass.target_eq_some_iff.mp leads
    exact .next looked uncut leads served rest

/-- **The passes are made at the names the question leads to.** -/
theorem getElem?_passes_iff {left k : Nat} :
    (h.passes qtype left zone name owner)[k]? = some p ↔
      k < left ∧ p.qtype = qtype ∧ p.owner = (if k = 0 then owner else p.name) ∧
        Leads h qtype k zone name p.zone p.name ∧ h.lookup p.zone p.name qtype = .ok p.found := by
  induction left generalizing zone name owner k with
  | zero => simp [passes]
  | succ left ih =>
      unfold passes
      cases looked : h.lookup zone name qtype with
      | error e =>
          refine iff_of_false (by simp) ?_
          rintro ⟨-, -, -, led, found⟩
          cases led with
          | here =>
              rw [looked] at found
              cases found
          | next looked' =>
              rw [looked] at looked'
              cases looked'
      | ok m =>
          cases k with
          | zero =>
              rw [List.getElem?_cons_zero, Option.some.injEq]
              constructor
              · rintro rfl
                exact ⟨Nat.succ_pos left, rfl, rfl, .here zone name, looked⟩
              · rintro ⟨-, type, own, led, found⟩
                obtain ⟨_, _, _, _, _⟩ := p
                cases led
                rw [looked] at found
                cases found
                cases type
                cases own
                rfl
          | succ k =>
              rw [List.getElem?_cons_succ, if_neg (Nat.succ_ne_zero k), Nat.succ_lt_succ_iff,
                leads_succ_iff owner looked]
              cases leads : (Pass.mk qtype zone name owner m).target with
              | none => simp [follow]
              | some next =>
                  cases served : h.resolver.findZone next with
                  | error e => simp [follow, served]
                  | ok zone' =>
                      rw [follow_of_served served, ih]
                      -- the owner of a pass that a redirection leads to is its name
                      constructor
                      · rintro ⟨short, type, own, led, found⟩
                        refine ⟨short, type, ?_, ⟨next, zone', rfl, served, led⟩, found⟩
                        cases led with
                        | here => exact own
                        | next => exact own
                      · rintro ⟨short, type, own, ⟨_, _, same, served', led⟩, found⟩
                        cases same
                        rw [served] at served'
                        cases served'
                        refine ⟨short, type, ?_, led, found⟩
                        cases led with
                        | here => exact own
                        | next => exact own

/-! ## The passes of a request -/

/-- The passes of a request; none if it is turned down, or resolution fails. -/
def trail (h : Handler) (req : Message) : List Pass :=
  match req.questions with
  | [q] =>
      if Reaches req q then
        match h.resolver.findZone (questionName q.name) with
        | .error _ => []
        | .ok zone =>
            match h.resolve (Message.newResponse req).setAA zone (questionName q.name)
              (trimSuffix q.name (ascii ".")) q.type with
            | (_, some _) => []
            | (_, none) =>
                h.passes q.type (maxChain + 1) zone (questionName q.name)
                  (trimSuffix q.name (ascii "."))
      else []
  | _ => []

theorem trail_of_not_reaches (kept : ∀ q, req.questions = [q] → ¬ Reaches req q) :
    h.trail req = [] := by
  unfold trail
  split
  · rename_i q single
    exact if_neg (kept q single)
  · rfl

theorem trail_of_served (single : req.questions = [q]) (reaches : Reaches req q)
    (served : h.resolver.findZone (questionName q.name) = .ok zone) :
    h.trail req =
      match h.resolve (Message.newResponse req).setAA zone (questionName q.name)
        (trimSuffix q.name (ascii ".")) q.type with
      | (_, some _) => []
      | (_, none) =>
          h.passes q.type (maxChain + 1) zone (questionName q.name)
            (trimSuffix q.name (ascii ".")) := by
  simp only [trail, single, if_pos reaches, served]

theorem trail_of_unserved {e : StoreError} (single : req.questions = [q]) (reaches : Reaches req q)
    (failed : h.resolver.findZone (questionName q.name) = .error e) : h.trail req = [] := by
  simp only [trail, single, if_pos reaches, failed]

/-- The request is a query for a name of the zone, and nothing fails on the way its question is
led. -/
structure Resolves (h : Handler) (req : Message) (q : Question) (zone : Zone) : Prop where
  single : req.questions = [q]
  reaches : Reaches req q
  served : h.resolver.findZone (questionName q.name) = .ok zone
  clean : ¬ LeadsToFailure h q.type (maxChain + 1) zone (questionName q.name)

theorem Resolves.unique {q' : Question} {zone zone' : Zone} (resolves : h.Resolves req q zone)
    (resolves' : h.Resolves req q' zone') : q = q' ∧ zone = zone' := by
  have same := resolves.single
  rw [resolves'.single] at same
  cases same
  have served := resolves.served
  rw [resolves'.served] at served
  cases served
  exact ⟨rfl, rfl⟩

/-- Over the database only a question for a SOA record can fail. -/
theorem resolves_serving {db : Database} {encode : Option Encoder} {rotate : Nat → UInt32}
    (single : req.questions = [q]) (reaches : Reaches req q)
    (served : db.findZone (questionName q.name) = .ok zone) (notSOA : q.type ≠ typeSOA) :
    (serving db encode rotate).Resolves req q zone := by
  refine ⟨single, reaches, by rw [findZone_serving, served], ?_⟩
  rintro ⟨k, last, lastName, -, -, fails⟩
  exact notSOA (failsAt_serving_iff.mp fails).1

/-- The passes of a query that is resolved. -/
theorem Resolves.trail_eq (resolves : h.Resolves req q zone) :
    h.trail req =
      h.passes q.type (maxChain + 1) zone (questionName q.name)
        (trimSuffix q.name (ascii ".")) := by
  rw [trail_of_served resolves.single resolves.reaches resolves.served]
  have clean := resolves.clean
  rw [← failed_resolveLoop_iff_leads (trimSuffix q.name (ascii "."))
    (Message.newResponse req).setAA] at clean
  unfold resolve
  split
  · rename_i e failed
    exact absurd ⟨e, congrArg Prod.snd failed⟩ clean
  · rfl

/-- **The answers of a request are the groups of its passes.** -/
theorem answers_handle (h : Handler) (req : Message) :
    (h.handle req).answers = h.rrsFrom 0 (h.trail req) := by
  by_cases reached : ∃ q, req.questions = [q] ∧ Reaches req q
  · obtain ⟨q, single, reaches⟩ := reached
    cases found : h.resolver.findZone (questionName q.name) with
    | error e =>
        have named : questionName q.name ≠ [] := reaches.2.2.2
        rw [trail_of_unserved single reaches found, handle_eq_handleQuestion single reaches,
          handleQuestion, if_neg named, found]
        have empty := (Message.sections_newResponse req).1
        cases e <;> exact empty
    | ok zone =>
        rw [trail_of_served single reaches found, handle_of_reaches single reaches found]
        have added := answers_resolveLoop_eq h q.type (Nat.le_refl _)
          (Message.newResponse req).setAA zone (questionName q.name) (trimSuffix q.name (ascii "."))
        rw [show (Message.newResponse req).setAA.answers =
          [] from (Message.sections_newResponse req).1, List.nil_append, Nat.sub_self] at added
        unfold resolve
        cases resolved : h.resolveLoop q.type (maxChain + 1) (Message.newResponse req).setAA zone
          (questionName q.name) (trimSuffix q.name (ascii ".")) with
        | mk resp e =>
            rw [resolved] at added
            cases e with
            | some e => rfl
            | none => exact added
  · have kept : ∀ q, req.questions = [q] → ¬ Reaches req q :=
      fun q single reaches => reached ⟨q, single, reaches⟩
    rw [trail_of_not_reaches kept, (sections_handle_of_not_reaches h kept).1]
    rfl

/-- Only a query that is resolved has passes. -/
theorem trail_cases (h : Handler) (req : Message) :
    h.trail req = [] ∧ (∀ q zone, ¬ h.Resolves req q zone) ∨ ∃ q zone, h.Resolves req q zone := by
  by_cases resolved : ∃ q zone, h.Resolves req q zone
  · exact .inr resolved
  · refine .inl ⟨?_, fun q zone resolves => resolved ⟨q, zone, resolves⟩⟩
    by_cases reached : ∃ q, req.questions = [q] ∧ Reaches req q
    · obtain ⟨q, single, reaches⟩ := reached
      cases found : h.resolver.findZone (questionName q.name) with
      | error e => exact trail_of_unserved single reaches found
      | ok zone =>
          have fails : LeadsToFailure h q.type (maxChain + 1) zone (questionName q.name) := by
            by_contra clean
            exact resolved ⟨q, zone, single, reaches, found, clean⟩
          obtain ⟨e, failed⟩ := (failed_resolveLoop_iff_leads (trimSuffix q.name (ascii "."))
            (Message.newResponse req).setAA).mpr fails
          rw [trail_of_served single reaches found, resolve]
          split
          · rfl
          · rename_i done
            rw [done] at failed
            cases failed
    · exact trail_of_not_reaches fun q single reaches => reached ⟨q, single, reaches⟩

/-- The passes of a question: the first at its name, spelled as in the question, and later
ones for redirections. -/
structure TrailOf (h : Handler) (q : Question) (p : Pass) (later : List Pass) : Prop where
  owner : p.owner = trimSuffix q.name (ascii ".")
  name : p.name = questionName q.name
  served : h.resolver.findZone p.name = .ok p.zone
  type : ∀ p' ∈ p :: later, p'.qtype = q.type
  looked : ∀ p' ∈ p :: later, h.lookup p'.zone p'.name p'.qtype = .ok p'.found
  continued : ∀ p' ∈ later, h.Continued p'
  onward : (p :: later).Pairwise fun p' _ => p'.target ≠ none

/-- The answers to a question are what its passes add. -/
theorem TrailOf.mem_answers {later : List Pass} (trail : h.TrailOf q p later)
    (shape : h.trail req = p :: later) (rr : RR) :
    rr ∈ (h.handle req).answers ↔ ∃ p' ∈ p :: later, p'.Source rr := by
  rw [answers_handle, mem_rrsFrom, shape]
  exact exists_congr fun p' => and_congr_right fun member => mem_rrs_iff (trail.looked p' member)

theorem Resolves.trail_shape (resolves : h.Resolves req q zone) :
    ∃ p later, h.trail req = p :: later ∧ h.TrailOf q p later := by
  have whole := resolves.trail_eq
  obtain ⟨first, later⟩ := @passes_continued h q.type (maxChain + 1) zone (questionName q.name)
    (trimSuffix q.name (ascii ".")) (lowered_toLower _).toLower_eq
  rw [← whole] at first later
  cases shape : h.trail req with
  | nil =>
      -- the first name can be looked up, since nothing fails
      refine absurd ?_ resolves.clean
      rw [whole, passes] at shape
      cases looked : h.lookup zone (questionName q.name) q.type with
      | error e => exact ⟨0, zone, _, Nat.succ_pos _, .here _ _, .lookup looked⟩
      | ok m =>
          rw [looked] at shape
          cases shape
  | cons p ps =>
      rw [shape] at first later
      obtain ⟨rfl, name, owner⟩ := first p rfl
      rw [shape] at whole
      refine ⟨p, ps, rfl, owner, name, name ▸ resolves.served, fun p' member => ?_,
        fun p' member => ?_, later, ?_⟩
      · rw [whole] at member
        exact (looked_of_mem_passes member).1
      · rw [whole] at member
        exact (looked_of_mem_passes member).2
      · rw [whole]
        exact passes_onward _ _ _ _

end Handler

end ShardDNS.DNS

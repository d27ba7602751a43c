import ShardDNS.DNS.Delegation
import ShardDNS.DNS.Groups

/-!
# Repeated answers

Each pass of the resolution loop appends to the answers without a look at those already there,
and the loop is bounded by the number of its passes only. A chain of redirections that comes
back to a name goes through the same records again, up to nine times.

The records of the answers are pairwise different, as owner, type and RDATA, exactly when the
content does not lead the question to the same again (`Unrepeated`, `answers_nodup_iff`): no
redirection leads to a name of the chain a second time, none leads below a DNAME record that was
passed, or to its owner to be answered with it, and no stored record repeats the SOA record of an
apex that a question of type ANY comes to. Two CNAME records that lead to each other fill the
answers with nine records, of which two are different (`cycle_not_nodup`).
-/

set_option autoImplicit false

namespace ShardDNS.DNS

open Go Store LabelTree

/-- What tells the records of an answer apart: the owner without case, the type, the RDATA. -/
def RR.key (rr : RR) : Bytes × UInt16 × Bytes := (foldASCII rr.name, rr.type, rr.rdata)

/-- No two records of a name have the same type and wire RDATA. -/
def DistinctRecords (r : Resolver) : Prop :=
  ∀ zone name set, r.lookupName zone name = .ok set →
    set.records.Pairwise fun a b =>
      typeCode a.type = typeCode b.type → ∀ wire, wireOf a = some wire → wireOf b ≠ some wire

theorem rrOf_eq_some_iff {owner : Bytes} {r : Record} {rr : RR} :
    rrOf owner r = some rr ↔ ∃ wire, wireOf r = some wire ∧ typeCode r.type ≠ 0 ∧
      rr =
        { name := owner, type := typeCode r.type, cls := classIN, ttl := r.ttl.toUInt32
          rdata := wire } := by
  unfold rrOf
  cases wireOf r with
  | none => simp
  | some wire => by_cases known : typeCode r.type = 0 <;> simp [known, eq_comm]

/-- Different records of one name are different under one owner. -/
theorem nodup_rrOf {owner : Bytes} {records : List Record}
    (distinct : records.Pairwise fun a b =>
      typeCode a.type = typeCode b.type → ∀ wire, wireOf a = some wire → wireOf b ≠ some wire) :
    ((records.filterMap (rrOf owner)).map RR.key).Nodup := by
  rw [List.Nodup, List.pairwise_map, List.pairwise_filterMap]
  refine distinct.imp fun {a b} apart rr sent rr' sent' same => ?_
  obtain ⟨wire, encoded, -, rfl⟩ := rrOf_eq_some_iff.mp sent
  obtain ⟨wire', encoded', -, rfl⟩ := rrOf_eq_some_iff.mp sent'
  simp only [RR.key, Prod.mk.injEq] at same
  exact apart same.2.1 wire encoded (by rw [encoded', same.2.2])

/-! ## A pass -/

namespace Pass

/-- The DNAME record the pass comes to. -/
def dnameRR (p : Pass) : Option RR := p.found.dname.bind (rrOf p.found.dnameAt)

variable {h : Handler} {p p' : Pass} {rr : RR}

theorem rrs_eq : p.group.rrs 0 = p.group.fixed ++ p.stored := by
  rw [Group.rrs, List.rotate_zero, owner_group, stored]

theorem mem_dnameRR_iff :
    rr ∈ p.dnameRR ↔ ∃ dname, p.found.dname = some dname ∧ rrOf p.found.dnameAt dname = some rr :=
  Option.bind_eq_some_iff

theorem type_of_mem_dnameRR (looked : h.lookup p.zone p.name p.qtype = .ok p.found)
    (member : rr ∈ p.dnameRR) : rr.type = typeDNAME := by
  obtain ⟨dname, found, sent⟩ := mem_dnameRR_iff.mp member
  obtain ⟨-, set, -, first⟩ := (Handler.taken_of_lookup looked).dname dname found
  obtain ⟨wire, -, -, rfl⟩ := rrOf_eq_some_iff.mp sent
  simpa using (List.mem_filter.mp (List.mem_of_head? first)).2

theorem answerSet_sublist (qtype : UInt16) (records : List Record) :
    (answerSet qtype records).Sublist records := by
  unfold answerSet
  split
  · exact List.filter_sublist
  · split
    · exact List.nil_sublist _
    · exact List.filter_sublist

theorem records_group_sublist : p.group.records.Sublist p.found.records := by
  cases p.kind with
  | cut cut =>
      rw [group_of_cut cut]
      exact List.nil_sublist _
  | dname dname uncut found =>
      rw [group_of_dname uncut found]
      exact List.nil_sublist _
  | any uncut plain any => rw [group_of_any uncut plain any]
  | soa uncut plain asked =>
      rw [group_of_soa uncut plain asked]
      exact List.nil_sublist _
  | set uncut plain notANY other =>
      rw [group_of_set uncut plain notANY other]
      exact answerSet_sublist _ _

theorem stored_eq_nil (empty : p.group.records = []) : p.stored = [] := by
  rw [stored, empty]
  rfl

/-- The stored records a pass answers with are different. -/
theorem nodup_stored (distinct : DistinctRecords h.resolver)
    (looked : h.lookup p.zone p.name p.qtype = .ok p.found) : (p.stored.map RR.key).Nodup := by
  refine nodup_rrOf (List.Pairwise.sublist records_group_sublist ?_)
  rcases (Handler.taken_of_lookup looked).records with empty | ⟨at', set, got, same⟩
  · rw [empty]
    exact .nil
  · rw [same]
    exact distinct _ _ _ got

/-- A DNAME record and the CNAME record made from it are different. -/
theorem nodup_fixed_of_dname {dname : Record}
    (looked : h.lookup p.zone p.name p.qtype = .ok p.found) (uncut : p.found.cut = [])
    (found : p.found.dname = some dname) :
    (p.group.fixed.map RR.key).Nodup := by
  rw [group_of_dname uncut found, List.map_append]
  cases sent : rrOf p.found.dnameAt dname with
  | none => cases Handler.dnameTarget p.name p.found.dnameAt dname <;> simp
  | some rr =>
      have type := type_of_mem_dnameRR looked (mem_dnameRR_iff.mpr ⟨dname, found, sent⟩)
      have apart : typeDNAME ≠ typeCNAME := by decide
      cases Handler.dnameTarget p.name p.found.dnameAt dname with
      | none => simp
      | some next => simp [RR.key, synthesisedRR, type, apart]

/-- **A pass repeats no record**, unless it answers for an apex with all records and the SOA
record is one of them. -/
theorem nodup_rrs_iff (distinct : DistinctRecords h.resolver)
    (looked : h.lookup p.zone p.name p.qtype = .ok p.found) :
    ((p.group.rrs 0).map RR.key).Nodup ↔
      (p.AnswersSOA → ∀ soa, soaRR p.zone = .ok soa → soa.key ∉ p.stored.map RR.key) := by
  have own := nodup_stored distinct looked
  rw [rrs_eq, List.map_append]
  cases p.kind with
  | cut cut =>
      rw [stored_eq_nil (by rw [group_of_cut cut]), group_of_cut cut]
      exact iff_of_true (by simp) (by simp)
  | dname dname uncut found =>
      rw [stored_eq_nil (by rw [group_of_dname uncut found]), List.map_nil, List.append_nil]
      exact iff_of_true (nodup_fixed_of_dname looked uncut found) (by simp)
  | any uncut plain any =>
      rw [group_of_any uncut plain any]
      dsimp only
      by_cases at' : p.name = p.zone.name
      · rw [if_pos at']
        cases built : soaRR p.zone with
        | error e => exact iff_of_true (by simpa [Except.toOption] using own) (by simp)
        | ok soa =>
            have answers : p.AnswersSOA := ⟨at', .inl any, soa, built⟩
            simp [Except.toOption, answers, own]
      · rw [if_neg at']
        exact iff_of_true (by simpa using own) fun answers => absurd answers.1 at'
  | soa uncut plain asked =>
      rw [stored_eq_nil (by rw [group_of_soa uncut plain asked]), group_of_soa uncut plain asked]
      refine iff_of_true ?_ (by simp)
      cases soaRR p.zone <;> simp [Except.toOption]
  | set uncut plain notANY other =>
      rw [group_of_set uncut plain notANY other]
      refine iff_of_true (by simpa using own) ?_
      rintro ⟨at', type, -⟩
      exact absurd type (not_or.mpr ⟨notANY, fun soa => other ⟨at', soa⟩⟩)

/-! ## Two passes -/

/-- A redirected pass comes to no SOA record, and answers with stored records of type CNAME. -/
theorem plain_of_target (leads : p.target ≠ none) (plain : p.found.dname = none) :
    ¬ p.AnswersSOA ∧
      p.group = { owner := p.owner, records := filterType p.found.records typeCNAME } := by
  obtain ⟨next, leads⟩ := Option.ne_none_iff_exists'.mp leads
  unfold target Handler.target at leads
  split at leads
  · rename_i uncut
    rw [plain] at leads
    dsimp only at leads
    split at leads
    · cases leads
    · rename_i elsewhere
      simp only [Handler.AnswersHere, not_or, ne_eq, not_not] at elsewhere
      obtain ⟨notANY, notCNAME, notSOA, unmatched⟩ := elsewhere
      refine ⟨fun answers => ?_, ?_⟩
      · exact answers.2.1.elim notANY fun soa => notSOA ⟨answers.1, soa⟩
      · rw [group_of_set uncut plain notANY notSOA, answerSet, unmatched, if_neg (by simp),
          if_neg notCNAME]
  · cases leads

/-- A redirected pass adds its DNAME record, and records of type CNAME under its owner. -/
theorem Source.of_target (leads : p.target ≠ none)
    (looked : h.lookup p.zone p.name p.qtype = .ok p.found) (source : p.Source rr) :
    rr ∈ p.dnameRR ∨ (rr.name = p.owner ∧ rr.type = typeCNAME) := by
  cases source with
  | dname dname found sent => exact .inl (mem_dnameRR_iff.mpr ⟨dname, found, sent⟩)
  | synthesised dname next found _ same => exact .inr (same ▸ ⟨rfl, rfl⟩)
  | soa answers built =>
      have plain : p.found.dname = none := by
        rw [answers.1] at looked
        exact (Handler.lookup_apex looked).2
      exact absurd answers (plain_of_target leads plain).1
  | stored member =>
      obtain ⟨r, inGroup, sent⟩ := List.mem_filterMap.mp member
      cases found : p.found.dname with
      | some dname =>
          have uncut := (Handler.taken_of_lookup looked).uncut (by simp [found])
          rw [group_of_dname uncut found] at inGroup
          cases inGroup
      | none =>
          rw [(plain_of_target leads found).2] at inGroup
          obtain ⟨wire, -, -, rfl⟩ := rrOf_eq_some_iff.mp sent
          exact .inr ⟨rfl, by simpa using (List.mem_filter.mp inGroup).2⟩

theorem dnameTarget_of_target {next : Bytes} {dname : Record} (leads : p.target = some next)
    (found : p.found.dname = some dname) :
    Handler.dnameTarget p.name p.found.dnameAt dname = some next := by
  unfold target Handler.target at leads
  rw [found] at leads
  split at leads
  · exact leads
  · cases leads

theorem cnameTarget_of_target {next : Bytes} (leads : p.target = some next)
    (plain : p.found.dname = none) :
    ∃ cname, (filterType p.found.records typeCNAME).head? = some cname ∧
      Handler.cnameTarget cname = some next := by
  unfold target Handler.target at leads
  rw [plain] at leads
  split at leads
  · dsimp only at leads
    split at leads
    · cases leads
    · exact Option.bind_eq_some_iff.mp leads
  · cases leads

/-- A redirected pass adds a record that would be the same under any other owner. -/
theorem exists_source_of_target (leads : p.target ≠ none) :
    ∃ rr : RR, ∀ owner, Source { p with owner := owner } { rr with name := owner } := by
  obtain ⟨next, goes⟩ := Option.ne_none_iff_exists'.mp leads
  cases found : p.found.dname with
  | some dname =>
      have made := dnameTarget_of_target goes found
      exact ⟨synthesisedRR [] dname next, fun owner => .synthesised dname next found made rfl⟩
  | none =>
      obtain ⟨cname, first, goes⟩ := cnameTarget_of_target goes found
      have member := List.mem_of_head? first
      have servable := Handler.servable_of_cnameTarget member goes
      obtain ⟨rr, sent⟩ := Option.ne_none_iff_exists'.mp fun unsent =>
        (rrOf_eq_none_iff []).mp unsent servable
      refine ⟨rr, fun owner => .stored (List.mem_filterMap.mpr ⟨cname, ?_, ?_⟩)⟩
      · rw [(plain_of_target (p := { p with owner := owner }) leads found).2]
        exact member
      · obtain ⟨wire, encoded, known, rfl⟩ := rrOf_eq_some_iff.mp sent
        exact rrOf_eq_some_iff.mpr ⟨wire, encoded, known, rfl⟩

/-- The pass looks its owner up, in lower case, in the zone that serves it. -/
structure Located (h : Handler) (p : Pass) : Prop where
  name : p.name = toLower p.owner
  served : h.resolver.findZone p.name = .ok p.zone
  looked : h.lookup p.zone p.name p.qtype = .ok p.found

/-- Passes of one question with one owner find the same. -/
theorem Located.eq_of_owner (first : Located h p) (second : Located h p')
    (type : p.qtype = p'.qtype) (same : foldASCII p.owner = foldASCII p'.owner) :
    p' = { p with owner := p'.owner } := by
  have names : p.name = p'.name := by
    rw [first.name, second.name, ← toLower_foldASCII, same, toLower_foldASCII]
  have zones : p.zone = p'.zone := by
    have served := first.served
    rw [names, second.served] at served
    exact (Except.ok.inj served).symm
  have found : p.found = p'.found := by
    have looked := first.looked
    rw [names, zones, type, second.looked] at looked
    exact (Except.ok.inj looked).symm
  obtain ⟨_, _, _, _, _⟩ := p
  obtain ⟨_, _, _, _, _⟩ := p'
  simp_all

theorem mem_key_rrs_iff (located : Located h p) {k : Bytes × UInt16 × Bytes} :
    k ∈ (p.group.rrs 0).map RR.key ↔ ∃ rr, p.Source rr ∧ rr.key = k := by
  simp only [List.mem_map, Handler.mem_rrs_iff located.looked]

/-- The records a pass comes to are among those it adds. -/
theorem Source.of_met (met : rr ∈ p.dnameRR.toList ++ p.stored) : p.Source rr := by
  rcases List.mem_append.mp met with passed | stored
  · obtain ⟨dname, found, sent⟩ := mem_dnameRR_iff.mp (Option.mem_toList.mp passed)
    exact .dname dname found sent
  · exact .stored stored

/-- A record of type DNAME that a pass adds is the one it follows, or stored. -/
theorem Source.met_of_dname (source : p.Source rr) (type : rr.type = typeDNAME) :
    rr ∈ p.dnameRR.toList ++ p.stored := by
  cases source with
  | dname dname found sent =>
      exact List.mem_append_left _
        (Option.mem_toList.mpr (mem_dnameRR_iff.mpr ⟨dname, found, sent⟩))
  | synthesised dname next _ _ written =>
      have clash : typeCNAME = typeDNAME := by
        rw [written] at type
        exact type
      exact absurd clash (by decide)
  | soa _ built =>
      rw [(owner_and_type_of_soaRR built).2] at type
      exact absurd type (by decide)
  | stored inside => exact List.mem_append_right _ inside

/-- A record of type CNAME that a pass adds is under its owner. -/
theorem Source.name_of_cname (source : p.Source rr)
    (looked : h.lookup p.zone p.name p.qtype = .ok p.found) (type : rr.type = typeCNAME) :
    rr.name = p.owner := by
  cases source with
  | dname dname found sent =>
      rw [type_of_mem_dnameRR looked (mem_dnameRR_iff.mpr ⟨dname, found, sent⟩)] at type
      exact absurd type (by decide)
  | synthesised dname next _ _ written =>
      rw [written]
      rfl
  | soa _ built =>
      rw [(owner_and_type_of_soaRR built).2] at type
      exact absurd type (by decide)
  | stored inside =>
      obtain ⟨r, -, sent⟩ := List.mem_filterMap.mp inside
      exact name_of_rrOf sent

/-- **A redirected pass shares no record with a later one** exactly when they have different
owners and the later one does not come to the same DNAME record. -/
theorem disjoint_iff (leads : p.target ≠ none) (first : Located h p) (second : Located h p')
    (type : p.qtype = p'.qtype) :
    ((p.group.rrs 0).map RR.key).Disjoint ((p'.group.rrs 0).map RR.key) ↔
      foldASCII p.owner ≠ foldASCII p'.owner ∧
        ∀ rr ∈ p.dnameRR, rr.key ∉ (p'.dnameRR.toList ++ p'.stored).map RR.key := by
  constructor
  · intro apart
    refine ⟨fun same => ?_, fun rr passed again => ?_⟩
    · obtain ⟨rr, under⟩ := exists_source_of_target leads
      have again := under p'.owner
      rw [← first.eq_of_owner second type same] at again
      refine apart ((mem_key_rrs_iff first).mpr ⟨_, under p.owner, rfl⟩)
        ((mem_key_rrs_iff second).mpr ⟨_, again, ?_⟩)
      simp [RR.key, same]
    · obtain ⟨dname, found, sent⟩ := mem_dnameRR_iff.mp passed
      obtain ⟨rr', met, same⟩ := List.mem_map.mp again
      exact apart ((mem_key_rrs_iff first).mpr ⟨rr, .dname dname found sent, rfl⟩)
        ((mem_key_rrs_iff second).mpr ⟨rr', .of_met met, same⟩)
  · rintro ⟨owners, dnames⟩ k inFirst inSecond
    obtain ⟨rr, source, rfl⟩ := (mem_key_rrs_iff first).mp inFirst
    obtain ⟨rr', source', same⟩ := (mem_key_rrs_iff second).mp inSecond
    have types : rr'.type = rr.type := congrArg (·.2.1) same
    rcases source.of_target leads first.looked with passed | ⟨owned, cname⟩
    · have met := source'.met_of_dname (types.trans (type_of_mem_dnameRR first.looked passed))
      exact dnames rr passed (List.mem_map.mpr ⟨rr', met, same⟩)
    · have owned' := source'.name_of_cname second.looked (types.trans cname)
      refine owners ?_
      rw [← owned, ← owned']
      exact (congrArg (·.1) same).symm

end Pass

/-! ## The answers -/

namespace Handler

variable {h : Handler} {q : Question} {p : Pass} {later : List Pass}

theorem TrailOf.located (trail : h.TrailOf q p later) {p' : Pass} (member : p' ∈ p :: later) :
    p'.Located h := by
  refine ⟨?_, ?_, trail.looked p' member⟩
  · rcases List.mem_cons.mp member with rfl | after
    · rw [trail.name, trail.owner]
      rfl
    · rw [(trail.continued p' after).owner, (trail.continued p' after).lowered]
  · rcases List.mem_cons.mp member with rfl | after
    · exact trail.served
    · exact (trail.continued p' after).served

/-- The passes do not meet again: no two are made for one owner, none comes to a DNAME record
of an earlier one, to follow it or to answer with it, and none answers with the SOA record
twice. -/
structure Apart (ps : List Pass) : Prop where
  owners : ps.Pairwise fun p p' => foldASCII p.owner ≠ foldASCII p'.owner
  dnames : ps.Pairwise fun p p' =>
    ∀ rr ∈ p.dnameRR, rr.key ∉ (p'.dnameRR.toList ++ p'.stored).map RR.key
  soa : ∀ p ∈ ps, p.AnswersSOA → ∀ soa, soaRR p.zone = .ok soa → soa.key ∉ p.stored.map RR.key

/-- The passes of a question share no records if their owners and DNAME records differ. -/
theorem TrailOf.pairwise_disjoint_iff (trail : h.TrailOf q p later) :
    (p :: later).Pairwise (fun p p' =>
        ((p.group.rrs 0).map RR.key).Disjoint ((p'.group.rrs 0).map RR.key)) ↔
      (p :: later).Pairwise fun p p' => foldASCII p.owner ≠ foldASCII p'.owner ∧
        ∀ rr ∈ p.dnameRR, rr.key ∉ (p'.dnameRR.toList ++ p'.stored).map RR.key := by
  have both : ∀ p₁ ∈ p :: later, ∀ p₂ ∈ p :: later, p₁.target ≠ none →
      (((p₁.group.rrs 0).map RR.key).Disjoint ((p₂.group.rrs 0).map RR.key) ↔
        foldASCII p₁.owner ≠ foldASCII p₂.owner ∧
          ∀ rr ∈ p₁.dnameRR, rr.key ∉ (p₂.dnameRR.toList ++ p₂.stored).map RR.key) :=
    fun p₁ member p₂ member' leads => Pass.disjoint_iff leads (trail.located member)
      (trail.located member') ((trail.type p₁ member).trans (trail.type p₂ member').symm)
  constructor
  · intro apart
    exact (apart.and trail.onward).imp_of_mem fun {p₁ p₂} member member' ⟨disjoint, leads⟩ =>
      (both p₁ member p₂ member' leads).mp disjoint
  · intro apart
    exact (apart.and trail.onward).imp_of_mem fun {p₁ p₂} member member' ⟨different, leads⟩ =>
      (both p₁ member p₂ member' leads).mpr different

/-- The answers to a question repeat no record if its passes do not meet again. -/
theorem TrailOf.nodup_iff (trail : h.TrailOf q p later) (distinct : DistinctRecords h.resolver)
    (i : Nat) : ((h.rrsFrom i (p :: later)).map RR.key).Nodup ↔ Apart (p :: later) := by
  have groups := (rrsFrom_perm h i (p :: later)).map RR.key
  rw [groups.nodup_iff, List.map_flatMap, List.nodup_flatMap]
  have single : ∀ p' ∈ p :: later, ((p'.group.rrs 0).map RR.key).Nodup ↔
      (p'.AnswersSOA → ∀ soa, soaRR p'.zone = .ok soa → soa.key ∉ p'.stored.map RR.key) :=
    fun p' member => Pass.nodup_rrs_iff distinct (trail.looked p' member)
  constructor
  · rintro ⟨alone, disjoint⟩
    have apart := List.pairwise_and_iff.mp (trail.pairwise_disjoint_iff.mp disjoint)
    exact ⟨apart.1, apart.2, fun p' member => (single p' member).mp (alone p' member)⟩
  · rintro ⟨owners, dnames, soa⟩
    exact ⟨fun p' member => (single p' member).mpr (soa p' member),
      trail.pairwise_disjoint_iff.mpr (List.pairwise_and_iff.mpr ⟨owners, dnames⟩)⟩

/-! ## The content -/

/-- The question is led to the name, in its zone, by `k` redirections and no more than the loop
follows. -/
def Visits (h : Handler) (q : Question) (zone : Zone) (k : Nat) (last : Zone) (name : Bytes) :
    Prop :=
  k ≤ maxChain ∧ Leads h q.type k zone (questionName q.name) last name

/-- The DNAME record above the first name is met again at the second: it stands above that as
well, or is asked for there. -/
structure MeetsAgain (h : Handler) (qtype : UInt16) (zone : Zone) (name : Bytes) (zone' : Zone)
    (name' : Bytes) (m m' : Match) (dname : Record) : Prop where
  looked : h.lookup zone name qtype = .ok m
  looked' : h.lookup zone' name' qtype = .ok m'
  found : m.dname = some dname
  servable : Servable dname
  again : (∃ dname', m'.dname = some dname' ∧ m'.dnameAt = m.dnameAt ∧
    wireOf dname' = wireOf dname) ∨
    (name' = m.dnameAt ∧ (qtype = typeANY ∨ qtype = typeDNAME) ∧
      ∃ r ∈ m'.records, typeCode r.type = typeDNAME ∧ wireOf r = wireOf dname)

/-- A record stored at the apex has type and RDATA of the SOA record, and all are asked for. -/
structure StoresSOA (h : Handler) (qtype : UInt16) (zone : Zone) (name : Bytes)
    (m : Match) (soa : RR) (r : Record) : Prop where
  apex : name = zone.name
  any : qtype = typeANY
  built : soaRR zone = .ok soa
  looked : h.lookup zone name qtype = .ok m
  stored : r ∈ m.records
  type : typeCode r.type = typeSOA
  wire : wireOf r = some soa.rdata

/-- **The content does not lead the question to the same again**: no redirection leads to the
question name as it is spelled but for ASCII case, no two lead to one name, no DNAME record is
met twice, and no stored record repeats a SOA record. -/
structure Unrepeated (h : Handler) (q : Question) (zone : Zone) : Prop where
  asked : ∀ {k last name}, 0 < k → Visits h q zone k last name → name ≠ foldASCII q.spelled
  names : ∀ {j k last name last' name'}, 0 < j → j < k → Visits h q zone j last name →
    Visits h q zone k last' name' → name ≠ name'
  dnames : ∀ {j k last name last' name'}, j < k → Visits h q zone j last name →
    Visits h q zone k last' name' →
      ∀ m m' dname, ¬ MeetsAgain h q.type last name last' name' m m' dname
  soa : ∀ {k last name}, (k = 0 → foldASCII q.spelled = name) → Visits h q zone k last name →
    ∀ m soa r, ¬ StoresSOA h q.type last name m soa r

section Content

variable {zone : Zone} {k : Nat} {p p' : Pass}

theorem lowered_dnameAt (lowered : toLower p.name = p.name)
    (looked : h.lookup p.zone p.name p.qtype = .ok p.found) {dname : Record}
    (found : p.found.dname = some dname) : foldASCII p.found.dnameAt = p.found.dnameAt := by
  obtain ⟨front, shape⟩ := mem_ancestors.mp ((taken_of_lookup looked).dname dname found).1
  rw [shape] at lowered
  exact foldASCII_eq_of_toLower_eq (toLower_parts lowered).2

theorem typeCode_of_dname (looked : h.lookup p.zone p.name p.qtype = .ok p.found) {dname : Record}
    (found : p.found.dname = some dname) : typeCode dname.type = typeDNAME := by
  obtain ⟨-, set, -, first⟩ := (taken_of_lookup looked).dname dname found
  simpa using (List.mem_filter.mp (List.mem_of_head? first)).2

/-- The records of a pass that are asked for by their type, or with all others. -/
theorem mem_records_group_iff (looked : h.lookup p.zone p.name p.qtype = .ok p.found) {r : Record}
    (plain : typeCode r.type ≠ typeCNAME)
    (notSOA : ¬ (p.name = p.zone.name ∧ p.qtype = typeSOA)) :
    r ∈ p.group.records ↔
      r ∈ p.found.records ∧ (p.qtype = typeANY ∨ typeCode r.type = p.qtype) := by
  have held : r ∈ p.found.records → p.found.cut = [] ∧ p.found.dname = none := fun member =>
    (taken_of_lookup looked).plain (List.ne_nil_of_mem member)
  cases p.kind with
  | cut cut =>
      rw [Pass.group_of_cut cut]
      exact iff_of_false (by simp) fun both => cut (held both.1).1
  | dname dname uncut found =>
      rw [Pass.group_of_dname uncut found]
      refine iff_of_false (by simp) fun both => ?_
      rw [(held both.1).2] at found
      cases found
  | any uncut plain any =>
      rw [Pass.group_of_any uncut plain any]
      exact (and_iff_left (.inl any)).symm
  | soa uncut plain asked => exact absurd asked notSOA
  | set uncut plain' notANY other =>
      rw [Pass.group_of_set uncut plain' notANY other]
      simp only [notANY, false_or]
      unfold answerSet
      split
      · simp [filterType]
      · rename_i unmatched
        rw [not_not] at unmatched
        have neither : ¬ (r ∈ p.found.records ∧ typeCode r.type = p.qtype) := fun both =>
          List.ne_nil_of_mem (List.mem_filter.mpr ⟨both.1, by simpa using both.2⟩) unmatched
        refine iff_of_false (fun member => ?_) neither
        split at member
        · cases member
        · exact plain (by simpa using (List.mem_filter.mp member).2)

/-- **A later pass comes to a DNAME record again** exactly where the content says so. -/
theorem meets_iff (looked : h.lookup p.zone p.name p.qtype = .ok p.found)
    (looked' : h.lookup p'.zone p'.name p'.qtype = .ok p'.found) (type : p.qtype = p'.qtype)
    (lowered : toLower p.name = p.name) (lowered' : toLower p'.name = p'.name)
    (owner : p'.owner = p'.name) :
    (∃ rr ∈ p.dnameRR, rr.key ∈ (p'.dnameRR.toList ++ p'.stored).map RR.key) ↔
      ∃ dname, MeetsAgain h p'.qtype p.zone p.name p'.zone p'.name p.found p'.found dname := by
  have notSOA : p'.qtype = typeANY ∨ p'.qtype = typeDNAME →
      ¬ (p'.name = p'.zone.name ∧ p'.qtype = typeSOA) := by
    rintro (any | asked) ⟨-, soa⟩
    · rw [any] at soa
      exact absurd soa (by decide)
    · rw [asked] at soa
      exact absurd soa (by decide)
  constructor
  · rintro ⟨rr, member, again⟩
    obtain ⟨dname, found, sent⟩ := Pass.mem_dnameRR_iff.mp member
    have at' := lowered_dnameAt lowered looked found
    have code := typeCode_of_dname looked found
    obtain ⟨wire, encoded, known, rfl⟩ := rrOf_eq_some_iff.mp sent
    refine ⟨dname, type ▸ looked, looked', found, ⟨known, by simp [encoded]⟩, ?_⟩
    obtain ⟨rr', met, same⟩ := List.mem_map.mp again
    simp only [RR.key, Prod.mk.injEq, code] at same
    rcases List.mem_append.mp met with passed | stored
    · obtain ⟨dname', found', sent'⟩ := Pass.mem_dnameRR_iff.mp (Option.mem_toList.mp passed)
      have at'' := lowered_dnameAt lowered' looked' found'
      obtain ⟨wire', encoded', -, rfl⟩ := rrOf_eq_some_iff.mp sent'
      dsimp only at same
      rw [at', at''] at same
      exact .inl ⟨dname', found', same.1, by rw [encoded, encoded', same.2.2]⟩
    · obtain ⟨r, inGroup, sent'⟩ := List.mem_filterMap.mp stored
      obtain ⟨wire', encoded', -, rfl⟩ := rrOf_eq_some_iff.mp sent'
      dsimp only at same
      rw [at', owner, foldASCII_eq_of_toLower_eq lowered'] at same
      have plain : typeCode r.type ≠ typeCNAME := by
        rw [same.2.1]
        decide
      have asked : ¬ (p'.name = p'.zone.name ∧ p'.qtype = typeSOA) := by
        rintro ⟨apex, soa⟩
        obtain ⟨uncut, plain⟩ := lookup_apex (apex ▸ looked')
        rw [Pass.group_of_soa uncut plain ⟨apex, soa⟩] at inGroup
        cases inGroup
      obtain ⟨inside, typed⟩ := (mem_records_group_iff looked' plain asked).mp inGroup
      refine .inr ⟨same.1, typed.imp_right fun typed => ?_, r, inside, same.2.1, ?_⟩
      · rw [← typed, same.2.1]
      · rw [encoded, encoded', same.2.2]
  · rintro ⟨dname, -, -, found, servable, again⟩
    have at' := lowered_dnameAt lowered looked found
    have code := typeCode_of_dname looked found
    obtain ⟨wire, encoded⟩ := Option.ne_none_iff_exists'.mp servable.2
    have known : typeDNAME ≠ 0 := by decide
    refine ⟨_, Pass.mem_dnameRR_iff.mpr ⟨dname, found, rrOf_eq_some_iff.mpr
      ⟨wire, encoded, servable.1, rfl⟩⟩, List.mem_map.mpr ?_⟩
    rcases again with ⟨dname', found', same, wires⟩ | ⟨name, asked, r, inside, typed, wires⟩
    · have code' := typeCode_of_dname looked' found'
      refine ⟨_, List.mem_append_left _ (Option.mem_toList.mpr (Pass.mem_dnameRR_iff.mpr
        ⟨dname', found', rrOf_eq_some_iff.mpr ⟨wire, wires.trans encoded, code'.trans_ne known,
          rfl⟩⟩)), ?_⟩
      simp [RR.key, same, code, code']
    · have plain : typeCode r.type ≠ typeCNAME := by
        rw [typed]
        decide
      have inGroup := (mem_records_group_iff looked' plain (notSOA asked)).mpr
        ⟨inside, asked.imp_right fun asked => typed.trans asked.symm⟩
      refine ⟨_, List.mem_append_right _ (List.mem_filterMap.mpr ⟨r, inGroup, rrOf_eq_some_iff.mpr
        ⟨wire, wires.trans encoded, typed.trans_ne known, rfl⟩⟩), ?_⟩
      simp [RR.key, owner, name, code, typed]

/-- **A pass answers with the SOA record twice** exactly where the content says so. -/
theorem repeats_soa_iff (looked : h.lookup p.zone p.name p.qtype = .ok p.found)
    (lowered : toLower p.name = p.name) :
    (p.AnswersSOA ∧ ∃ soa, soaRR p.zone = .ok soa ∧ soa.key ∈ p.stored.map RR.key) ↔
      foldASCII p.owner = p.name ∧
        ∃ soa r, StoresSOA h p.qtype p.zone p.name p.found soa r := by
  constructor
  · rintro ⟨⟨apex, type, -⟩, soa, built, again⟩
    obtain ⟨named, soaType⟩ := Pass.owner_and_type_of_soaRR built
    obtain ⟨rr, stored, same⟩ := List.mem_map.mp again
    obtain ⟨r, inGroup, sent⟩ := List.mem_filterMap.mp stored
    obtain ⟨wire, encoded, -, rfl⟩ := rrOf_eq_some_iff.mp sent
    simp only [RR.key, Prod.mk.injEq, named, soaType] at same
    obtain ⟨uncut, plain⟩ := lookup_apex (apex ▸ looked)
    have any : p.qtype = typeANY := by
      refine type.resolve_right fun asked => ?_
      rw [Pass.group_of_soa uncut plain ⟨apex, asked⟩] at inGroup
      cases inGroup
    rw [Pass.group_of_any uncut plain any] at inGroup
    refine ⟨?_, soa, r, apex, any, built, looked, inGroup, same.2.1, by rw [encoded, same.2.2]⟩
    rw [same.1, ← apex]
    exact foldASCII_eq_of_toLower_eq lowered
  · rintro ⟨spelled, soa, r, apex, any, built, -, stored, type, wire⟩
    obtain ⟨named, soaType⟩ := Pass.owner_and_type_of_soaRR built
    obtain ⟨uncut, plain⟩ := lookup_apex (apex ▸ looked)
    refine ⟨⟨apex, .inl any, soa, built⟩, soa, built, List.mem_map.mpr ⟨_, List.mem_filterMap.mpr
      ⟨r, ?_, rrOf_eq_some_iff.mpr ⟨soa.rdata, wire, by rw [type]; decide, rfl⟩⟩, ?_⟩⟩
    · rw [Pass.group_of_any uncut plain any]
      exact stored
    · have folded : foldASCII p.zone.name = p.zone.name := by
        rw [← apex]
        exact foldASCII_eq_of_toLower_eq lowered
      simp [RR.key, type, named, soaType, spelled, apex, folded]

/-- What a pass of a question is made at. -/
theorem visits_of_getElem? {owner : Bytes}
    (made : (h.passes q.type (maxChain + 1) zone (questionName q.name) owner)[k]? = some p) :
    Visits h q zone k p.zone p.name ∧ p.qtype = q.type ∧ toLower p.name = p.name ∧
      h.lookup p.zone p.name p.qtype = .ok p.found ∧ (0 < k → p.owner = p.name) ∧
        (k = 0 → p.owner = owner ∧ p.name = questionName q.name) := by
  obtain ⟨short, type, own, led, looked⟩ := getElem?_passes_iff.mp made
  refine ⟨⟨Nat.lt_succ_iff.mp short, led⟩, type, led.toLower_eq (lowered_toLower _).toLower_eq,
    type ▸ looked, fun later => ?_, ?_⟩
  · rw [own, if_neg (Nat.ne_of_gt later)]
  · rintro rfl
    exact ⟨own, (led.unique (.here _ _)).2⟩

/-- A pass is made at every name that is visited, where nothing fails. -/
theorem Visits.exists_pass {last : Zone} {name : Bytes} (visits : Visits h q zone k last name)
    (clean : ¬ LeadsToFailure h q.type (maxChain + 1) zone (questionName q.name)) (owner : Bytes) :
    ∃ p, (h.passes q.type (maxChain + 1) zone (questionName q.name) owner)[k]? = some p ∧
      p.zone = last ∧ p.name = name := by
  obtain ⟨short, led⟩ := visits
  cases looked : h.lookup last name q.type with
  | error e =>
      exact absurd ⟨k, last, name, Nat.lt_succ_of_le short, led, .lookup looked⟩ clean
  | ok m =>
      exact ⟨⟨q.type, last, name, if k = 0 then owner else name, m⟩,
        getElem?_passes_iff.mpr ⟨Nat.lt_succ_of_le short, rfl, rfl, led, looked⟩, rfl, rfl⟩

theorem pairwise_iff_getElem? {α : Type} {R : α → α → Prop} {l : List α} :
    l.Pairwise R ↔ ∀ (i j : Nat) (a b : α), l[i]? = some a → l[j]? = some b → i < j → R a b := by
  rw [List.pairwise_iff_getElem]
  constructor
  · intro holds i j a b first second before
    obtain ⟨inside, rfl⟩ := List.getElem?_eq_some_iff.mp first
    obtain ⟨inside', rfl⟩ := List.getElem?_eq_some_iff.mp second
    exact holds i j inside inside' before
  · intro holds i j inside inside' before
    exact holds i j _ _ (List.getElem?_eq_getElem inside) (List.getElem?_eq_getElem inside') before

/-- **The passes do not meet again exactly when the content does not lead them to.** -/
theorem apart_passes_iff
    (clean : ¬ LeadsToFailure h q.type (maxChain + 1) zone (questionName q.name)) :
    Apart (h.passes q.type (maxChain + 1) zone (questionName q.name) q.spelled) ↔
      Unrepeated h q zone := by
  constructor
  · rintro ⟨owners, dnames, soa⟩
    rw [pairwise_iff_getElem?] at owners dnames
    refine ⟨fun {k last name} later visits =>
      ?_, fun {j k last name last' name'} later before visits
      visits' => ?_, fun {j k last name last' name'} before visits visits' m m' dname meets => ?_,
      fun {k last name} spelled visits m soa' r stores => ?_⟩
    · obtain ⟨p, made, -, rfl⟩ := visits.exists_pass clean q.spelled
      obtain ⟨first, start, -⟩ := Visits.exists_pass ⟨Nat.zero_le _, .here zone _⟩ clean q.spelled
      obtain ⟨-, -, lowered, -, own, -⟩ := visits_of_getElem? made
      obtain ⟨-, -, -, -, -, asked⟩ := visits_of_getElem? start
      have apart := owners 0 k first p start made later
      rw [(asked rfl).1, own later, foldASCII_eq_of_toLower_eq lowered] at apart
      exact fun same => apart same.symm
    · obtain ⟨p, made, -, rfl⟩ := visits.exists_pass clean q.spelled
      obtain ⟨p', made', -, rfl⟩ := visits'.exists_pass clean q.spelled
      obtain ⟨-, -, -, -, own, -⟩ := visits_of_getElem? made
      obtain ⟨-, -, -, -, own', -⟩ := visits_of_getElem? made'
      have apart := owners j k p p' made made' before
      rw [own later, own' (Nat.lt_trans later before)] at apart
      exact fun same => apart (congrArg foldASCII same)
    · obtain ⟨p, made, rfl, rfl⟩ := visits.exists_pass clean q.spelled
      obtain ⟨p', made', rfl, rfl⟩ := visits'.exists_pass clean q.spelled
      obtain ⟨-, type, lowered, looked, -, -⟩ := visits_of_getElem? made
      obtain ⟨-, type', lowered', looked', own', -⟩ := visits_of_getElem? made'
      have same : m = p.found := by
        have first := meets.looked
        rw [← type, looked] at first
        exact (Except.ok.inj first).symm
      have same' : m' = p'.found := by
        have second := meets.looked'
        rw [← type', looked'] at second
        exact (Except.ok.inj second).symm
      rw [same, same', ← type'] at meets
      obtain ⟨rr, member, again⟩ :=
        (meets_iff looked looked' (type.trans type'.symm) lowered lowered'
        (own' (Nat.zero_lt_of_lt before))).mpr ⟨dname, meets⟩
      exact dnames j k p p' made made' before rr member again
    · obtain ⟨p, made, rfl, rfl⟩ := visits.exists_pass clean q.spelled
      obtain ⟨-, type, lowered, looked, own, asked⟩ := visits_of_getElem? made
      have same : m = p.found := by
        have first := stores.looked
        rw [← type, looked] at first
        exact (Except.ok.inj first).symm
      have folded : foldASCII p.owner = p.name := by
        rcases Nat.eq_zero_or_pos k with start | later
        · rw [(asked start).1, spelled start]
        · rw [own later]
          exact foldASCII_eq_of_toLower_eq lowered
      rw [same, ← type] at stores
      obtain ⟨answers, soa', built, again⟩ :=
        (repeats_soa_iff looked lowered).mpr ⟨folded, soa', r, stores⟩
      exact soa p (List.mem_of_getElem? made) answers soa' built again
  · intro unrepeated
    refine ⟨pairwise_iff_getElem?.mpr fun i j p p' made made' before => ?_,
      pairwise_iff_getElem?.mpr fun i j p p' made made' before rr member again => ?_,
      fun p member answers soa built again => ?_⟩
    · obtain ⟨visits, -, lowered, -, own, asked⟩ := visits_of_getElem? made
      obtain ⟨visits', -, lowered', -, own', -⟩ := visits_of_getElem? made'
      have later' := Nat.zero_lt_of_lt before
      rw [own' later', foldASCII_eq_of_toLower_eq lowered']
      rcases Nat.eq_zero_or_pos i with start | later
      · rw [(asked start).1]
        exact (unrepeated.asked later' visits').symm
      · rw [own later, foldASCII_eq_of_toLower_eq lowered]
        exact unrepeated.names later before visits visits'
    · obtain ⟨visits, type, lowered, looked, -, -⟩ := visits_of_getElem? made
      obtain ⟨visits', type', lowered', looked', own', -⟩ := visits_of_getElem? made'
      obtain ⟨dname, meets⟩ := (meets_iff looked looked' (type.trans type'.symm) lowered lowered'
        (own' (Nat.zero_lt_of_lt before))).mp ⟨rr, member, again⟩
      rw [type'] at meets
      exact unrepeated.dnames before visits visits' _ _ dname meets
    · obtain ⟨k, made⟩ := List.mem_iff_getElem?.mp member
      obtain ⟨visits, type, lowered, looked, -, asked⟩ := visits_of_getElem? made
      obtain ⟨folded, soa', r, stores⟩ :=
        (repeats_soa_iff looked lowered).mp ⟨answers, soa, built, again⟩
      rw [type] at stores
      refine unrepeated.soa (fun start => ?_) visits _ soa' r stores
      rw [← folded, (asked start).1]

end Content

/-- **When no record of an answer is repeated**, the records of each name being different:
exactly where the content does not lead the question to the same again. -/
theorem answers_nodup_iff (h : Handler) (req : Message) (distinct : DistinctRecords h.resolver) :
    ((h.handle req).answers.map RR.key).Nodup ↔
      ∀ q zone, h.Resolves req q zone → Unrepeated h q zone := by
  rw [answers_handle]
  rcases trail_cases h req with ⟨empty, never⟩ | ⟨q, zone, resolves⟩
  · rw [empty]
    exact iff_of_true List.nodup_nil fun q zone resolves => absurd resolves (never q zone)
  · obtain ⟨p, later, shape, trail⟩ := resolves.trail_shape
    have passes := resolves.trail_eq
    have unique : (∀ q zone, h.Resolves req q zone → Unrepeated h q zone) ↔
        Unrepeated h q zone := by
      refine ⟨fun all => all q zone resolves, fun one q' zone' resolves' => ?_⟩
      obtain ⟨rfl, rfl⟩ := resolves.unique resolves'
      exact one
    rw [unique, ← apart_passes_iff resolves.clean, shape, trail.nodup_iff distinct, ← shape, passes]
    rfl

/-- Records that differ in the whole table differ at each name. -/
theorem distinctRecords_resolver {db : Database} {encode : Option Encoder}
    (distinct : (db.records.map (scanRecord encode)).Pairwise fun a b =>
      typeCode a.type = typeCode b.type → ∀ wire ∈ wireOf a, wireOf b ≠ some wire) :
    DistinctRecords (db.resolver encode) := by
  rintro zone name set got
  cases got
  rw [Database.records_lookupName]
  exact distinct.sublist (List.filter_sublist.map _)

/-- Two names that lead to each other, and one that leads to an address. -/
def cyclicContent : Database :=
  { bareContent with
    records :=
      [{ id := 1, zone := ascii "a.org", name := ascii "x.a.org"
         nameRev := reverseName (ascii "x.a.org"), type := ascii "CNAME", ttl := 300
         rdata := ascii "y.a.org", reversed := rfl },
       { id := 2, zone := ascii "a.org", name := ascii "y.a.org"
         nameRev := reverseName (ascii "y.a.org"), type := ascii "CNAME", ttl := 300
         rdata := ascii "x.a.org", reversed := rfl },
       { id := 3, zone := ascii "a.org", name := ascii "z.a.org"
         nameRev := reverseName (ascii "z.a.org"), type := ascii "A", ttl := 300
         rdata := ascii "192.0.2.1", reversed := rfl }]
    nextID := 4
    foreignKey := by decide
    idKey := by decide
    idBound := by decide }

theorem distinctRecords_cyclicContent : DistinctRecords (cyclicContent.resolver none) :=
  distinctRecords_resolver (by decide +kernel)

/-- A chain that comes back to its first name repeats its records. -/
theorem cycle_not_nodup :
    DistinctRecords (serving cyclicContent none fun _ => 0).resolver ∧
      ¬ (((serving cyclicContent none fun _ => 0).handle
        (addressQuery (ascii "x.a.org"))).answers.map RR.key).Nodup :=
  ⟨distinctRecords_cyclicContent, by decide +kernel⟩

theorem answers_nodup_iff_address :
    DistinctRecords (serving cyclicContent none fun _ => 0).resolver ∧
      Unrepeated (serving cyclicContent none fun _ => 0)
        { name := ascii "z.a.org", type := typeA, cls := classIN } (Zone.plain (ascii "a.org")) :=
  ⟨distinctRecords_cyclicContent,
    (answers_nodup_iff _ (addressQuery (ascii "z.a.org")) distinctRecords_cyclicContent).mp
      (by decide +kernel) _ _
      (resolves_serving rfl (by decide +kernel) (by decide +kernel) (by decide))⟩

end Handler

end ShardDNS.DNS

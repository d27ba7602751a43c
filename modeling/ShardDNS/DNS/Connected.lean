import ShardDNS.DNS.Redirection
import ShardDNS.DNS.Repetition
import ShardDNS.DNS.RoundTrip

/-!
# The answers as one chain

Where every record is encoded and an alias has no other records beside it, the answers to a
question should be one chain (`Connected`): CNAME records, and DNAME records each followed by
the CNAME record synthesised from it, every one owned by the name the CNAME record before it
holds, and at the end the records of the question's type at the name reached.

They are, unless the question is led below a DNAME record for which no CNAME record can be made
because `PackName` refuses the substituted name (`Strands`, `answers_connected_iff`). The DNAME
record is then answered alone, as in the case of a target that is the root
(`rootTarget_not_connected`).
-/

set_option autoImplicit false

namespace ShardDNS.DNS

open Go Store LabelTree

/-! ## Chains -/

/-- The labels in front of the owner of a DNAME record, joined to its target. -/
def substituted (front : Bytes) (d : RR) : Bytes :=
  front ++ dot :: toLower (rdataNames typeDNAME d.rdata)

/-- A DNAME record of an ancestor of the owner, and the CNAME record synthesised from it. -/
structure Substitution (owner : Bytes) (d cname : RR) : Prop where
  dname : d.type = typeDNAME
  name : cname.name = owner
  type : cname.type = typeCNAME
  ttl : cname.ttl = d.ttl
  rdata : ∃ front, toLower owner = front ++ dot :: d.name ∧
    packName [] (substituted front d) = .ok cname.rdata

/-- The record is owned by the name in its spelling; a SOA record has the name in lower case. -/
def OwnedBy (owner : Bytes) (rr : RR) : Prop :=
  rr.name = owner ∨ (rr.type = typeSOA ∧ rr.name = toLower owner)

/-- The records are at most `n` groups of a chain that starts at the owner. -/
inductive Connected (qtype : UInt16) : Nat → Bytes → List RR → Prop where
  | nothing (n : Nat) (owner : Bytes) : Connected qtype n owner []
  | reached {n : Nat} {owner : Bytes} {rrs : List RR}
      (own : ∀ rr ∈ rrs, OwnedBy owner rr ∧ (rr.type = qtype ∨ qtype = typeANY)) :
      Connected qtype (n + 1) owner rrs
  | cname {n : Nat} {owner : Bytes} {rr : RR} {rrs : List RR} (name : rr.name = owner)
      (type : rr.type = typeCNAME)
      (rest : Connected qtype n (toLower (rdataNames typeCNAME rr.rdata)) rrs) :
      Connected qtype (n + 1) owner (rr :: rrs)
  | dname {n : Nat} {owner : Bytes} {d rr : RR} {rrs : List RR} (made : Substitution owner d rr)
      (rest : Connected qtype n (toLower (rdataNames typeCNAME rr.rdata)) rrs) :
      Connected qtype (n + 1) owner (d :: rr :: rrs)

theorem Connected.mono {qtype : UInt16} {n n' : Nat} {owner : Bytes} {rrs : List RR}
    (chain : Connected qtype n owner rrs) (more : n ≤ n') : Connected qtype n' owner rrs := by
  induction chain generalizing n' with
  | nothing n owner => exact .nothing n' owner
  | reached own =>
      obtain ⟨n', rfl⟩ := Nat.exists_eq_succ_of_ne_zero (Nat.ne_zero_of_lt more)
      exact .reached own
  | cname name type rest ih =>
      obtain ⟨n', rfl⟩ := Nat.exists_eq_succ_of_ne_zero (Nat.ne_zero_of_lt more)
      exact .cname name type (ih (Nat.le_of_succ_le_succ more))
  | dname made rest ih =>
      obtain ⟨n', rfl⟩ := Nat.exists_eq_succ_of_ne_zero (Nat.ne_zero_of_lt more)
      exact .dname made (ih (Nat.le_of_succ_le_succ more))

/-! ## Encoded records -/

/-- The RDATA of the record is encoded, as its text is. -/
def Encoded (r : Record) : Prop :=
  ∃ wire, buildRData (typeCode r.type) r.rdata = .ok wire ∧ wireOf r = some wire

/-- All records are encoded, and a name with a CNAME record has no other. -/
structure Regular (r : Resolver) : Prop where
  encoded : ∀ zone name set, r.lookupName zone name = .ok set →
    ∀ record ∈ set.records, Encoded record
  alone : ∀ zone name set, r.lookupName zone name = .ok set → ∀ record ∈ set.records,
    typeCode record.type = typeCNAME → set.records = [record]

theorem buildRData_zero (text : Bytes) : buildRData 0 text = .error (.unsupportedType 0) := rfl

theorem Encoded.rrOf {r : Record} (encoded : Encoded r) (owner : Bytes) :
    ∃ wire, wireOf r = some wire ∧ buildRData (typeCode r.type) r.rdata = .ok wire ∧
      DNS.rrOf owner r = some { name := owner, type := typeCode r.type, cls := classIN
                                ttl := r.ttl.toUInt32, rdata := wire } := by
  obtain ⟨wire, built, sent⟩ := encoded
  refine ⟨wire, sent, built, rrOf_eq_some_iff.mpr ⟨wire, sent, fun unknown => ?_, rfl⟩⟩
  rw [unknown, buildRData_zero] at built
  cases built

/-! ## Names read back -/

theorem rdataNames_packed {rtype : UInt16} (single : rtype = typeCNAME ∨ rtype = typeDNAME)
    {name wire : Bytes} (packed : packName [] name = .ok wire) :
    rdataNames rtype wire = readBack name := by
  obtain ⟨fit, short, rfl⟩ := packName_eq_ok_iff.mp packed
  have read := parseName_packName fit short [] []
  rw [List.nil_append, List.length_nil] at read
  have named : rtype = typeNS ∨ rtype = typeCNAME ∨ rtype = typeDNAME ∨ rtype = typePTR := by tauto
  rw [rdataNames, if_pos named, nameIn, List.nil_append, read]

/-- What is read back of a DNAME record is the name it was built from. -/
theorem exists_target_of_build {text wire : Bytes} (built : buildRData typeDNAME text = .ok wire) :
    ∃ target, LabelsFit (textLabels target) ∧ rdataNames typeDNAME wire = readBack target := by
  have packs : ∃ target, packName [] target = .ok wire := by
    have single : buildRData typeDNAME text = buildSingleName typeDNAME (trimSpace text) := rfl
    rw [single, buildSingleName] at built
    split at built
    · cases built
    · rw [packNameRData] at built
      cases packed : packName [] (trimSpace text) with
      | error e =>
          rw [packed] at built
          cases built
      | ok out =>
          rw [packed] at built
          cases built
          exact ⟨_, packed⟩
  obtain ⟨target, packed⟩ := packs
  exact ⟨target, (packName_eq_ok_iff.mp packed).1, rdataNames_packed (.inr rfl) packed⟩

/-- A name made by substitution is read back as it is: only the root ends in a dot, and it
makes no name. -/
theorem readBack_joined {front target : Bytes} (fit : LabelsFit (textLabels target))
    (packable : Packable (front ++ dot :: toLower (readBack target))) :
    readBack (front ++ dot :: toLower (readBack target)) =
      front ++ dot :: toLower (readBack target) := by
  by_cases root : trimSuffix target (ascii ".") = []
  · have text : toLower (readBack target) = ascii "." := congrArg toLower (if_pos root)
    rw [text] at packable
    exact absurd (packable_iff.mp packable).1 (not_fit_joined_root front)
  · have text : readBack target = trimSuffix target (ascii ".") := if_neg root
    rw [textLabels, if_neg root] at fit
    rw [text]
    generalize trimSuffix target (ascii ".") = name at root fit
    have closed : ¬ ascii "." <:+ name :=
      not_dot_suffix_of_fit (List.nil_append _).symm (List.splitOn_ne_nil _ _) fit
    have nonempty : toLower name ≠ [] := fun empty => root (toLower_eq_nil_iff.mp empty)
    have unended : ¬ ascii "." <:+ front ++ dot :: toLower name := by
      intro ends
      refine closed (dot_suffix_of_toLower (List.suffix_of_suffix_length_le ends ?_ ?_))
      · exact (List.suffix_cons dot _).trans (List.suffix_append _ _)
      · exact List.length_pos_iff.mpr nonempty
    rw [readBack, trimSuffix_eq_self unended, if_neg (by simp)]

/-! ## The groups of a chain -/

variable {dname : Record}

namespace Pass

variable {h : Handler} {p : Pass} {next : Bytes} {n : Nat} {rrs : List RR}

/-- Of the records found one is an alias only if it is alone. -/
theorem filterType_cname (regular : Regular h.resolver) (located : p.Located h) :
    filterType p.found.records typeCNAME = [] ∨
      ∃ cname, p.found.records = [cname] ∧ filterType p.found.records typeCNAME = [cname] ∧
        Encoded cname ∧ typeCode cname.type = typeCNAME := by
  cases aliases : filterType p.found.records typeCNAME with
  | nil => exact .inl rfl
  | cons cname rest =>
      have member : cname ∈ filterType p.found.records typeCNAME := by simp [aliases]
      obtain ⟨inRecords, type⟩ := List.mem_filter.mp member
      rw [decide_eq_true_eq] at type
      rcases (Handler.taken_of_lookup located.looked).records with none | ⟨at', set, got, same⟩
      · rw [none] at inRecords
        cases inRecords
      · rw [same] at inRecords
        have alone := regular.alone _ _ _ got cname inRecords type
        rw [← same] at alone
        refine .inr ⟨cname, alone, ?_, regular.encoded _ _ _ got cname inRecords, type⟩
        rw [← aliases, alone, filterType, List.filter_singleton]
        simp [type]

/-- The record of an alias is a group, and its RDATA holds the name it leads to. -/
theorem rrs_of_alias {cname : Record} (encoded : Encoded cname)
    (type : typeCode cname.type = typeCNAME)
    (group : p.group = { owner := p.owner, records := [cname] }) (start : Nat) :
    ∃ rr : RR, p.group.rrs start = [rr] ∧ rr.name = p.owner ∧ rr.type = typeCNAME ∧
      wireOf cname = some rr.rdata := by
  obtain ⟨wire, sent, -, made⟩ := encoded.rrOf p.owner
  refine ⟨{ name := p.owner, type := typeCode cname.type, cls := classIN, ttl := cname.ttl.toUInt32
            rdata := wire }, ?_, rfl, type, sent⟩
  rw [group, Group.rrs, List.rotate_singleton]
  simp [made]

/-- The DNAME record of an ancestor has the name it was built from in its RDATA. -/
theorem encoded_of_dname (regular : Regular h.resolver)
    (looked : h.lookup p.zone p.name p.qtype = .ok p.found) (found : p.found.dname = some dname) :
    typeCode dname.type = typeDNAME ∧ Encoded dname ∧
      ∃ target, LabelsFit (textLabels target) ∧
        rdataNames typeDNAME ((wireOf dname).getD []) = readBack target := by
  obtain ⟨-, set, got, first⟩ := (Handler.taken_of_lookup looked).dname dname found
  obtain ⟨inSet, type⟩ := List.mem_filter.mp (List.mem_of_head? first)
  rw [decide_eq_true_eq] at type
  have encoded := regular.encoded _ _ _ got dname inSet
  have ⟨wire, built, sent⟩ := encoded
  rw [type] at built
  rw [sent]
  exact ⟨type, encoded, exists_target_of_build built⟩

theorem target_ne_nil (regular : Regular h.resolver)
    (looked : h.lookup p.zone p.name p.qtype = .ok p.found) (found : p.found.dname = some dname) :
    rdataNames typeDNAME ((wireOf dname).getD []) ≠ [] := by
  obtain ⟨-, -, target, -, read⟩ := encoded_of_dname regular looked found
  rw [read]
  exact readBack_ne_nil target

/-- The first DNAME record of an ancestor is sent. -/
theorem dname_of_found (regular : Regular h.resolver) (located : p.Located h)
    (found : p.found.dname = some dname) :
    ∃ (d : RR) (front target : Bytes), rrOf p.found.dnameAt dname = some d ∧ d.type = typeDNAME ∧
      d.ttl = dname.ttl.toUInt32 ∧ toLower p.owner = front ++ dot :: d.name ∧
      LabelsFit (textLabels target) ∧ rdataNames typeDNAME d.rdata = readBack target ∧
      ∀ next, Handler.dnameTarget p.name p.found.dnameAt dname = some next ↔
        next = substituted front d ∧ next.length ≤ 253 ∧ Packable next := by
  obtain ⟨above, -⟩ := (Handler.taken_of_lookup located.looked).dname dname found
  obtain ⟨type, encoded, target, fit, read⟩ := encoded_of_dname regular located.looked found
  have nonempty := target_ne_nil regular located.looked found
  obtain ⟨wire, sent, -, made⟩ := encoded.rrOf p.found.dnameAt
  obtain ⟨front, shape⟩ := mem_ancestors.mp above
  rw [sent, Option.getD_some] at read nonempty
  refine ⟨_, front, target, made, type, rfl, located.name ▸ shape, fit, read, fun next => ?_⟩
  rw [Handler.dnameTarget_eq_some_iff, shape, Handler.substitute_below, sent, Option.getD_some]
  exact and_iff_right nonempty

/-- The RDATA of an alias holds the name it leads to. -/
theorem toLower_rdataNames_of_cnameTarget {cname : Record} {wire : Bytes}
    (sent : wireOf cname = some wire) (goes : Handler.cnameTarget cname = some next) :
    toLower (rdataNames typeCNAME wire) = next := by
  unfold Handler.cnameTarget at goes
  rw [sent, Option.getD_some] at goes
  dsimp only at goes
  split at goes
  · cases goes
  · exact Option.some.inj goes

/-- The group of an alias that is followed. -/
theorem rrs_of_cname (regular : Regular h.resolver) (located : p.Located h)
    (leads : p.target = some next) (plain : p.found.dname = none) (start : Nat) :
    ∃ rr : RR, p.group.rrs start = [rr] ∧ rr.name = p.owner ∧ rr.type = typeCNAME ∧
      toLower (rdataNames typeCNAME rr.rdata) = next := by
  have group := (plain_of_target (by simp [leads]) plain).2
  obtain ⟨cname, first, goes⟩ := cnameTarget_of_target leads plain
  rcases filterType_cname regular located with empty | ⟨alone, -, only, encoded, type⟩
  · rw [empty] at first
    cases first
  · rw [only, List.head?_cons, Option.some.injEq] at first
    subst first
    rw [only] at group
    obtain ⟨rr, shape, name, type, wire⟩ := rrs_of_alias encoded type group start
    exact ⟨rr, shape, name, type, toLower_rdataNames_of_cnameTarget wire goes⟩

/-- The group of a DNAME record that is followed. -/
theorem rrs_of_dname (regular : Regular h.resolver) (located : p.Located h)
    (leads : p.target = some next) (found : p.found.dname = some dname) (start : Nat) :
    ∃ d rr : RR, p.group.rrs start = [d, rr] ∧ Substitution p.owner d rr ∧
      toLower (rdataNames typeCNAME rr.rdata) = next := by
  have uncut := (Handler.taken_of_lookup located.looked).uncut (by simp [found])
  have goes := dnameTarget_of_target leads found
  obtain ⟨d, front, target, sent, type, ttl, shape, fit, read, leadsTo⟩ :=
    dname_of_found regular located found
  obtain ⟨text, -, packable⟩ := (leadsTo next).mp goes
  obtain ⟨fits, short⟩ := packable_iff.mp packable
  have packed : packName [] next = .ok (encodeLabels (textLabels next) ++ [0]) :=
    packName_eq_ok_iff.mpr ⟨fits, short, rfl⟩
  have back : readBack next = next := by
    rw [text, substituted, read] at packable ⊢
    exact readBack_joined fit packable
  have lowered : toLower next = next := by
    refine Handler.toLower_target located.looked ?_ leads
    rw [located.name]
    exact (lowered_toLower _).toLower_eq
  refine ⟨d, synthesisedRR p.owner dname next, ?_,
    ⟨type, rfl, rfl, ttl.symm, front, shape, text ▸ packed⟩, ?_⟩
  · rw [group_of_dname uncut found]
    simp [Group.rrs, sent, goes]
  · rw [show (synthesisedRR p.owner dname next).rdata = encodeLabels (textLabels next) ++ [0]
      from rfl, rdataNames_packed (.inl rfl) packed, back, lowered]

/-- **A redirected pass is a link of the chain.** -/
theorem connected_of_target (regular : Regular h.resolver) (located : p.Located h)
    (leads : p.target = some next) (rest : Connected p.qtype n next rrs) (start : Nat) :
    Connected p.qtype (n + 1) p.owner (p.group.rrs start ++ rrs) := by
  cases found : p.found.dname with
  | none =>
      obtain ⟨rr, shape, name, type, target⟩ := rrs_of_cname regular located leads found start
      rw [shape, List.singleton_append]
      exact .cname name type (target ▸ rest)
  | some dname =>
      obtain ⟨d, rr, shape, made, target⟩ := rrs_of_dname regular located leads found start
      rw [shape]
      exact .dname made (target ▸ rest)

/-- The owner of a DNAME record above a name is another name. -/
theorem not_ownedBy_of_above {owner front : Bytes} {d : RR} (type : d.type = typeDNAME)
    (shape : toLower owner = front ++ dot :: d.name) : ¬ OwnedBy owner d := by
  rintro (same | ⟨soa, -⟩)
  · have above : d.name ∈ ancestors dot (toLower owner) := mem_ancestors.mpr ⟨front, shape⟩
    exact toLower_ne_of_mem_ancestors above (congrArg toLower same)
  · rw [type] at soa
    exact absurd soa (by decide)

/-- A redirected pass is a link of any chain it belongs to. -/
theorem connected_rest (regular : Regular h.resolver) (located : p.Located h)
    (leads : p.target = some next) (start : Nat)
    (chain : Connected p.qtype n p.owner (p.group.rrs start ++ rrs)) :
    ∃ n', Connected p.qtype n' next rrs := by
  cases found : p.found.dname with
  | none =>
      obtain ⟨rr, shape, name, type, target⟩ := rrs_of_cname regular located leads found start
      -- a question for aliases, or for all records, is not redirected by one
      have asked : ¬ (rr.type = p.qtype ∨ p.qtype = typeANY) := by
        obtain ⟨-, goes⟩ := Handler.Pass.target_eq_some_iff.mp leads
        unfold Handler.target at goes
        rw [found] at goes
        dsimp only at goes
        split at goes
        · cases goes
        · rename_i elsewhere
          simp only [Handler.AnswersHere, not_or] at elsewhere
          rw [type]
          exact fun either => either.elim (fun same => elsewhere.2.1 same.symm) elsewhere.1
      rw [shape, List.singleton_append] at chain
      cases chain with
      | reached own => exact absurd (own rr List.mem_cons_self).2 asked
      | cname _ _ rest => exact ⟨_, target ▸ rest⟩
      | dname made => exact absurd (made.dname.symm.trans type) (by decide)
  | some dname =>
      obtain ⟨d, rr, shape, made, target⟩ := rrs_of_dname regular located leads found start
      obtain ⟨front, above, -⟩ := made.rdata
      rw [shape] at chain
      cases chain with
      | reached own =>
          exact absurd (own d List.mem_cons_self).1 (not_ownedBy_of_above made.dname above)
      | cname _ type _ => exact absurd (type.symm.trans made.dname) (by decide)
      | dname _ rest => exact ⟨_, target ▸ rest⟩

/-- The pass found what the question asks for at the name it came to. -/
theorem reached_of_source (located : p.Located h) (notAlias : ∀ rr ∈ p.stored, rr.type = p.qtype ∨
    p.qtype = typeANY) (plain : p.found.dname = none) {rr : RR} (source : p.Source rr) :
    OwnedBy p.owner rr ∧ (rr.type = p.qtype ∨ p.qtype = typeANY) := by
  cases source with
  | dname dname found | synthesised dname next found =>
      rw [plain] at found
      cases found
  | soa answers built =>
      obtain ⟨name, type⟩ := owner_and_type_of_soaRR built
      refine ⟨.inr ⟨type, ?_⟩, ?_⟩
      · rw [name, ← answers.1, located.name]
      · rw [type]
        exact answers.2.1.symm.imp_left Eq.symm
  | stored member =>
      obtain ⟨r, -, sent⟩ := List.mem_filterMap.mp member
      exact ⟨.inl (name_of_rrOf sent), notAlias rr member⟩

/-- Where all that is stored is of the type asked for, the pass reached its end. -/
theorem connected_of_typed (located : p.Located h) (plain : p.found.dname = none)
    (typed : ∀ rr ∈ p.stored, rr.type = p.qtype ∨ p.qtype = typeANY) (start : Nat) :
    Connected p.qtype (n + 1) p.owner (p.group.rrs start) := by
  refine .reached fun rr member => reached_of_source located typed plain ?_
  exact (Handler.mem_rrs_iff located.looked).mp (Group.mem_rrs.mpr (Group.mem_rrs.mp member))

/-- The records of a type end the chain, or an alias that leads nowhere does. -/
theorem connected_of_set (regular : Regular h.resolver) (located : p.Located h)
    (plain : p.found.dname = none)
    (group : p.group = { owner := p.owner, records := answerSet p.qtype p.found.records })
    (start : Nat) : Connected p.qtype (n + 1) p.owner (p.group.rrs start) := by
  unfold answerSet at group
  split at group
  · refine connected_of_typed located plain (fun rr member => .inl ?_) start
    obtain ⟨r, inGroup, sent⟩ := List.mem_filterMap.mp member
    obtain ⟨wire, -, -, rfl⟩ := rrOf_eq_some_iff.mp sent
    rw [group] at inGroup
    simpa using (List.mem_filter.mp inGroup).2
  · split at group
    · rw [group]
      simpa [Group.rrs] using Connected.nothing _ _
    · rcases filterType_cname regular located with empty | ⟨cname, -, only, encoded, type⟩
      · rw [group, empty]
        simpa [Group.rrs] using Connected.nothing _ _
      · rw [only] at group
        obtain ⟨rr, shape, name, type, -⟩ := rrs_of_alias encoded type group start
        rw [shape]
        exact .cname name type (.nothing _ _)

/-- **A pass that is under no DNAME record and leads nowhere ends the chain.** -/
theorem connected_of_no_target (regular : Regular h.resolver) (located : p.Located h)
    (plain : p.found.dname = none) (start : Nat) :
    Connected p.qtype (n + 1) p.owner (p.group.rrs start) := by
  cases p.kind with
  | cut cut =>
      rw [group_of_cut cut]
      exact .nothing _ _
  | dname dname _ found =>
      rw [plain] at found
      cases found
  | any _ _ any => exact connected_of_typed located plain (fun _ _ => .inr any) start
  | soa uncut plain asked =>
      have nothing := stored_eq_nil (by rw [group_of_soa uncut plain asked])
      exact connected_of_typed located plain (by simp [nothing]) start
  | set uncut plain notANY other =>
      exact connected_of_set regular located plain (group_of_set uncut plain notANY other) start

/-- The pass comes to a DNAME record that leads nowhere. -/
structure Stranded (p : Pass) : Prop where
  found : p.found.dname ≠ none
  stays : p.target = none

theorem Stranded.nowhere (stranded : p.Stranded) (found : p.found.dname = some dname)
    (looked : h.lookup p.zone p.name p.qtype = .ok p.found) :
    Handler.dnameTarget p.name p.found.dnameAt dname = none := by
  have uncut := (Handler.taken_of_lookup looked).uncut stranded.found
  have stays := stranded.stays
  unfold Pass.target Handler.target at stays
  rwa [if_pos uncut, found] at stays

/-- A DNAME record that leads nowhere is answered alone, which is no chain. -/
theorem not_connected_of_stranded (regular : Regular h.resolver) (located : p.Located h)
    (stranded : p.Stranded) (start : Nat) :
    ¬ Connected p.qtype n p.owner (p.group.rrs start) := by
  obtain ⟨dname, found⟩ := Option.ne_none_iff_exists'.mp stranded.found
  have uncut := (Handler.taken_of_lookup located.looked).uncut stranded.found
  obtain ⟨d, front, -, sent, type, -, shape, -⟩ := dname_of_found regular located found
  have nowhere := stranded.nowhere found located.looked
  have group : p.group.rrs start = [d] := by
    rw [group_of_dname uncut found]
    simp [Group.rrs, sent, nowhere]
  rw [group]
  intro chain
  cases chain with
  | reached own => exact not_ownedBy_of_above type shape (own d List.mem_cons_self).1
  | cname _ type' _ => exact absurd (type.symm.trans type') (by decide)

end Pass

/-! ## The answers -/

namespace Handler

variable {h : Handler} {qtype : UInt16} {zone : Zone} {name owner : Bytes}

/-- **The passes of a question are one chain** if none is stranded. -/
theorem connected_passes (regular : Regular h.resolver) (left : Nat)
    (lowered : name = toLower owner) (served : h.resolver.findZone name = .ok zone) (i : Nat)
    (onward : ∀ p ∈ h.passes qtype left zone name owner, ¬ p.Stranded) :
    Connected qtype (h.passes qtype left zone name owner).length owner
      (h.rrsFrom i (h.passes qtype left zone name owner)) := by
  revert lowered served i onward
  refine @passes_induction h qtype
    (fun zone name owner ps => name = toLower owner → h.resolver.findZone name = .ok zone →
      ∀ i, (∀ p ∈ ps, ¬ p.Stranded) → Connected qtype ps.length owner (h.rrsFrom i ps))
    ?_ ?_ ?_ left zone name owner
  · intro zone name owner _ _ i _
    exact .nothing _ _
  · intro zone name owner m looked lowered served i onward
    have located : (Pass.mk qtype zone name owner m).Located h := ⟨lowered, served, looked⟩
    rw [rrsFrom, rrsFrom, List.length_singleton]
    cases leads : (Pass.mk qtype zone name owner m).target with
    | none =>
        have plain : m.dname = none := by
          by_contra found
          exact onward _ List.mem_cons_self ⟨found, leads⟩
        rw [List.append_nil]
        exact Pass.connected_of_no_target regular located plain _
    | some next => exact Pass.connected_of_target regular located leads (.nothing 0 next) _
  · intro zone name owner m zone' next ps looked leads served' ih lowered served i onward
    have located : (Pass.mk qtype zone name owner m).Located h := ⟨lowered, served, looked⟩
    have lowered' : toLower next = next := by
      refine toLower_target looked ?_ leads
      rw [lowered]
      exact (lowered_toLower _).toLower_eq
    have rest := ih lowered'.symm served' (i + 1) fun p later =>
      onward p (List.mem_cons_of_mem _ later)
    rw [rrsFrom, List.length_cons]
    exact Pass.connected_of_target regular located leads rest _

/-- In a chain no pass is stranded. -/
theorem not_stranded_of_connected (regular : Regular h.resolver) (left : Nat)
    (lowered : name = toLower owner) (served : h.resolver.findZone name = .ok zone) {n i : Nat}
    (chain : Connected qtype n owner (h.rrsFrom i (h.passes qtype left zone name owner))) :
    ∀ p ∈ h.passes qtype left zone name owner, ¬ p.Stranded := by
  revert lowered served n i chain
  refine @passes_induction h qtype
    (fun zone name owner ps => name = toLower owner → h.resolver.findZone name = .ok zone →
      ∀ {n i}, Connected qtype n owner (h.rrsFrom i ps) → ∀ p ∈ ps, ¬ p.Stranded)
    ?_ ?_ ?_ left zone name owner
  · intro zone name owner _ _ n i _ p member
    cases member
  · intro zone name owner m looked lowered served n i chain p member stranded
    rw [List.mem_singleton.mp member] at stranded
    rw [rrsFrom, rrsFrom, List.append_nil] at chain
    exact Pass.not_connected_of_stranded regular ⟨lowered, served, looked⟩ stranded _ chain
  · intro zone name owner m zone' next ps looked leads served' ih lowered served n i chain p member
    have located : (Pass.mk qtype zone name owner m).Located h := ⟨lowered, served, looked⟩
    rcases List.mem_cons.mp member with rfl | later
    · intro stranded
      rw [stranded.stays] at leads
      cases leads
    · have lowered' : toLower next = next := by
        refine toLower_target looked ?_ leads
        rw [lowered]
        exact (lowered_toLower _).toLower_eq
      rw [rrsFrom] at chain
      obtain ⟨n', rest⟩ := Pass.connected_rest regular located leads _ chain
      exact ih lowered'.symm served' rest p later

/-- The name is below a DNAME record that puts a name in its place which is not too long, and
which `PackName` refuses. -/
structure Strands (h : Handler) (qtype : UInt16) (zone : Zone) (name : Bytes) (m : Match)
    (dname : Record) : Prop where
  looked : h.lookup zone name qtype = .ok m
  found : m.dname = some dname
  short : (substitute name m.dnameAt dname).length ≤ 253
  refused : ¬ Packable (substitute name m.dnameAt dname)

theorem Strands.stranded {p : Pass} {m : Match} (strands : Strands h p.qtype p.zone p.name m dname)
    (looked : h.lookup p.zone p.name p.qtype = .ok p.found) : p.Stranded := by
  have same : m = p.found := Except.ok.inj (strands.looked.symm.trans looked)
  subst same
  have found := strands.found
  refine ⟨by simp [found], Option.eq_none_iff_forall_ne_some.mpr fun next leads => ?_⟩
  obtain ⟨-, text, -, packable⟩ :=
    dnameTarget_eq_some_iff.mp (Pass.dnameTarget_of_target leads found)
  exact strands.refused (text ▸ packable)

/-- Under a DNAME record that puts a name in place which is too long, the server fails. -/
theorem rcode_of_tooLong {req : Message} {q : Question} {k : Nat} {last : Zone} {lastName : Bytes}
    {m : Match} (resolves : h.Resolves req q zone) (visits : Visits h q zone k last lastName)
    (looked : h.lookup last lastName q.type = .ok m) (found : m.dname = some dname)
    (encoded : rdataNames typeDNAME ((wireOf dname).getD []) ≠ [])
    (long : 253 < (substitute lastName m.dnameAt dname).length) :
    (h.handle req).rcode = rcodeServerFailure := by
  obtain ⟨short, led⟩ := visits
  have uncut := (taken_of_lookup looked).uncut (by simp [found])
  obtain ⟨added, lastOwner, -, loop⟩ := resolveLoop_of_leads led (maxChain - k + 1)
    (Message.newResponse req).setAA (trimSuffix q.name (ascii "."))
  have passes : maxChain - k + 1 + k = maxChain + 1 := by omega
  rw [passes] at loop
  rw [handle_of_reaches resolves.single resolves.reaches resolves.served, resolve, loop,
    resolveLoop, hop_of_dname looked uncut found, followDNAME_eq, if_neg encoded, if_pos long]
  exact Message.rcode_setRcode _ _

/-- **The answers to a question are one chain**, of at most nine groups, that starts at the name
asked for, exactly if no name it is led to is below a DNAME record that strands it. -/
theorem answers_connected_iff (h : Handler) (req : Message) (q : Question)
    (asked : q ∈ req.questions) (regular : Regular h.resolver)
    (clean : (h.handle req).rcode ≠ rcodeServerFailure) :
    Connected q.type (maxChain + 1) q.spelled (h.handle req).answers ↔
      ∀ zone, h.Resolves req q zone → ∀ k last name m dname, Visits h q zone k last name →
        ¬ Strands h q.type last name m dname := by
  rw [answers_handle]
  rcases trail_cases h req with ⟨silent, unresolved⟩ | ⟨q', zone, resolves⟩
  · rw [silent]
    exact iff_of_true (.nothing _ _) fun zone resolves => absurd resolves (unresolved q zone)
  · rw [resolves.single, List.mem_singleton] at asked
    subst asked
    rw [resolves.trail_eq]
    constructor
    · intro chain zone' resolves' k last name m dname visits strands
      obtain ⟨-, rfl⟩ := resolves.unique resolves'
      obtain ⟨p, made, rfl, rfl⟩ := visits.exists_pass resolves.clean q.spelled
      obtain ⟨-, type, -, looked, -, -⟩ := visits_of_getElem? made
      refine not_stranded_of_connected regular _ rfl resolves.served chain p
        (List.mem_of_getElem? made) ?_
      rw [← type] at strands
      exact strands.stranded looked
    · intro free
      refine (connected_passes regular _ rfl resolves.served 0 ?_).mono (length_passes_le _ _ _ _)
      intro p member stranded
      obtain ⟨k, made⟩ := List.mem_iff_getElem?.mp member
      obtain ⟨visits, type, -, looked, -, -⟩ := visits_of_getElem? made
      obtain ⟨dname, found⟩ := Option.ne_none_iff_exists'.mp stranded.found
      have encoded := Pass.target_ne_nil regular looked found
      rw [type] at looked
      by_cases long : 253 < (substitute p.name p.found.dnameAt dname).length
      · exact clean (rcode_of_tooLong resolves visits looked found encoded long)
      · have short := Nat.le_of_not_lt long
        refine free zone resolves k p.zone p.name p.found dname visits
          ⟨looked, found, short, fun packable => ?_⟩
        have leads := dnameTarget_eq_some_iff.mpr ⟨encoded, rfl, short, packable⟩
        rw [stranded.nowhere found (type ▸ looked)] at leads
        cases leads

/-! ## Contents -/

theorem encoded_scanRecord {row : RecordRow}
    (built : (buildRData (typeCode row.type) row.rdata).toBool = true) :
    Encoded (scanRecord none row) := by
  cases wire : buildRData (typeCode row.type) row.rdata with
  | error e =>
      rw [wire] at built
      cases built
  | ok wire' => exact ⟨wire', wire, congrArg Except.toOption wire⟩

/-- A table of encoded records in which no alias shares its name. -/
theorem regular_resolver {db : Database}
    (encoded : ∀ row ∈ db.records, (buildRData (typeCode row.type) row.rdata).toBool = true)
    (alone : db.records.Pairwise fun a b => a.zone = b.zone → a.name = b.name →
      typeCode a.type ≠ typeCNAME ∧ typeCode b.type ≠ typeCNAME) :
    Regular (db.resolver none) := by
  constructor
  · rintro zone name set got record member
    cases got
    rw [Database.records_lookupName] at member
    obtain ⟨row, inside, rfl⟩ := List.mem_map.mp member
    exact encoded_scanRecord (encoded row (List.mem_filter.mp inside).1)
  · rintro zone name set got record member type
    cases got
    rw [Database.records_lookupName] at member ⊢
    obtain ⟨row, inside, rfl⟩ := List.mem_map.mp member
    rw [type_scanRecord] at type
    have apart := alone.sublist
      (List.filter_sublist (p := fun row => row.zone = zone ∧ row.name = name))
    have here : ∀ other ∈ db.selectAt zone name, other.zone = zone ∧ other.name = name :=
      fun other member => by simpa using (List.mem_filter.mp member).2
    unfold Database.recordsAt
    unfold Database.selectAt at inside here ⊢
    obtain ⟨before, after, split⟩ := List.append_of_mem inside
    rw [split] at apart here ⊢
    obtain ⟨-, right, left⟩ := List.pairwise_append.mp apart
    have same : ∀ other ∈ before ++ row :: after, other.zone = row.zone ∧ other.name = row.name :=
      fun other member => by
        rw [(here other member).1, (here other member).2]
        exact (here row (by simp)).imp Eq.symm Eq.symm
    have first : before = [] := List.eq_nil_iff_forall_not_mem.mpr fun other member => by
      obtain ⟨zones, names⟩ := same other (by simp [member])
      exact (left other member row List.mem_cons_self zones names).2 type
    have last : after = [] := List.eq_nil_iff_forall_not_mem.mpr fun other member => by
      obtain ⟨zones, names⟩ := same other (by simp [member])
      exact ((List.pairwise_cons.mp right).1 other member zones.symm names.symm).1 type
    rw [first, last]
    rfl

/-- Without DNAME records nothing strands. -/
theorem not_strands_of_rows {db : Database} {encode : Option Encoder} {rotate : Nat → UInt32}
    {m : Match} (plain : ∀ row ∈ db.records, typeCode row.type ≠ typeDNAME) :
    ¬ Strands (serving db encode rotate) qtype zone name m dname := by
  intro strands
  obtain ⟨-, set, got, first⟩ := (taken_of_lookup strands.looked).dname dname strands.found
  obtain ⟨inSet, type⟩ := List.mem_filter.mp (List.mem_of_head? first)
  cases got
  rw [Database.records_lookupName] at inSet
  obtain ⟨row, inside, rfl⟩ := List.mem_map.mp inSet
  rw [decide_eq_true_eq, type_scanRecord] at type
  exact plain row (List.mem_filter.mp inside).1 type

/-- A DNAME record with the root as its target. -/
def strandedContent : Database :=
  { bareContent with
    records :=
      [{ id := 1, zone := ascii "a.org", name := ascii "old.a.org"
         nameRev := reverseName (ascii "old.a.org"), type := ascii "DNAME", ttl := 300
         rdata := ascii ".", reversed := rfl }]
    nextID := 2
    foreignKey := by decide
    idKey := by decide
    idBound := by decide }

def strandedRR : RR :=
  { name := ascii "old.a.org", type := typeDNAME, cls := classIN, ttl := 300, rdata := [0] }

/-- The answer is the DNAME record alone, which is no group of the question name. -/
theorem rootTarget_not_connected :
    Regular (serving strandedContent none fun _ => 0).resolver ∧
      ((serving strandedContent none fun _ => 0).handle
        (addressQuery (ascii "x.old.a.org"))).rcode = rcodeNoError ∧
      ((serving strandedContent none fun _ => 0).handle
        (addressQuery (ascii "x.old.a.org"))).answers = [strandedRR] ∧
      ∀ n, ¬ Connected typeA n (ascii "x.old.a.org") [strandedRR] := by
  refine ⟨regular_resolver (by decide +kernel) (by decide +kernel), by decide +kernel,
    by decide +kernel, fun n chain => ?_⟩
  cases chain with
  | reached own => exact absurd (own _ List.mem_cons_self).2 (by decide)
  | cname name type rest => exact absurd type (by decide)

theorem answers_connected_iff_cycle :
    Regular (serving cyclicContent none fun _ => 0).resolver ∧
      Connected typeA (maxChain + 1) (ascii "x.a.org")
        ((serving cyclicContent none fun _ => 0).handle (addressQuery (ascii "x.a.org"))).answers :=
  have regular : Regular (cyclicContent.resolver none) :=
    regular_resolver (by decide +kernel) (by decide +kernel)
  ⟨regular, (answers_connected_iff _ (addressQuery (ascii "x.a.org")) _ List.mem_cons_self regular
    (by decide +kernel)).mpr fun _ _ _ _ _ _ _ _ => not_strands_of_rows (by decide +kernel)⟩

end Handler

end ShardDNS.DNS

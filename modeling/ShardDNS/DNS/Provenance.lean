import ShardDNS.DNS.Envelope

/-!
# Where records come from

A response holds nothing that the resolver did not return while the request was handled,
whatever it answers to each call. The question is led from its own name to the targets of the CNAME
and DNAME records that were returned for such a name (`Led`). An answer was returned for one of
these names, or for a wildcard over it; a delegation for the name or one above it; an address for
the name in a record that was returned. What is made up, a SOA record or the CNAME record of a
DNAME, is made of a zone or a record that was returned (`handle_sourced`).

The events of a run are fixed, and each function is shown to return what has its source among
them, whatever part of them are its own (`Assuming`).
-/

set_option autoImplicit false

namespace ShardDNS.DNS

open Go Store Program

/-! ## Sources -/

/-- A name is an ancestor of another. -/
def Above (d name : Bytes) : Prop := dot :: d <:+ name

/-- A name at which the records of another are looked up: itself, or a wildcard at it or above. -/
def StandsFor (n name : Bytes) : Prop := n = name ∨ ∃ e, n = ascii "*." ++ e ∧
    (e = name ∨ Above e name)

section Sources

variable (T : List (Event Call.Answer))

/-- The zone was returned for the name. -/
def Found (name : Bytes) (zone : Zone) : Prop :=
  (⟨.findZone name, .ok zone⟩ : Event Call.Answer) ∈ T

/-- The record was returned for the name. -/
def Returned (zone : Zone) (n : Bytes) (r : Record) : Prop :=
  ∃ set : NameSet, (⟨.lookupName zone.name n, .ok set⟩ : Event Call.Answer) ∈ T ∧ r ∈ set.records

/-- The name that a record points to. -/
def pointed (r : Record) : Bytes := toLower (rdataNames (typeCode r.type) ((wireOf r).getD []))

/-- The names that a question is led to, each with the zone it was found in and the owner of the
answers for it: the question's own name, and the targets of the redirections that were returned for
one that it is led to. -/
inductive Led (q : Question) : Zone → Bytes → Bytes → Prop where
  | asked {zone : Zone} (found : Found T (questionName q.name) zone) :
      Led q zone (questionName q.name) (trimSuffix q.name (ascii "."))
  | cname {zone zone' : Zone} {name owner n : Bytes} {r : Record} (led : Led q zone name owner)
      (standsFor : StandsFor n name) (returned : Returned T zone n r)
      (type : typeCode r.type = typeCNAME) (found : Found T (pointed r) zone') :
      Led q zone' (pointed r) (pointed r)
  | dname {zone zone' : Zone} {name owner d : Bytes} {r : Record} (led : Led q zone name owner)
      (above : Above d name) (returned : Returned T zone d r) (type : typeCode r.type = typeDNAME)
      (found : Found T (Handler.substitute name d r) zone') :
      Led q zone' (Handler.substitute name d r) (Handler.substitute name d r)

/-- What an answer can be. -/
inductive AnswerFrom (q : Question) : RR → Prop where
  | record {zone : Zone} {name owner n : Bytes} {r : Record} {rr : RR}
      (led : Led T q zone name owner)
      (standsFor : StandsFor n name) (returned : Returned T zone n r)
      (sent : rrOf owner r = some rr)
      (asked : rr.type = q.type ∨ rr.type = typeCNAME ∨ q.type = typeANY) : AnswerFrom q rr
  | dname {zone : Zone} {name owner d : Bytes} {r : Record} {rr : RR}
      (led : Led T q zone name owner)
      (above : Above d name) (returned : Returned T zone d r) (type : typeCode r.type = typeDNAME)
      (sent : rrOf d r = some rr) : AnswerFrom q rr
  | synthesised {zone : Zone} {name owner d cname : Bytes} {r : Record}
      (led : Led T q zone name owner) (above : Above d name) (returned : Returned T zone d r)
      (type : typeCode r.type = typeDNAME)
      (packed : packName [] (Handler.substitute name d r) = .ok cname) :
      AnswerFrom q
        { name := owner, type := typeCNAME, cls := classIN, ttl := r.ttl.toUInt32, rdata := cname }
  | soa {zone : Zone} {owner : Bytes} {rr : RR} (led : Led T q zone zone.name owner)
      (sent : soaRR zone = .ok rr) (asked : q.type = typeSOA ∨ q.type = typeANY) : AnswerFrom q rr

/-- What a record of the authority section can be. -/
inductive AuthorityFrom (q : Question) : RR → Prop where
  | cut {zone : Zone} {name owner d : Bytes} {r : Record} {rr : RR} (led : Led T q zone name owner)
      (covers : d = name ∨ Above d name) (below : d ≠ zone.name) (returned : Returned T zone d r)
      (type : typeCode r.type = typeNS) (sent : rrOf d r = some rr) : AuthorityFrom q rr
  | soa {zone : Zone} {name owner : Bytes} {rr : RR} (led : Led T q zone name owner)
      (sent : soaRR zone = .ok rr) : AuthorityFrom q rr

/-- A record whose name gets addresses: of the type that was asked for, or of a delegation. -/
def Points (q : Question) (zone : Zone) (name : Bytes) (r : Record) : Prop :=
  ∃ n, Returned T zone n r ∧
    (StandsFor n name ∧ typeCode r.type = q.type ∨
      (n = name ∨ Above n name) ∧ n ≠ zone.name ∧ typeCode r.type = typeNS)

/-- What a record of the additional section can be: the address of a name in the zone that a
record of it points to. -/
inductive AdditionalFrom (q : Question) : RR → Prop where
  | glue {zone : Zone} {name owner : Bytes} {r a : Record} {set : NameSet} {rr : RR}
      (led : Led T q zone name owner) (points : Points T q zone name r)
      (inside : inZone (pointed r) zone.name = true)
      (looked : (⟨.lookupGlue zone.name (pointed r), .ok set⟩ : Event Call.Answer) ∈ T)
      (stored : a ∈ set.records) (address : a.type = ascii "A" ∨ a.type = ascii "AAAA")
      (sent : rrOf (pointed r) a = some rr) : AdditionalFrom q rr

/-- All of a response has its source in the events. -/
structure Sourced (q : Question) (m : Message) : Prop where
  answers : ∀ rr ∈ m.answers, AnswerFrom T q rr
  authority : ∀ rr ∈ m.authority, AuthorityFrom T q rr
  additional : ∀ rr ∈ m.additional, AdditionalFrom T q rr

/-- What is looked up has its source in the events. -/
structure MatchFrom (zone : Zone) (name : Bytes) (m : Handler.Match) : Prop where
  records : ∀ r ∈ m.records, ∃ n, StandsFor n name ∧ Returned T zone n r
  cut : ∀ r ∈ m.cut, Returned T zone m.cutName r ∧ typeCode r.type = typeNS ∧
    (m.cutName = name ∨ Above m.cutName name) ∧ m.cutName ≠ zone.name
  dname : ∀ r, m.dname = some r → Returned T zone m.dnameAt r ∧ typeCode r.type = typeDNAME ∧
    Above m.dnameAt name

end Sources

variable {T : List (Event Call.Answer)} {zone : Zone} {name owner : Bytes} {q : Question}
  {resp : Message}

/-! ## Names -/

variable {e : Bytes} {records : List Record} {rrs : List RR}

theorem above_of_indexByte {i : Nat} (here : indexByte e dot = some i) :
    Above (e.drop (i + 1)) e := by
  obtain ⟨inside, found, -⟩ := List.findIdx?_eq_some_iff_getElem.mp here
  have first : e[i] = dot := of_decide_eq_true found
  have split : e.drop i = dot :: e.drop (i + 1) := by rw [List.drop_eq_getElem_cons inside, first]
  rw [Above, ← split]
  exact List.drop_suffix i e

theorem Above.trans {d : Bytes} (first : Above d e) (second : e = name ∨ Above e name) :
    Above d name := by
  rcases second with rfl | second
  · exact first
  · exact List.IsSuffix.trans first ((List.suffix_cons dot e).trans second)

/-! ## Sections -/

theorem mem_foldl_appendRR {rr : RR}
    (member : rr ∈ records.foldl (fun rrs r => appendRR rrs owner r) rrs) :
    rr ∈ rrs ∨ ∃ r ∈ records, rrOf owner r = some rr := by
  rw [foldl_appendRR] at member
  exact (List.mem_append.mp member).imp_right List.mem_filterMap.mp

theorem mem_appendSet {h : Handler} {i : Nat} {rr : RR}
    (member : rr ∈ h.appendSet i rrs owner records) :
    rr ∈ rrs ∨ ∃ r ∈ records, rrOf owner r = some rr := by
  obtain ⟨start, appended⟩ := h.appendSet_eq i rrs owner records
  rw [appended] at member
  refine (List.mem_append.mp member).imp_right fun inside => ?_
  obtain ⟨r, rotated, sent⟩ := List.mem_filterMap.mp inside
  exact ⟨r, List.mem_rotate.mp rotated, sent⟩

theorem type_of_mem_filterType {rtype : UInt16} {r : Record}
    (member : r ∈ filterType records rtype) :
    r ∈ records ∧ typeCode r.type = rtype := by
  have both := List.mem_filter.mp member
  exact ⟨both.1, of_decide_eq_true both.2⟩

namespace Sourced

theorem setRcode (sourced : Sourced T q resp) (rcode : UInt16) :
    Sourced T q (resp.setRcode rcode) :=
  ⟨sourced.answers, sourced.authority, sourced.additional⟩

theorem append_answers (sourced : Sourced T q resp)
    (more : ∀ rr ∈ rrs, rr ∈ resp.answers ∨ AnswerFrom T q rr) :
    Sourced T q { resp with answers := rrs } :=
  ⟨fun rr member => (more rr member).elim (sourced.answers rr) id, sourced.authority,
    sourced.additional⟩

theorem append_authority (sourced : Sourced T q resp)
    (more : ∀ rr ∈ rrs, rr ∈ resp.authority ∨ AuthorityFrom T q rr) :
    Sourced T q { resp with authority := rrs } :=
  ⟨sourced.answers, fun rr member => (more rr member).elim (sourced.authority rr) id,
    sourced.additional⟩

/-- The records of a name are answers for it. -/
theorem appendSet (sourced : Sourced T q resp) (led : Led T q zone name owner) {h : Handler}
    {i : Nat} (from_ : ∀ r ∈ records, ∃ n, StandsFor n name ∧ Returned T zone n r)
    (asked : ∀ r ∈ records,
      typeCode r.type = q.type ∨ typeCode r.type = typeCNAME ∨ q.type = typeANY) :
    Sourced T q { resp with answers := h.appendSet i resp.answers owner records } := by
  refine sourced.append_answers fun rr member => (mem_appendSet member).imp_right ?_
  rintro ⟨r, inside, sent⟩
  obtain ⟨n, standsFor, returned⟩ := from_ r inside
  refine .record led standsFor returned sent ?_
  rw [type_of_rrOf sent]
  exact asked r inside

theorem negative (sourced : Sourced T q resp) (led : Led T q zone name owner) (exists_ : Bool) :
    Sourced T q (DNS.negative resp zone exists_) := by
  have coded : Sourced T q (if exists_ then resp else resp.setRcode rcodeNXDomain) := by
    cases exists_ with
    | true => exact sourced
    | false => exact sourced.setRcode _
  unfold DNS.negative
  dsimp only
  split
  · rename_i soa made
    refine coded.append_authority fun rr member =>
      (List.mem_append.mp member).imp_right fun last => ?_
    have ttl : soa.ttl = zone.minTTL.toUInt32 := by
      unfold soaRR at made
      dsimp only at made
      cases built : buildSOA zone.primaryNS (replaceFirst zone.adminEmail 64 dot)
        (UInt32.ofInt zone.serial)
        zone.refresh.toUInt32 zone.retry.toUInt32 zone.expire.toUInt32 zone.minTTL.toUInt32 with
      | error e => rw [built] at made; cases made
      | ok rdata => rw [built] at made; cases made; rfl
    rw [List.mem_singleton.mp last, ttl, if_neg (UInt32.lt_irrefl _)]
    exact .soa led made
  · exact coded

end Sourced

namespace Calls

open Handler (Match Step ResolveError)

variable {h : Handler} {i : Nat} {m : Match}

/-! ## Lookup -/

theorem assuming_lookupName (zone : Zone) (n : Bytes) :
    (lookupName zone.name n).Assuming (· ∈ T) fun answer => ∀ set, answer = .ok set →
      ∀ r ∈ set.records, Returned T zone n r := by
  refine Assuming.call (q := Call.lookupName zone.name n) fun answer known set ok r member => ?_
  subst ok
  exact ⟨set, known, member⟩

theorem assuming_lookupGlue (zone : Zone) (n : Bytes) :
    (lookupGlue zone.name n).Assuming (· ∈ T) fun answer => ∀ set, answer = .ok set →
      (⟨.lookupGlue zone.name n, .ok set⟩ : Event Call.Answer) ∈ T := by
  refine Assuming.call (q := Call.lookupGlue zone.name n) fun answer known set ok => ?_
  subst ok
  exact known

theorem assuming_findZone (n : Bytes) :
    (findZone n).Assuming (· ∈ T) fun answer => ∀ zone, answer = .ok zone → Found T n zone := by
  refine Assuming.call (q := Call.findZone n) fun answer known zone ok => ?_
  subst ok
  exact known

/-- What the climb ends with has a source: a match, or the name it ended at. -/
structure ClimbFrom (T : List (Event Call.Answer)) (zone : Zone) (name : Bytes)
    (result : Except StoreError (Match ⊕ Bytes)) : Prop where
  found : ∀ m, result = .ok (.inl m) → MatchFrom T zone name m
  ended : ∀ e, result = .ok (.inr e) → e = name ∨ Above e name

theorem climbFrom_ended (place : e = name ∨ Above e name) :
    ClimbFrom T zone name (.ok (.inr e)) where
  found := nofun
  ended e' eq := by
    cases eq
    exact place

theorem climbFrom_found {m : Match} (source : MatchFrom T zone name m) :
    ClimbFrom T zone name (.ok (.inl m)) where
  found m' eq := by
    cases eq
    exact source
  ended := nofun

theorem assuming_encloserLoop {fuel : Nat} (start : e = name ∨ Above e name) :
    (encloserLoop zone fuel e).Assuming (· ∈ T) (ClimbFrom T zone name) := by
  induction fuel generalizing e with
  | zero => exact .pure (climbFrom_ended start)
  | succ fuel ih =>
      unfold encloserLoop
      split
      · exact .pure (climbFrom_ended start)
      · split
        · exact .pure (climbFrom_ended start)
        · rename_i i here
          have above : Above (e.drop (i + 1)) name := (above_of_indexByte here).trans start
          refine (assuming_lookupName zone _).bind fun answer returned => ?_
          cases answer with
          | error err => exact .pure ⟨nofun, nofun⟩
          | ok set =>
              have source := returned set rfl
              dsimp only
              split
              · rename_i cut
                refine .pure (climbFrom_found ⟨List.forall_mem_nil _, fun r member => ?_, nofun⟩)
                obtain ⟨stored, type⟩ := type_of_mem_filterType member
                exact ⟨source r stored, type, .inr above, cut.1⟩
              · split
                · rename_i dname head
                  split
                  · refine .pure (climbFrom_found ⟨List.forall_mem_nil _,
                      List.forall_mem_nil _, fun r eq => ?_⟩)
                    cases eq
                    obtain ⟨stored, type⟩ := type_of_mem_filterType (List.mem_of_mem_head? head)
                    exact ⟨source dname stored, type, above⟩
                  · exact .pure (climbFrom_ended (.inr above))
                · split
                  · exact .pure (climbFrom_ended (.inr above))
                  · exact ih (.inr above)

/-- **What `lookup` finds was returned for the name, above it or for a wildcard.** -/
theorem assuming_lookup (qtype : UInt16) : (lookup zone name qtype).Assuming (· ∈ T) fun result =>
    ∀ m, result = .ok m → MatchFrom T zone name m := by
  have made : ∀ {m : Match}, MatchFrom T zone name m →
      ∀ m', (.ok m : Except StoreError Match) = .ok m' → MatchFrom T zone name m' := by
    intro m source m' eq
    cases eq
    exact source
  refine (assuming_lookupName zone name).bind fun answer returned => ?_
  cases answer with
  | error e => exact .pure nofun
  | ok set =>
      have source := returned set rfl
      dsimp only
      split
      · split
        · rename_i cut
          refine .pure (made ⟨nofun, fun r member => ?_, nofun⟩)
          obtain ⟨stored, type⟩ := type_of_mem_filterType member
          exact ⟨source r stored, type, .inl rfl, cut.1⟩
        · exact .pure (made ⟨fun r member => ⟨name, .inl rfl, source r member⟩, nofun, nofun⟩)
      · split
        · exact .pure (made ⟨List.forall_mem_nil _, List.forall_mem_nil _, nofun⟩)
        · refine (assuming_encloserLoop (.inl rfl)).bind fun result known => ?_
          cases result with
          | error e => exact .pure nofun
          | ok result =>
              cases result with
              | inl m => exact .pure (made (known.1 m rfl))
              | inr e =>
                  refine (assuming_lookupName zone _).bind fun answer returned => ?_
                  cases answer with
                  | error err => exact .pure nofun
                  | ok wild =>
                      have source := returned wild rfl
                      dsimp only
                      split
                      · refine .pure (made ⟨fun r member => ?_, List.forall_mem_nil _, nofun⟩)
                        exact ⟨_, .inr ⟨e, rfl, known.2 e rfl⟩, source r member⟩
                      · exact .pure (made ⟨List.forall_mem_nil _, List.forall_mem_nil _, nofun⟩)

/-! ## Additional records -/

theorem assuming_addGlueLoop {seen : List Bytes} {additional : List RR}
    (led : Led T q zone name owner) (from_ : ∀ r ∈ records, Points T q zone name r)
    (start : ∀ rr ∈ additional, AdditionalFrom T q rr) :
    (addGlueLoop zone records seen additional).Assuming (· ∈ T) fun rrs =>
      ∀ rr ∈ rrs, AdditionalFrom T q rr := by
  induction records generalizing seen additional with
  | nil => exact .pure start
  | cons r records ih =>
      rw [List.forall_mem_cons] at from_
      obtain ⟨points, rest⟩ := from_
      unfold addGlueLoop
      dsimp only
      split
      · exact .pure start
      · split
        · exact ih rest start
        · rename_i inside
          split
          · exact ih rest start
          · refine Assuming.bind (assuming_lookupGlue zone (pointed r)) fun answer known => ?_
            cases answer with
            | error e => exact ih rest start
            | ok set =>
                refine ih rest fun rr member => ?_
                rcases mem_foldl_appendRR member with old | ⟨a, address, sent⟩
                · exact start rr old
                · obtain ⟨stored, type⟩ := List.mem_filter.mp address
                  refine .glue led points ?_ (known set rfl) stored (of_decide_eq_true type) sent
                  exact not_not.mp (not_or.mp inside).2

theorem assuming_addGlue (sourced : Sourced T q resp) (led : Led T q zone name owner)
    (from_ : ∀ r ∈ records, Points T q zone name r) :
    (addGlue resp zone records).Assuming (· ∈ T) (Sourced T q) :=
  (assuming_addGlueLoop led from_ sourced.additional).bind fun _ more =>
    .pure ⟨sourced.answers, sourced.authority, more⟩

theorem assuming_addAdditional (qtype : UInt16) (sourced : Sourced T q resp)
    (led : Led T q zone name owner) (from_ : ∀ r ∈ records, Points T q zone name r) :
    (addAdditional resp zone qtype records).Assuming (· ∈ T) (Sourced T q) := by
  unfold addAdditional
  split
  · exact assuming_addGlue sourced led from_
  · exact .pure sourced

/-! ## A pass -/

/-- A pass leaves a response with its sources, and goes on with a name that the question is led
to. -/
def Onward (T : List (Event Call.Answer)) (q : Question) (result : Message × Step) : Prop :=
  Sourced T q result.1 ∧ ∀ zone name owner, result.2 = .next zone name owner →
    Led T q zone name owner

theorem assuming_redirect (target : Bytes) : (redirect target).Assuming (· ∈ T) fun step =>
    ∀ zone name owner, step = .next zone name owner →
      Found T target zone ∧ name = target ∧ owner = target := by
  have found : (zoneFor target).Assuming (· ∈ T) fun result =>
      ∀ zone, result = .ok (some zone) → Found T target zone := by
    refine (assuming_findZone target).bind fun answer known => ?_
    cases answer with
    | error e => cases e <;> exact .pure nofun
    | ok zone =>
        refine .pure fun zone' eq => ?_
        cases eq
        exact known zone rfl
  refine found.bind fun result known => ?_
  cases result with
  | error e => exact .pure nofun
  | ok result =>
      cases result with
      | none => exact .pure nofun
      | some zone =>
          refine .pure fun zone' name owner eq => ?_
          cases eq
          exact ⟨known zone rfl, rfl, rfl⟩

theorem assuming_referral (sourced : Sourced T q resp) (led : Led T q zone name owner)
    (source : MatchFrom T zone name m) :
    (referral resp zone m).Assuming (· ∈ T) (Sourced T q) := by
  have cleared : Sourced T q resp.clearAA :=
    ⟨sourced.answers, sourced.authority, sourced.additional⟩
  refine assuming_addGlue (cleared.append_authority fun rr member => ?_) led fun r member => ?_
  · refine (mem_foldl_appendRR member).imp_right ?_
    rintro ⟨r, inside, sent⟩
    obtain ⟨returned, type, covers, below⟩ := source.cut r inside
    exact .cut led covers below returned type sent
  · obtain ⟨returned, type, covers, below⟩ := source.cut r member
    exact ⟨m.cutName, returned, .inr ⟨covers, below, type⟩⟩

theorem assuming_followDNAME {d : Bytes} {r : Record} (sourced : Sourced T q resp)
    (led : Led T q zone name owner) (returned : Returned T zone d r)
    (type : typeCode r.type = typeDNAME) (above : Above d name) :
    (followDNAME resp name owner d r).Assuming (· ∈ T) (Onward T q) := by
  have appended : Sourced T q { resp with answers := appendRR resp.answers d r } := by
    refine sourced.append_answers fun rr member => ?_
    rw [appendRR_eq] at member
    refine (List.mem_append.mp member).imp_right fun last => ?_
    exact .dname led above returned type (Option.mem_toList.mp last)
  unfold followDNAME
  dsimp only
  split
  · exact .pure ⟨appended, nofun⟩
  · split
    · exact .pure ⟨appended.setRcode _, nofun⟩
    · split
      · exact .pure ⟨appended, nofun⟩
      · rename_i cname packed
        refine (assuming_redirect _).bind fun step onward => .pure ⟨?_, ?_⟩
        · refine appended.append_answers fun rr member => ?_
          refine (List.mem_append.mp member).imp_right fun last => ?_
          rw [List.mem_singleton.mp last]
          exact .synthesised led above returned type packed
        · intro zone' name' owner' next
          obtain ⟨found, rfl, rfl⟩ := onward zone' name' owner' next
          exact .dname led above returned type found

theorem assuming_followCNAME {n : Bytes} {cname : Record} {cnames : List Record}
    (sourced :
      Sourced T q { resp with answers := h.appendSet i resp.answers owner (cname :: cnames) })
    (led : Led T q zone name owner) (standsFor : StandsFor n name)
    (returned : Returned T zone n cname) (type : typeCode cname.type = typeCNAME) :
    (followCNAME h i resp owner cname cnames).Assuming (· ∈ T) (Onward T q) := by
  have target : toLower (rdataNames typeCNAME ((wireOf cname).getD [])) = pointed cname := by
    rw [pointed, type]
  unfold followCNAME
  dsimp only
  rw [target]
  split
  · exact .pure ⟨sourced, nofun⟩
  · refine (assuming_redirect _).bind fun step onward => .pure ⟨sourced, ?_⟩
    intro zone' name' owner' next
    obtain ⟨found, rfl, rfl⟩ := onward zone' name' owner' next
    exact .cname led standsFor returned type found

theorem sourced_answerANY (any : q.type = typeANY) (sourced : Sourced T q resp)
    (led : Led T q zone name owner) (source : MatchFrom T zone name m) :
    Sourced T q (h.answerANY i resp zone name owner m) := by
  have apex : Sourced T q { resp with
      answers := resp.answers ++ if name =
        zone.name then (soaRR zone).toOption.toList else [] } := by
    refine sourced.append_answers fun rr member => (List.mem_append.mp member).imp_right ?_
    intro last
    split at last
    · rename_i here
      refine .soa (here ▸ led) ?_ (.inr any)
      cases made : soaRR zone with
      | error e => rw [made] at last; cases last
      | ok soa =>
          rw [made] at last
          rw [List.mem_singleton.mp last]
    · cases last
  have all : Sourced T q { resp with answers := h.anyAnswers i resp zone name owner m } :=
    apex.appendSet led source.records fun _ _ => .inr (.inr any)
  rw [Handler.answerANY_eq]
  dsimp only
  split
  · exact all.negative led _
  · exact all

theorem assuming_answer (sourced : Sourced T q resp) (led : Led T q zone name owner)
    (source : MatchFrom T zone name m) :
    (answer h i resp zone name owner q.type m).Assuming (· ∈ T) (Onward T q) := by
  have typed : ∀ {t : UInt16}, ∀ r ∈ filterType m.records t,
      (∃ n, StandsFor n name ∧ Returned T zone n r) ∧ typeCode r.type = t := by
    intro t r member
    obtain ⟨stored, type⟩ := type_of_mem_filterType member
    exact ⟨source.records r stored, type⟩
  unfold answer
  dsimp only
  split
  · rename_i any
    exact .pure ⟨sourced_answerANY any sourced led source, nofun⟩
  · split
    · rename_i apex
      split
      · exact .pure ⟨sourced, nofun⟩
      · rename_i soa made
        refine .pure ⟨sourced.append_answers fun rr member => ?_, nofun⟩
        refine (List.mem_append.mp member).imp_right fun last => ?_
        rw [List.mem_singleton.mp last]
        exact .soa (of_decide_eq_true apex.1 ▸ led) made (.inl apex.2)
    · split
      · rename_i r matched records
        rw [← records]
        have set := sourced.appendSet (h := h) (i := i) led (fun r member => (typed r member).1)
          fun r member => .inl (typed r member).2
        refine (assuming_addAdditional _ set led fun r member => ?_).bind fun _ more =>
          .pure ⟨more, nofun⟩
        obtain ⟨⟨n, standsFor, returned⟩, type⟩ := typed r member
        exact ⟨n, returned, .inl ⟨standsFor, type⟩⟩
      · split
        · rename_i cname cnames records
          split at records
          · cases records
          · have set := sourced.appendSet (h := h) (i := i) led
              (fun r member => (typed r member).1) fun r member => .inr (.inl (typed r member).2)
            obtain ⟨⟨n, standsFor, returned⟩, type⟩ :=
              typed cname (records ▸ List.mem_cons_self)
            rw [records] at set
            exact assuming_followCNAME set led standsFor returned type
        · exact .pure ⟨sourced.negative led _, nofun⟩

theorem assuming_hop (sourced : Sourced T q resp) (led : Led T q zone name owner) :
    (hop h i resp zone name owner q.type).Assuming (· ∈ T) (Onward T q) := by
  refine (assuming_lookup q.type).bind fun result known => ?_
  cases result with
  | error e => exact .pure ⟨sourced, nofun⟩
  | ok m =>
      have source := known m rfl
      dsimp only
      split
      · exact (assuming_referral sourced led source).bind fun _ more => .pure ⟨more, nofun⟩
      · split
        · rename_i r dname
          obtain ⟨returned, type, above⟩ := source.dname r dname
          exact assuming_followDNAME sourced led returned type above
        · exact assuming_answer sourced led source

/-- **Any number of passes adds what the resolver returned.** -/
theorem assuming_resolveLoop (left : Nat) (sourced : Sourced T q resp)
    (led : Led T q zone name owner) :
    (resolveLoop h q.type left resp zone name owner).Assuming (· ∈ T) fun result =>
      Sourced T q result.1 := by
  induction left generalizing resp zone name owner with
  | zero => exact .pure sourced
  | succ left ih =>
      refine (assuming_hop sourced led).bind fun result known => ?_
      obtain ⟨resp', step⟩ := result
      cases step with
      | failed e => exact .pure known.1
      | done => exact .pure known.1
      | next zone' name' owner' => exact ih known.1 (known.2 zone' name' owner' rfl)

/-! ## Requests -/

theorem assuming_handleQuestion (sourced : Sourced T q resp) :
    (handleQuestion h resp q).Assuming (· ∈ T) (Sourced T q) := by
  unfold handleQuestion
  dsimp only
  split
  · exact .pure (sourced.setRcode _)
  · refine (assuming_findZone _).bind fun answer known => ?_
    cases answer with
    | error e => cases e <;> exact .pure (sourced.setRcode _)
    | ok zone =>
        have authoritative : Sourced T q resp.setAA :=
          ⟨sourced.answers, sourced.authority, sourced.additional⟩
        have passes := assuming_resolveLoop (h := h) (maxChain + 1) authoritative
          (.asked (known zone rfl))
        refine passes.bind fun result more => ?_
        obtain ⟨resp', error⟩ := result
        cases error with
        | some e => exact .pure ⟨nofun, nofun, nofun⟩
        | none => exact .pure more

end Calls

theorem sourced_newResponse (T : List (Event Call.Answer)) (q : Question) (req : Message) :
    Sourced T q (Message.newResponse req) := by
  obtain ⟨answers, authority, additional⟩ := Message.sections_newResponse req
  exact ⟨answers ▸ nofun, authority ▸ nofun, additional ▸ nofun⟩

/-- **Every record of a response was returned by the resolver while this request was handled**, for
a name that its question is led to, or is made of a zone or a DNAME record that was. -/
theorem handle_sourced {h : Handler} {req resp : Message} {trace : List (Event Call.Answer)}
    (run : (Calls.handle h req).Runs trace resp) :
    (∀ rr ∈ resp.answers, ∃ q, req.questions = [q] ∧ AnswerFrom trace q rr) ∧
      (∀ rr ∈ resp.authority, ∃ q, req.questions = [q] ∧ AuthorityFrom trace q rr) ∧
      ∀ rr ∈ resp.additional, ∃ q, req.questions = [q] ∧ AdditionalFrom trace q rr := by
  have all : (Calls.handle h req).Assuming (· ∈ trace) fun resp =>
      (∃ q, req.questions = [q] ∧ Sourced trace q resp) ∨
        resp.answers = [] ∧ resp.authority = [] ∧ resp.additional = [] := by
    have empty := Message.sections_newResponse req
    unfold Calls.handle
    dsimp only
    split
    · exact .pure (.inr empty)
    · split
      · rename_i q single
        have start := sourced_newResponse trace q req
        split
        · exact .pure (.inr empty)
        · split
          · exact .pure (.inr empty)
          · split
            · exact .pure (.inr empty)
            · intro trace' resp run known
              exact .inl ⟨q, single, Calls.assuming_handleQuestion start run known⟩
      · exact .pure (.inr empty)
  rcases all run fun _ member => member with ⟨q, single, sourced⟩ | ⟨answers, authority, additional⟩
  · exact ⟨fun rr member => ⟨q, single, sourced.answers rr member⟩,
      fun rr member => ⟨q, single, sourced.authority rr member⟩,
      fun rr member => ⟨q, single, sourced.additional rr member⟩⟩
  · rw [answers, authority, additional]
    exact ⟨List.forall_mem_nil _, List.forall_mem_nil _, List.forall_mem_nil _⟩

/-- A resolver with one zone `a`, whose names all have the address 192.0.2.1. -/
def oneAddress : Handler where
  resolver :=
    { findZone := fun _ => .ok (.plain (ascii "a"))
      lookupName := fun zone name =>
        .ok
          { records :=
              [{ zone := zone, name := name, type := ascii "A", ttl := 60
                 rdata := ascii "192.0.2.1" }] } }
  rotate := fun _ => 0

/-- A query for the address of `B.a`. -/
def addressQuery : Message :=
  { id := 7, flags := 0, questions := [{ name := ascii "B.a", type := 1, cls := 1 }] }

theorem handle_sourced_addressQuery :
    ∃ trace resp, (Calls.handle oneAddress addressQuery).Runs trace resp ∧
      resp.answers =
        [{ name := ascii "B.a", type := 1, cls := 1, ttl := 60, rdata := [192, 0, 2, 1] }] ∧
      (∀ rr ∈ resp.answers, ∃ q, addressQuery.questions = [q] ∧ AnswerFrom trace q rr) ∧
      (∀ rr ∈ resp.authority, ∃ q, addressQuery.questions = [q] ∧ AuthorityFrom trace q rr) ∧
      ∀ rr ∈ resp.additional, ∃ q, addressQuery.questions = [q] ∧ AdditionalFrom trace q rr := by
  obtain ⟨trace, run⟩ :=
    @runs_answer _ _ _ (Calls.service oneAddress) (Calls.handle oneAddress addressQuery)
  refine ⟨trace, _, run, ?_, handle_sourced run⟩
  rw [Calls.answer_handle]
  decide +kernel

end ShardDNS.DNS

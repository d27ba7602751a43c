import ShardDNS.DNS.Chains

/-!
# Negative answers

A question is resolved along redirections (`Redirected`) to a last name, in its zone.
When that name contributes neither a record of the type asked nor a redirection
(`Contributes`), the response has to deny: the SOA record of the last zone as
authority, and NXDOMAIN exactly when the last name is absent from that zone
(`NegativeLaw`).

The passes before the last touch only the answers (`resolveLoop_of_leads`), so
the last one decides (`concludes_hop`). It denies unless it takes one of its other
exits, and it takes some of them with nothing to contribute (`Withheld`): for a
question of type ANY whenever redirections led to the last name, and for records
that are there but have no RDATA to send. Those are the only exceptions
(`handle_negativeLaw_iff`).
-/

set_option autoImplicit false

namespace ShardDNS.DNS

open Go LabelTree Store

/-- The name is absent from the zone: it is not the apex, it does not exist, and no
wildcard stands under its closest encloser. -/
def Absent (db : Database) (zone name : Bytes) : Prop :=
  ¬ Encloses db zone name ∧
    ∀ encloser, IsClosestEncloser db zone name encloser →
      ¬ db.Owns zone (ascii "*." ++ encloser)

namespace Handler

/-! ## What the last name contributes -/

/-- A record of the type asked is sent for the name. -/
def SendsRecord (qtype : UInt16) (zone : Zone) (name : Bytes) (m : Match) : Prop :=
  (name = zone.name ∧ (qtype = typeSOA ∨ qtype = typeANY)) ∨
    ∃ r ∈ m.records, (qtype = typeANY ∨ typeCode r.type = qtype) ∧ Servable r

/-- A redirection is sent for the name: the DNAME above it, or a CNAME where the
question is not answered. -/
def SendsRedirection (qtype : UInt16) (zone : Zone) (name : Bytes) (m : Match) : Prop :=
  (∃ dname, m.dname = some dname ∧ Servable dname) ∨
    (¬ AnswersHere qtype zone name m ∧ ∃ r ∈ filterType m.records typeCNAME, Servable r)

/-- The name contributes to the answers. -/
def Contributes (qtype : UInt16) (zone : Zone) (name : Bytes) (m : Match) : Prop :=
  SendsRecord qtype zone name m ∨ SendsRedirection qtype zone name m

/-- The exits taken without looking at what was sent: under a DNAME, for type ANY
after a redirection, and where records of the type asked or CNAME records are
stored. -/
def Withheld (qtype : UInt16) (k : Nat) (m : Match) : Prop :=
  m.dname ≠ none ∨ (qtype = typeANY ∧ k ≠ 0) ∨
    (qtype ≠ typeANY ∧
      (filterType m.records qtype ≠ [] ∨
        (qtype ≠ typeCNAME ∧ filterType m.records typeCNAME ≠ [])))

/-- The law of negative answers, for a response that ends at a name. -/
structure NegativeLaw (db : Database) (qtype : UInt16) (zone : Zone) (name : Bytes) (m : Match)
    (soa : RR) (resp : Message) : Prop where
  soa : ¬ Contributes qtype zone name m → soa ∈ resp.authority
  absent : ¬ Contributes qtype zone name m → Absent db zone.name name →
    resp.rcode = rcodeNXDomain
  otherwise : Contributes qtype zone name m ∨ ¬ Absent db zone.name name →
    resp.rcode = rcodeNoError

section Content

variable {db : Database} {encode : Option Encoder} {zone name : Bytes} {qtype : UInt16} {m : Match}

/-- A name the zone finds, or its apex, is one that is not absent. -/
theorem found_iff (told : ZoneSays db encode zone name qtype m) (uncut : m.cut = [])
    (plain : m.dname = none) :
    (m.found || decide (name = zone)) = true ↔ ¬ Absent db zone name := by
  have enclosed : Encloses db zone name → ¬ Absent db zone name := fun encloses absent =>
    absent.1 encloses
  cases told with
  | delegated _ _ delegates => exact absurd uncut (typedAt_ne_nil_iff.mpr delegates)
  | belowCut _ _ _ delegates => exact absurd uncut (typedAt_ne_nil_iff.mpr delegates)
  | existing owned => simpa using enclosed (.inr (.inl owned))
  | bare _ found => simpa using enclosed found
  | belowDNAME => cases plain
  | wildcard _ closest _ wild =>
      simpa using fun absent : Absent db zone name => absent.2 _ closest wild
  | nonexistent missing tame =>
      have absent : Absent db zone name :=
        ⟨missing, fun encloser closest => (tame encloser closest).2⟩
      have below : name ≠ zone := fun same => missing (.inl same)
      simp [absent, below]

/-- Records are held only by names that are found. -/
theorem found_of_records (told : ZoneSays db encode zone name qtype m) (held : m.records ≠ []) :
    m.found = true := by
  cases told with
  | existing | wildcard => rfl
  | delegated | bare | belowCut | belowDNAME | nonexistent => exact absurd rfl held

end Content

/-! ## Redirections -/

/-- The content leads a question of this type from a name, in its zone, to another in
`k` redirections. -/
inductive Redirected (db : Database) (encode : Option Encoder) (qtype : UInt16) :
    Nat → Zone → Bytes → Zone → Bytes → Prop where
  | here (zone : Zone) (name : Bytes) : Redirected db encode qtype 0 zone name zone name
  | step {k : Nat} {zone zone' last : Zone} {name next lastName : Bytes} {m : Match} :
      ZoneSays db encode zone.name name qtype m → m.cut = [] →
        target qtype zone name m = some next → db.findZone next = .ok zone' →
          Redirected db encode qtype k zone' next last lastName →
            Redirected db encode qtype (k + 1) zone name last lastName

/-- The loop is led where the content leads. -/
theorem Redirected.leads {db : Database} {encode : Option Encoder} {qtype : UInt16} {k : Nat}
    {zone last : Zone} {name lastName : Bytes}
    (redirected : Redirected db encode qtype k zone name last lastName) (rotate : Nat → UInt32) :
    Leads (serving db encode rotate) qtype k zone name last lastName := by
  induction redirected with
  | here zone name => exact .here zone name
  | step told uncut leads served _ ih =>
      exact .next (lookup_of_zoneSays rotate told) uncut leads (by rw [findZone_serving, served]) ih

/-! ## The last pass -/

/-- The pass ended the loop and left rcode and authority alone. -/
structure Keeps (resp : Message) (result : Message × Step) : Prop where
  done : result.2 = .done
  rcode : result.1.rcode = resp.rcode
  authority : result.1.authority = resp.authority

/-- The pass ended the loop with a denial. -/
structure Denies (soa : RR) (absent : Prop) (resp : Message) (result : Message × Step) : Prop where
  done : result.2 = .done
  rcode_absent : absent → result.1.rcode = rcodeNXDomain
  rcode_present : ¬ absent → result.1.rcode = resp.rcode
  authority : result.1.authority = resp.authority ++ [soa]

/-- The pass keeps what there was when it is quiet, and denies otherwise. -/
structure Concludes (soa : RR) (absent quiet : Prop) (resp : Message) (result : Message × Step) :
    Prop where
  keeps : quiet → Keeps resp result
  denies : ¬ quiet → Denies soa absent resp result

theorem Keeps.concludes {soa : RR} {absent quiet : Prop} {resp : Message} {result : Message × Step}
    (kept : Keeps resp result) (holds : quiet) : Concludes soa absent quiet resp result :=
  ⟨fun _ => kept, fun loud => absurd holds loud⟩

theorem Denies.concludes {soa : RR} {absent quiet : Prop} {resp : Message} {result : Message × Step}
    (denied : Denies soa absent resp result) (loud : ¬ quiet) :
    Concludes soa absent quiet resp result :=
  ⟨fun holds => absurd holds loud, fun _ => denied⟩

theorem denies_negative {zone : Zone} {soa : RR} {found : Bool} {absent : Prop}
    (encodable : soaRR zone = .ok soa) (flag : found = true ↔ ¬ absent) (resp : Message) :
    Denies soa absent resp (negative resp zone found, .done) := by
  have clamp : ¬ zone.minTTL.toUInt32 < soa.ttl := by
    rw [soaRR, bind_eq_ok] at encodable
    obtain ⟨rdata, -, built⟩ := encodable
    cases built
    exact UInt32.lt_irrefl _
  refine ⟨rfl, fun gone => ?_, fun present => ?_, ?_⟩
  · have missing : found = false := by
      rw [← Bool.not_eq_true, flag, not_not]
      exact gone
    simp only [negative, encodable, missing]
    exact Message.rcode_setRcode resp rcodeNXDomain
  · simp only [negative, encodable, flag.mpr present]
    rfl
  · simp only [negative, encodable, if_neg clamp]
    cases found <;> rfl

section LastPass

variable {h : Handler} {i : Nat} {resp : Message} {zone : Zone} {name owner : Bytes}
  {qtype : UInt16} {m : Match} {soa : RR} {k : Nat} {absent : Prop}

variable (h i resp name owner m) in
/-- Some record is sent for type ANY exactly when the answers grow. -/
theorem anyAnswers_eq_nil_iff (encodable : soaRR zone = .ok soa) :
    h.anyAnswers i resp zone name owner m = [] ↔
      resp.answers = [] ∧ ¬ SendsRecord typeANY zone name m := by
  obtain ⟨start, appended⟩ := h.appendSet_eq i
    (resp.answers ++ if name = zone.name then (soaRR zone).toOption.toList else []) owner m.records
  rw [anyAnswers, appended, List.append_eq_nil_iff, List.append_eq_nil_iff, and_assoc]
  refine and_congr_right fun _ => ?_
  rw [SendsRecord, not_or]
  refine and_congr ?_ ?_
  · by_cases apex : name = zone.name <;> simp [apex, encodable, Except.toOption]
  · rw [List.filterMap_eq_nil_iff]
    simp [rrOf_eq_none_iff]

theorem concludes_answerANY (encodable : soaRR zone = .ok soa)
    (counts : k = 0 ↔ resp.answers = [])
    (flag : (m.found || decide (name = zone.name)) = true ↔ ¬ absent) :
    Concludes soa absent (SendsRecord typeANY zone name m ∨ k ≠ 0) resp
      (h.answerANY i resp zone name owner m, .done) := by
  have empty : (h.anyAnswers i resp zone name owner m).length = 0 ↔
      ¬ (SendsRecord typeANY zone name m ∨ k ≠ 0) := by
    rw [List.length_eq_zero_iff, anyAnswers_eq_nil_iff _ _ _ _ _ _ encodable, ← counts, not_or,
      not_not, and_comm]
  rw [answerANY_eq]
  dsimp only
  by_cases quiet : SendsRecord typeANY zone name m ∨ k ≠ 0
  · rw [if_neg fun zero => empty.mp zero quiet]
    exact Keeps.concludes ⟨rfl, rfl, rfl⟩ quiet
  · rw [if_pos (empty.mpr quiet)]
    have denied := denies_negative encodable flag
      { resp with answers := h.anyAnswers i resp zone name owner m }
    exact Denies.concludes
      ⟨denied.done, denied.rcode_absent, denied.rcode_present, denied.authority⟩ quiet

theorem keeps_addAdditional (rrs : List RR) (records : List Record) :
    Keeps resp (h.addAdditional { resp with answers := rrs } zone qtype records, .done) := by
  unfold addAdditional
  split <;> exact ⟨rfl, rfl, rfl⟩

theorem keeps_followCNAME {cname : Record} {cnames : List Record}
    (stays : cnameTarget cname = none) :
    Keeps resp (h.followCNAME i resp owner cname cnames) := by
  simp only [cnameTarget, ite_eq_left_iff, reduceCtorEq, imp_false, not_not] at stays
  simp only [followCNAME, if_pos stays]
  exact ⟨rfl, rfl, rfl⟩

/-- The exits of `answer` other than the denial, for the types other than ANY. -/
def HoldsAnswer (qtype : UInt16) (zone : Zone) (name : Bytes) (m : Match) : Prop :=
  (name = zone.name ∧ qtype = typeSOA) ∨ filterType m.records qtype ≠ [] ∨
    (qtype ≠ typeCNAME ∧ filterType m.records typeCNAME ≠ [])

theorem contributes_or_withheld_iff (plain : m.dname = none) (notANY : qtype ≠ typeANY) :
    Contributes qtype zone name m ∨ Withheld qtype k m ↔ HoldsAnswer qtype zone name m := by
  constructor
  · rintro (((⟨apex, type⟩ | ⟨r, member, type, -⟩) | ⟨dname, found, -⟩ |
      ⟨elsewhere, r, member, -⟩) |
      found | ⟨any, -⟩ | ⟨-, stored⟩)
    · exact .inl ⟨apex, type.resolve_right notANY⟩
    · exact .inr (.inl (List.ne_nil_of_mem
        (List.mem_filter.mpr ⟨member, by simpa using type.resolve_left notANY⟩)))
    · rw [plain] at found
      cases found
    · exact .inr (.inr ⟨fun cname => elsewhere (.inr (.inl cname)), List.ne_nil_of_mem member⟩)
    · exact absurd plain found
    · exact absurd any notANY
    · exact .inr stored
  · rintro (⟨apex, type⟩ | stored)
    · exact .inl (.inl (.inl ⟨apex, .inl type⟩))
    · exact .inr (.inr (.inr ⟨notANY, stored⟩))

/-- The exits of `answer` for a type other than ANY that is answered here. -/
theorem concludes_answer_here (encodable : soaRR zone = .ok soa) (notANY : qtype ≠ typeANY)
    (flag : (decide (0 < m.records.length) || m.found || decide (name = zone.name)) = true ↔
      ¬ absent)
    (here : AnswersHere qtype zone name m) :
    Concludes soa absent (HoldsAnswer qtype zone name m) resp
      (h.answer i resp zone name owner qtype m) := by
  rw [answer, if_neg notANY]
  by_cases soaAsked : name = zone.name ∧ qtype = typeSOA
  · rw [if_pos (by simpa using soaAsked), encodable]
    exact Keeps.concludes ⟨rfl, rfl, rfl⟩ (.inl soaAsked)
  · rw [if_neg (by simpa using soaAsked)]
    cases matched : filterType m.records qtype with
    | cons r rest => exact (keeps_addAdditional _ _).concludes (.inr (.inl (by simp [matched])))
    | nil =>
        have type : qtype = typeCNAME := by
          rcases here with any | cname | soa | stored
          · exact absurd any notANY
          · exact cname
          · exact absurd soa soaAsked
          · exact absurd matched stored
        rw [if_pos type]
        refine (denies_negative encodable flag resp).concludes ?_
        rintro (asked | stored | ⟨other, -⟩)
        · exact soaAsked asked
        · exact stored matched
        · exact other type

/-- The exits of `answer` for a type that is not answered here. -/
theorem concludes_answer_elsewhere (encodable : soaRR zone = .ok soa)
    (flag : (decide (0 < m.records.length) || m.found || decide (name = zone.name)) = true ↔
      ¬ absent)
    (elsewhere : ¬ AnswersHere qtype zone name m)
    (stays : (filterType m.records typeCNAME).head?.bind cnameTarget = none) :
    Concludes soa absent (HoldsAnswer qtype zone name m) resp
      (h.answer i resp zone name owner qtype m) := by
  rw [answer_of_elsewhere elsewhere]
  simp only [AnswersHere, not_or, ne_eq, not_not] at elsewhere
  obtain ⟨-, notCNAME, soaUnasked, unmatched⟩ := elsewhere
  cases cnames : filterType m.records typeCNAME with
  | nil =>
      refine (denies_negative encodable flag resp).concludes ?_
      rintro (asked | stored | ⟨-, stored⟩)
      · exact soaUnasked asked
      · exact stored unmatched
      · exact stored cnames
  | cons cname rest =>
      rw [cnames, List.head?_cons, Option.bind_some] at stays
      exact (keeps_followCNAME stays).concludes (.inr (.inr ⟨notCNAME, by simp [cnames]⟩))

/-- The exits of `answer` for the types other than ANY. -/
theorem concludes_answer (encodable : soaRR zone = .ok soa) (notANY : qtype ≠ typeANY)
    (flag : (m.found || decide (name = zone.name)) = true ↔ ¬ absent)
    (held : m.records ≠ [] → m.found = true)
    (stays : AnswersHere qtype zone name m ∨
      (filterType m.records typeCNAME).head?.bind cnameTarget = none) :
    Concludes soa absent (HoldsAnswer qtype zone name m) resp
      (h.answer i resp zone name owner qtype m) := by
  have flag' : (decide (0 < m.records.length) || m.found || decide (name = zone.name)) = true ↔
      ¬ absent := by
    rw [← flag]
    by_cases empty : m.records = []
    · simp [empty]
    · simp [held empty]
  by_cases here : AnswersHere qtype zone name m
  · exact concludes_answer_here encodable notANY flag' here
  · exact concludes_answer_elsewhere encodable flag' here (stays.resolve_left here)

/-- The name that a DNAME substitutes is not longer than the limit of 253 bytes. -/
def SubstitutionFits (name : Bytes) (m : Match) : Prop :=
  ∀ dname, m.dname = some dname → rdataNames typeDNAME ((wireOf dname).getD []) ≠ [] →
    (substitute name m.dnameAt dname).length ≤ 253

/-- A DNAME that leads nowhere ends the loop, and adds to the answers only. -/
theorem keeps_followDNAME {dname : Record} (found : m.dname = some dname)
    (stays : dnameTarget name m.dnameAt dname = none) (fits : SubstitutionFits name m) :
    Keeps resp (h.followDNAME resp name owner m.dnameAt dname) := by
  unfold dnameTarget at stays
  rw [followDNAME_eq]
  by_cases untargeted : rdataNames typeDNAME ((wireOf dname).getD []) = []
  · rw [if_pos untargeted]
    exact ⟨rfl, rfl, rfl⟩
  · have short := Nat.not_lt.mpr (fits dname found untargeted)
    rw [if_neg (not_or.mpr ⟨untargeted, short⟩)] at stays
    rw [if_neg untargeted, if_neg short]
    split at stays
    · cases stays
    · rename_i refused
      rw [refused]
      exact ⟨rfl, rfl, rfl⟩

variable (i resp owner) in
/-- **The last pass denies unless it takes another exit.** -/
theorem concludes_hop {db : Database} {encode : Option Encoder}
    (told : ZoneSays db encode zone.name name qtype m) (uncut : m.cut = [])
    (last : target qtype zone name m = none) (fits : SubstitutionFits name m)
    (encodable : soaRR zone = .ok soa) (counts : k = 0 ↔ resp.answers = [])
    (rotate : Nat → UInt32) :
    Concludes soa (Absent db zone.name name) (Contributes qtype zone name m ∨ Withheld qtype k m)
      resp ((serving db encode rotate).hop i resp zone name owner qtype) := by
  have looked := lookup_of_zoneSays rotate told
  unfold target at last
  cases plain : m.dname with
  | some dname =>
      rw [plain] at last
      rw [hop_of_dname looked uncut plain]
      exact (keeps_followDNAME plain last fits).concludes (.inr (.inl (by simp [plain])))
  | none =>
      rw [plain] at last
      have flag := found_iff told uncut plain
      rw [hop_of_plain looked uncut plain]
      by_cases any : qtype = typeANY
      · have quiet : Contributes qtype zone name m ∨ Withheld qtype k m ↔
            SendsRecord typeANY zone name m ∨ k ≠ 0 := by
          subst any
          simp [Contributes, SendsRedirection, Withheld, AnswersHere, plain]
        rw [quiet, answer, if_pos any]
        exact concludes_answerANY encodable counts flag
      · have stays : AnswersHere qtype zone name m ∨
            (filterType m.records typeCNAME).head?.bind cnameTarget = none := by
          by_cases here : AnswersHere qtype zone name m
          · exact .inl here
          · exact .inr (by simpa [here] using last)
        rw [contributes_or_withheld_iff plain any]
        exact concludes_answer encodable any flag (found_of_records told) stays

theorem Concludes.done {quiet : Prop} {result : Message × Step}
    (concluded : Concludes soa absent quiet resp result) : result.2 = .done := by
  by_cases holds : quiet
  · exact (concluded.keeps holds).done
  · exact (concluded.denies holds).done

/-- The law of negative answers, for a response that was clean before the last pass. -/
theorem Concludes.negativeLaw_iff {db : Database} {result : Message × Step}
    (concluded : Concludes soa (Absent db zone.name name)
      (Contributes qtype zone name m ∨ Withheld qtype k m) resp result)
    (rcode : resp.rcode = rcodeNoError) (authority : resp.authority = []) :
    NegativeLaw db qtype zone name m soa result.1 ↔
      Contributes qtype zone name m ∨ ¬ Withheld qtype k m := by
  by_cases contributes : Contributes qtype zone name m
  · have kept := concluded.keeps (.inl contributes)
    exact iff_of_true ⟨fun nothing => absurd contributes nothing,
      fun nothing => absurd contributes nothing, fun _ => kept.rcode.trans rcode⟩ (.inl contributes)
  · by_cases withheld : Withheld qtype k m
    · refine iff_of_false (fun law => ?_) (fun holds => holds.elim contributes (· withheld))
      have kept := concluded.keeps (.inr withheld)
      have listed := law.soa contributes
      rw [kept.authority, authority] at listed
      cases listed
    · have denied := concluded.denies fun quiet => quiet.elim contributes withheld
      refine iff_of_true ⟨fun _ => ?_, fun _ => denied.rcode_absent, fun present => ?_⟩
        (.inr withheld)
      · rw [denied.authority]
        exact List.mem_append_right _ (List.mem_singleton_self soa)
      · exact (denied.rcode_present (present.resolve_left contributes)).trans rcode

end LastPass

/-- **When negative answers are right.** Let the content lead the question to `name` in
`zone`, in no more redirections than the loop makes, and let nothing lead on from
there: no delegation and no redirection to another served name. The law of negative
answers holds of the response exactly when the name contributes, or else nothing is
withheld there: no DNAME stands above it, no redirection came before if the type is
ANY, and no record of the type asked and no CNAME is stored. -/
theorem handle_negativeLaw_iff (db : Database) (encode : Option Encoder) (rotate : Nat → UInt32)
    (req : Message) (q : Question) (first zone : Zone) (name : Bytes) (k : Nat) (m : Match)
    (soa : RR) (single : req.questions = [q]) (reaches : Reaches req q)
    (served : db.findZone (questionName q.name) = .ok first)
    (redirected : Redirected db encode q.type k first (questionName q.name) zone name)
    (short : k ≤ maxChain) (told : ZoneSays db encode zone.name name q.type m)
    (uncut : m.cut = []) (last : target q.type zone name m = none)
    (fits : SubstitutionFits name m) (encodable : soaRR zone = .ok soa) :
    NegativeLaw db q.type zone name m soa ((serving db encode rotate).handle req) ↔
      Contributes q.type zone name m ∨ ¬ Withheld q.type k m := by
  have found : (serving db encode rotate).resolver.findZone
      (questionName q.name) = .ok first := by rw [findZone_serving, served]
  obtain ⟨added, owner, counts, resolved⟩ := resolveLoop_of_leads (redirected.leads rotate)
    (maxChain - k + 1) (Message.newResponse req).setAA (trimSuffix q.name (ascii "."))
  have passes : maxChain - k + 1 + k = maxChain + 1 := by omega
  have start : (Message.newResponse req).setAA.answers = [] := (Message.sections_newResponse req).1
  have rcode : (Message.newResponse req).setAA.rcode = rcodeNoError := by
    rw [Message.rcode_setAA, Message.rcode_newResponse]
    rfl
  rw [passes, start] at resolved
  have concluded := concludes_hop (maxChain - (maxChain - k))
    { (Message.newResponse req).setAA with answers := [] ++ added } owner
    told uncut last fits encodable counts rotate
  have law := concluded.negativeLaw_iff rcode ((Message.sections_newResponse req).2.1)
  rcases passed : (serving db encode rotate).hop (maxChain - (maxChain - k))
    { (Message.newResponse req).setAA with answers := [] ++ added } zone name owner q.type
    with ⟨resp, step⟩
  rw [passed] at concluded law
  obtain rfl : step = .done := concluded.done
  rwa [handle_of_reaches single reaches found, resolve, resolved, resolveLoop_of_done passed]

/-! ## A DNAME to a name that does not exist -/

/-- The names below `d.a.org` are redirected to names below `e.a.org`. -/
def danglingContent : Database :=
  { bareContent with
    records :=
      [{ id := 1, zone := ascii "a.org", name := ascii "d.a.org"
         nameRev := reverseName (ascii "d.a.org"), type := ascii "DNAME", ttl := 300
         rdata := ascii "e.a.org", reversed := rfl }]
    nextID := 2
    foreignKey := by decide
    idKey := by decide
    idBound := by decide }

/-- A query for `x.d.a.org`. -/
def danglingQuery (qtype : UInt16) : Message :=
  { questions := [{ name := ascii "x.d.a.org", type := qtype, cls := classIN }] }

theorem redirected_dangling {qtype : UInt16} :
    Redirected danglingContent none qtype 1 (Zone.plain (ascii "a.org")) (ascii "x.d.a.org")
      (Zone.plain (ascii "a.org"))
      (ascii "x.e.a.org") := by
  have closest : IsClosestEncloser danglingContent (ascii "a.org") (ascii "x.d.a.org")
      (ascii "d.a.org") := ⟨by decide, by decide, by decide⟩
  refine .step (.belowDNAME (by decide) closest (by decide) (by decide) rfl) rfl ?_ ?_ (.here _ _)
  · dsimp only [target]
    decide +kernel
  · decide +kernel

theorem zoneSays_dangling {qtype : UInt16} :
    ZoneSays danglingContent none (ascii "a.org") (ascii "x.e.a.org") qtype {} := by
  have closest : IsClosestEncloser danglingContent (ascii "a.org") (ascii "x.e.a.org")
      (ascii "a.org") := ⟨by decide, by decide, by decide⟩
  refine .nonexistent (by decide) fun encloser found => ?_
  rw [found.unique closest]
  exact ⟨by decide, by decide⟩

/-- Asked for type ANY, the response to a name that is redirected to an absent one
has no SOA record. -/
theorem anyBehindDNAME_not_denied :
    ∃ soa, soaRR (Zone.plain (ascii "a.org")) = .ok soa ∧
      Redirected danglingContent none typeANY 1 (Zone.plain (ascii "a.org")) (ascii "x.d.a.org")
        (Zone.plain (ascii "a.org"))
        (ascii "x.e.a.org") ∧
      ZoneSays danglingContent none (ascii "a.org") (ascii "x.e.a.org") typeANY {} ∧
      target typeANY (Zone.plain (ascii "a.org")) (ascii "x.e.a.org") {} = none ∧
      ¬ NegativeLaw danglingContent typeANY (Zone.plain (ascii "a.org")) (ascii "x.e.a.org") {} soa
        ((serving danglingContent none fun _ => 0).handle (danglingQuery typeANY)) := by
  obtain ⟨soa, encoded⟩ : ∃ soa, soaRR (Zone.plain (ascii "a.org")) = .ok soa := ⟨_, by rfl⟩
  refine ⟨soa, encoded, redirected_dangling, zoneSays_dangling, by decide, fun law => ?_⟩
  have silent : ¬ Contributes typeANY (Zone.plain (ascii "a.org")) (ascii "x.e.a.org") {} := by
    rintro ((⟨apex, -⟩ | ⟨r, member, -⟩) | ⟨dname, found, -⟩ | ⟨elsewhere, -⟩)
    · exact absurd apex (by decide)
    · cases member
    · cases found
    · exact elsewhere (.inl rfl)
  have bare : ((serving danglingContent none fun _ => 0).handle (danglingQuery typeANY)).authority =
      [] := by decide +kernel
  have listed := law.soa silent
  rw [bare] at listed
  cases listed

/-- Asked for addresses, it is denied. -/
theorem handle_negativeLaw_iff_addresses :
    ∃ soa, soaRR (Zone.plain (ascii "a.org")) = .ok soa ∧
      NegativeLaw danglingContent typeA (Zone.plain (ascii "a.org")) (ascii "x.e.a.org") {} soa
        ((serving danglingContent none fun _ => 0).handle (danglingQuery typeA)) := by
  obtain ⟨soa, encoded⟩ : ∃ soa, soaRR (Zone.plain (ascii "a.org")) = .ok soa := ⟨_, by rfl⟩
  refine ⟨soa, encoded, (handle_negativeLaw_iff danglingContent none (fun _ => 0)
    (danglingQuery typeA) { name := ascii "x.d.a.org", type := typeA, cls := classIN }
    (Zone.plain (ascii "a.org"))
    (Zone.plain (ascii "a.org")) (ascii "x.e.a.org") 1 {} soa rfl (by decide +kernel)
    (by decide +kernel)
    redirected_dangling (by decide) zoneSays_dangling rfl (by decide) ?_ encoded).mpr (.inr ?_)⟩
  · intro dname found
    cases found
  · rintro (found | ⟨any, -⟩ | ⟨-, stored | ⟨-, stored⟩⟩)
    · exact found rfl
    · exact absurd any (by decide)
    · exact stored rfl
    · exact stored rfl

end Handler

end ShardDNS.DNS

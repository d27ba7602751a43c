import ShardDNS.DNS.Repetition

/-!
# The spelling of the question name

A resolver may send its question in mixed case and expect the answers for that name to come
back spelled the same way. `Handle` keeps the spelling of the question as the owner of what
the first pass finds. Two kinds of records do not go by it. The SOA record has the name of the
zone as its owner, which is in lower case where the zone was found for a lower-cased name. And
a name that a redirection leads to is lower-cased, so a chain that comes back to the question
name, or below a DNAME record at it, answers for it in lower case.

An answer keeps the spelling of the question exactly when there is no difference between that
and the lower-cased name, or the content brings neither about (`Respelled`,
`casePreserving_iff`). The SOA question for an apex in upper case is a case where it does not
(`apex_not_casePreserving`).
-/

set_option autoImplicit false

namespace ShardDNS.DNS

open Go Store LabelTree

namespace Handler

/-- Every answer owned by the question name up to ASCII case spells it as the question does. -/
def CasePreserving (h : Handler) (req : Message) : Prop :=
  ∀ q ∈ req.questions, ∀ rr ∈ (h.handle req).answers,
    foldASCII rr.name = foldASCII q.spelled → rr.name = q.spelled

/-- The question name has upper-case letters, and all of them are of ASCII. -/
def MixedCase (q : Question) : Prop :=
  foldASCII q.spelled ≠ q.spelled ∧ foldASCII q.spelled = questionName q.name

/-- The content puts a record under the lower-cased question name: the SOA record of the zone it
is the apex of is asked for, or a redirection leads back to it, or to a name below a DNAME record
of it. -/
inductive Respelled (h : Handler) (q : Question) (zone : Zone) : Prop where
  | apex {soa : RR} (named : questionName q.name = zone.name)
      (asked : q.type = typeANY ∨ q.type = typeSOA) (built : soaRR zone = .ok soa)
  | back {k : Nat} {last : Zone} (later : 0 < k)
      (visits : Visits h q zone k last (questionName q.name))
  | below {k : Nat} {last : Zone} {name : Bytes} {m : Match} {dname : Record} (later : 0 < k)
      (visits : Visits h q zone k last name) (looked : h.lookup last name q.type = .ok m)
      (found : m.dname = some dname) (owned : m.dnameAt = questionName q.name)
      (servable : Servable dname)

variable {h : Handler} {q : Question} {zone : Zone} {k : Nat} {p : Pass} {rr : RR}
  {req : Message}

/-- An ancestor of a name is not the name, in any spelling. -/
theorem foldASCII_ne_of_ancestor {name ancestor : Bytes}
    (above : ancestor ∈ ancestors dot (toLower name)) : foldASCII ancestor ≠ foldASCII name := by
  intro same
  refine toLower_ne_of_mem_ancestors above ?_
  rw [← toLower_foldASCII ancestor, same, toLower_foldASCII]

/-- A lower-cased name that is the question name up to ASCII case is the one looked up. -/
theorem eq_questionName_of_folded {name : Bytes} (lowered : toLower name = name)
    (same : foldASCII name = foldASCII q.spelled) : name = questionName q.name := by
  rw [← lowered, ← toLower_foldASCII, same, toLower_foldASCII]
  rfl

/-- A record owned by the question name that is not spelled like it. -/
structure Misspelled (q : Question) (rr : RR) : Prop where
  same : foldASCII rr.name = foldASCII q.spelled
  other : rr.name ≠ q.spelled

/-- The question of a misspelled record has upper-case letters, and the record is owned by the
name looked up. -/
theorem Misspelled.mixedCase (wrong : Misspelled q rr) (lowered : toLower rr.name = rr.name) :
    MixedCase q ∧ rr.name = questionName q.name := by
  have name := eq_questionName_of_folded lowered wrong.same
  have folded : foldASCII q.spelled = questionName q.name := by
    rw [← wrong.same, name]
    exact foldASCII_eq_of_toLower_eq (name ▸ lowered)
  refine ⟨⟨fun lower => wrong.other ?_, folded⟩, name⟩
  rw [name, ← folded, lower]

/-- The first pass misspells the question name in a SOA record only. -/
theorem respelled_of_first
    (made : (h.passes q.type (maxChain + 1) zone (questionName q.name) q.spelled)[0]? = some p)
    (source : p.Source rr) (wrong : Misspelled q rr) : MixedCase q ∧ Respelled h q zone := by
  obtain ⟨⟨-, led⟩, type, lowered, looked, -, asked⟩ := visits_of_getElem? made
  obtain ⟨owner, name⟩ := asked rfl
  have zones : p.zone = zone := (led.unique (.here _ _)).1
  cases source with
  | dname dname found sent =>
      have above := ((taken_of_lookup looked).dname dname found).1
      rw [name, ← name_of_rrOf sent] at above
      exact absurd wrong.same (foldASCII_ne_of_ancestor above)
  | synthesised dname next found leads same =>
      refine absurd ?_ wrong.other
      rw [same, ← owner]
      rfl
  | soa answers built =>
      obtain ⟨apex, asks, -⟩ := answers
      have named := (Pass.owner_and_type_of_soaRR built).1
      rw [← apex] at named
      rw [← named] at lowered
      rw [type] at asks
      rw [zones] at built apex
      exact ⟨(wrong.mixedCase lowered).1, .apex (name ▸ apex) asks built⟩
  | stored member =>
      obtain ⟨r, -, sent⟩ := List.mem_filterMap.mp member
      exact absurd ((name_of_rrOf sent).trans owner) wrong.other

/-- A later pass misspells it when it is back at the name, or below a DNAME record of it. -/
theorem respelled_of_later (later : 0 < k)
    (made : (h.passes q.type (maxChain + 1) zone (questionName q.name) q.spelled)[k]? = some p)
    (source : p.Source rr) (wrong : Misspelled q rr) : MixedCase q ∧ Respelled h q zone := by
  obtain ⟨visits, type, lowered, looked, own, -⟩ := visits_of_getElem? made
  have back : rr.name = p.name → MixedCase q ∧ Respelled h q zone := by
    intro same
    obtain ⟨mixed, name⟩ := wrong.mixedCase (same ▸ lowered)
    rw [← same, name] at visits
    exact ⟨mixed, .back later visits⟩
  cases source with
  | dname dname found sent =>
      obtain ⟨front, shape⟩ := mem_ancestors.mp ((taken_of_lookup looked).dname dname found).1
      rw [shape] at lowered
      have above := (toLower_parts lowered).2
      rw [← name_of_rrOf sent] at above
      obtain ⟨mixed, name⟩ := wrong.mixedCase above
      rw [name_of_rrOf sent] at name
      rw [type] at looked
      refine ⟨mixed, .below later visits looked found name ?_⟩
      by_contra unservable
      rw [(rrOf_eq_none_iff _).mpr unservable] at sent
      cases sent
  | synthesised dname next found leads same =>
      refine back ?_
      rw [same, ← own later]
      rfl
  | soa answers built =>
      refine back ?_
      rw [(Pass.owner_and_type_of_soaRR built).1, answers.1]
  | stored member =>
      obtain ⟨r, -, sent⟩ := List.mem_filterMap.mp member
      exact back ((name_of_rrOf sent).trans (own later))

/-- **Where the content respells the question name, some pass misspells it.** -/
theorem exists_misspelled (resolves : h.Resolves req q zone) (mixed : MixedCase q)
    (respelled : Respelled h q zone) :
    ∃ p ∈ h.passes q.type (maxChain + 1) zone (questionName q.name) q.spelled, ∃ rr, p.Source rr ∧
      Misspelled q rr := by
  have misspelled : ∀ rr : RR, rr.name = questionName q.name → Misspelled q rr := by
    intro rr name
    have lowered : foldASCII (questionName q.name) = questionName q.name :=
      (lowered_toLower _).foldASCII_eq
    refine ⟨by rw [name, mixed.2, lowered], fun same => mixed.1 ?_⟩
    rw [mixed.2, ← name, same]
  have visits : Visits h q zone 0 zone (questionName q.name) := ⟨Nat.zero_le _, .here zone _⟩
  obtain ⟨first, start, zones, -⟩ := visits.exists_pass resolves.clean q.spelled
  obtain ⟨-, type, -, looked, -, asked⟩ := visits_of_getElem? start
  obtain ⟨owner, name⟩ := asked rfl
  cases respelled with
  | @apex soa named asks built =>
      refine ⟨first, List.mem_of_getElem? start, soa, .soa ⟨?_, type ▸ asks, soa, ?_⟩ ?_,
        misspelled soa ?_⟩
      · rw [name, named, zones]
      · rw [zones, built]
      · rw [zones, built]
      · rw [(Pass.owner_and_type_of_soaRR built).1, named]
  | @back k last later visits =>
      obtain ⟨p, made, rfl, same⟩ := visits.exists_pass resolves.clean q.spelled
      obtain ⟨⟨-, led⟩, type', -, looked', own, -⟩ := visits_of_getElem? made
      -- the pass finds what the first one found, and is redirected like it
      have leads : first.target ≠ none :=
        pairwise_iff_getElem?.mp (passes_onward _ _ _ _) 0 k first p start made later
      have located : first.Located h := by
        refine ⟨?_, ?_, looked⟩
        · rw [name, owner]
          rfl
        · rw [name, zones]
          exact resolves.served
      have located' : p.Located h := by
        refine ⟨?_, led.served later, looked'⟩
        rw [own later, same]
        exact (lowered_toLower _).toLower_eq.symm
      have alike : p = { first with owner := p.owner } := by
        refine located.eq_of_owner located' (type.trans type'.symm) ?_
        rw [owner, own later, same, mixed.2]
        exact (lowered_toLower _).foldASCII_eq.symm
      obtain ⟨rr, under⟩ := Pass.exists_source_of_target leads
      have source := under p.owner
      rw [← alike] at source
      exact ⟨p, List.mem_of_getElem? made, _, source, misspelled _ ((own later).trans same)⟩
  | @below k last name' m dname later visits looked' found owned servable =>
      obtain ⟨p, made, rfl, rfl⟩ := visits.exists_pass resolves.clean q.spelled
      obtain ⟨-, type', -, looked'', -, -⟩ := visits_of_getElem? made
      rw [← type', looked''] at looked'
      cases looked'
      obtain ⟨rr, sent⟩ := Option.ne_none_iff_exists'.mp fun unsent =>
        (rrOf_eq_none_iff p.found.dnameAt).mp unsent servable
      exact ⟨p, List.mem_of_getElem? made, rr, .dname dname found sent,
        misspelled rr ((name_of_rrOf sent).trans owned)⟩

/-- **When answers keep the spelling of the question**: it has no upper-case letters of ASCII
alone, or the content does not respell it. -/
theorem casePreserving_iff (h : Handler) (req : Message) :
    h.CasePreserving req ↔
      ∀ q zone, h.Resolves req q zone → MixedCase q → ¬ Respelled h q zone := by
  constructor
  · intro kept q zone resolves mixed respelled
    obtain ⟨p, member, rr, source, wrong⟩ := exists_misspelled resolves mixed respelled
    obtain ⟨first, later, shape, trail⟩ := resolves.trail_shape
    have answered : rr ∈ (h.handle req).answers := by
      refine (trail.mem_answers shape rr).mpr ⟨p, ?_, source⟩
      rw [← shape, resolves.trail_eq]
      exact member
    exact wrong.other (kept q (by simp [resolves.single]) rr answered wrong.same)
  · intro holds q member rr answered same
    by_contra other
    rcases trail_cases h req with ⟨empty, -⟩ | ⟨q', zone, resolves⟩
    · rw [answers_handle, empty] at answered
      cases answered
    · rw [resolves.single, List.mem_singleton] at member
      subst member
      obtain ⟨first, later, shape, trail⟩ := resolves.trail_shape
      obtain ⟨p, passed, source⟩ := (trail.mem_answers shape rr).mp answered
      rw [← shape, resolves.trail_eq] at passed
      obtain ⟨k, made⟩ := List.mem_iff_getElem?.mp passed
      have respelled : MixedCase q ∧ Respelled h q zone := by
        rcases Nat.eq_zero_or_pos k with rfl | later
        · exact respelled_of_first made source ⟨same, other⟩
        · exact respelled_of_later later made source ⟨same, other⟩
      exact holds q zone resolves respelled.1 respelled.2

instance (h : Handler) (req : Message) : Decidable (h.CasePreserving req) :=
  inferInstanceAs (Decidable (∀ q ∈ req.questions, ∀ rr ∈ (h.handle req).answers,
    foldASCII rr.name = foldASCII q.spelled → rr.name = q.spelled))

/-- A query for the SOA record of a.org, in upper case. -/
def upperCaseApex : Message :=
  { questions := [{ name := ascii "A.ORG", type := typeSOA, cls := classIN }] }

/-- The SOA record of an apex is answered in lower case. -/
theorem apex_not_casePreserving :
    ¬ (serving wildcardContent none fun _ => 0).CasePreserving upperCaseApex := by
  decide +kernel

end Handler

end ShardDNS.DNS

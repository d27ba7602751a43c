import ShardDNS.DNS.Chains

/-!
# Delegations

A cut of a question is the question name or an ancestor of it, strictly below the
apex, that owns NS records; the question name does not count when its DS records
are asked for. The cut nearest the apex (`IsTopCut`) is where the zone's own data
end, and the right response is a referral to the servers named there
(`IsReferral`).

`lookup` asks for the exact name first, and walks up from there only when the name
does not exist. So it finds the cut nearest the apex exactly when nothing exists
below it on the way down to the question name (`zoneSays_of_cut`,
`ZoneSays.nothingBetween`). Where something does, the response is never that referral
(`handle_isReferral_iff`): glue under a delegation is answered as if it were the zone's
own (`glueQuery_not_referred`).
-/

set_option autoImplicit false

namespace ShardDNS.DNS

open Go LabelTree Store

/-! ## Cuts -/

/-- The name delegates the question: it is the question name or an ancestor of it,
strictly below the apex, and owns NS records. -/
structure IsCut (db : Database) (zone qname : Bytes) (qtype : UInt16) (cut : Bytes) : Prop where
  above : (cut = qname ∧ qtype ≠ typeDS) ∨ cut ∈ ancestors dot qname
  below : zone ∈ ancestors dot cut
  delegates : OwnsType db zone cut typeNS

/-- The cut nearest the apex. -/
structure IsTopCut (db : Database) (zone qname : Bytes) (qtype : UInt16) (cut : Bytes) : Prop
    extends IsCut db zone qname qtype cut where
  top : ∀ other, IsCut db zone qname qtype other → cut.length ≤ other.length

theorem isCut_iff {db : Database} {zone qname cut : Bytes} {qtype : UInt16} :
    IsCut db zone qname qtype cut ↔
      ((cut = qname ∧ qtype ≠ typeDS) ∨ cut ∈ ancestors dot qname) ∧ zone ∈ ancestors dot cut ∧
        OwnsType db zone cut typeNS :=
  ⟨fun ⟨above, below, delegates⟩ => ⟨above, below, delegates⟩,
    fun ⟨above, below, delegates⟩ => ⟨above, below, delegates⟩⟩

instance (db : Database) (zone qname : Bytes) (qtype : UInt16) (cut : Bytes) :
    Decidable (IsCut db zone qname qtype cut) :=
  decidable_of_iff' _ isCut_iff

theorem isTopCut_iff {db : Database} {zone qname cut : Bytes} {qtype : UInt16} :
    IsTopCut db zone qname qtype cut ↔
      IsCut db zone qname qtype cut ∧
        ∀ other ∈ qname :: ancestors dot qname, IsCut db zone qname qtype other →
          cut.length ≤ other.length := by
  constructor
  · rintro ⟨isCut, top⟩
    exact ⟨isCut, fun other _ => top other⟩
  · rintro ⟨isCut, top⟩
    refine ⟨isCut, fun other otherCut => top other ?_ otherCut⟩
    rcases otherCut.above with ⟨rfl, -⟩ | above
    · exact List.mem_cons_self
    · exact List.mem_cons_of_mem _ above

instance (db : Database) (zone qname : Bytes) (qtype : UInt16) (cut : Bytes) :
    Decidable (IsTopCut db zone qname qtype cut) :=
  decidable_of_iff' _ isTopCut_iff

/-- The response is a referral to the servers of a cut: not authoritative, NOERROR, no
answers, and the whole NS RRset of the cut as authority. -/
structure IsReferral (db : Database) (encode : Option Encoder) (zone cut : Bytes)
    (resp : Message) : Prop where
  aa : resp.aa = false
  rcode : resp.rcode = rcodeNoError
  answers : resp.answers = []
  authority : resp.authority.map some = (typedAt db encode zone cut typeNS).map (rrOf cut)

/-- Nothing exists below the cut on the way to the question name. -/
def NothingBetween (db : Database) (zone qname cut : Bytes) : Prop :=
  ∀ name ∈ qname :: ancestors dot qname, cut ∈ ancestors dot name → ¬ db.NameExists zone name

instance (db : Database) (zone qname cut : Bytes) : Decidable (NothingBetween db zone qname cut) :=
  inferInstanceAs (Decidable (∀ name ∈ qname :: ancestors dot qname, _))

variable {db : Database} {encode : Option Encoder} {rotate : Nat → UInt32} {zone : Zone}
  {qname cut : Bytes} {qtype : UInt16}

theorem IsCut.inside {zone : Bytes} (isCut : IsCut db zone qname qtype cut) :
    zone ∈ ancestors dot qname := by
  rcases isCut.above with ⟨rfl, -⟩ | above
  · exact isCut.below
  · exact ancestors_trans isCut.below above

theorem IsCut.ne_apex {zone : Bytes} (isCut : IsCut db zone qname qtype cut) : cut ≠ zone := by
  rintro rfl
  exact not_mem_ancestors_self _ isCut.below

/-- Nothing lies between a name and itself. -/
theorem nothingBetween_self (zone : Bytes) : NothingBetween db zone qname qname := by
  intro name member lower
  rcases List.mem_cons.mp member with rfl | upper
  · exact absurd lower (not_mem_ancestors_self _)
  · exact absurd lower (ancestors_asymm upper)

/-- A name with records and nothing below it is the closest encloser of the question name. -/
theorem NothingBetween.closest {zone : Bytes} (clear : NothingBetween db zone qname cut)
    (owned : db.Owns zone cut) (below : zone ∈ ancestors dot cut)
    (above : cut ∈ ancestors dot qname) :
    IsClosestEncloser db zone qname cut where
  ancestor := above
  encloses := .inr (.inl owned)
  longest := by
    intro other member found
    rcases ancestors_comparable (List.mem_cons_of_mem _ member) (List.mem_cons_of_mem _ above)
      with rfl | upper | lower
    · exact Nat.le_refl _
    · exact Nat.le_of_lt (length_lt_of_mem_ancestors upper)
    · rcases found with rfl | found
      · exact Nat.le_of_lt (length_lt_of_mem_ancestors below)
      · exact absurd found (clear other (List.mem_cons_of_mem _ member) lower)

/-- Below the closest encloser nothing exists. -/
theorem IsClosestEncloser.nothingBetween {zone : Bytes}
    (missing : ¬ db.NameExists zone qname) (closest : IsClosestEncloser db zone qname cut) :
    NothingBetween db zone qname cut := by
  intro name member lower found
  rcases List.mem_cons.mp member with rfl | upper
  · exact missing found
  · have shorter := length_lt_of_mem_ancestors lower
    have longer := closest.longest name upper (.inr found)
    omega

/-! ## Where a cut is found -/

variable (encode) in
/-- With nothing below it, the cut is what the zone tells. -/
theorem zoneSays_of_cut {zone : Bytes} (isCut : IsCut db zone qname qtype cut)
    (clear : NothingBetween db zone qname cut) :
    ZoneSays db encode zone qname qtype
      { cutName := cut, cut := typedAt db encode zone cut typeNS } := by
  rcases isCut.above with ⟨rfl, notDS⟩ | above
  · exact .delegated isCut.ne_apex notDS isCut.delegates
  · have below : qname ≠ zone := by
      rintro rfl
      exact not_mem_ancestors_self _ isCut.inside
    have missing : ¬ db.NameExists zone qname := clear qname List.mem_cons_self above
    have closest := clear.closest isCut.delegates.owns isCut.below above
    exact .belowCut (not_or.mpr ⟨below, missing⟩) closest isCut.ne_apex isCut.delegates

/-- A cut that is told has nothing below it. -/
theorem ZoneSays.nothingBetween {zone : Bytes} {m : Handler.Match}
    (told : ZoneSays db encode zone qname qtype m) (cuts : m.cut ≠ []) :
    NothingBetween db zone qname m.cutName := by
  cases told with
  | delegated => exact nothingBetween_self _
  | belowCut missing closest =>
      exact closest.nothingBetween fun found => missing (.inr found)
  | existing | bare | belowDNAME | wildcard | nonexistent => exact absurd rfl cuts

namespace Handler

/-! ## Referrals -/

/-- Servable records are sent as they are. -/
theorem map_some_filterMap_eq_iff {owner : Bytes} {records : List Record} :
    (records.filterMap (rrOf owner)).map some = records.map (rrOf owner) ↔
      ∀ r ∈ records, Servable r := by
  induction records with
  | nil => simp
  | cons r records ih =>
      rw [List.filterMap_cons, List.map_cons, List.forall_mem_cons]
      cases sent : rrOf owner r with
      | none =>
          have unservable := (rrOf_eq_none_iff owner).mp sent
          refine ⟨fun same => ?_, fun all => absurd all.1 unservable⟩
          have lost : (none : Option RR) ∈ (records.filterMap (rrOf owner)).map some := by
            rw [same]
            exact List.mem_cons_self
          simp at lost
      | some rr =>
          have servable : Servable r := by
            by_contra unservable
            rw [(rrOf_eq_none_iff owner).mpr unservable] at sent
            cases sent
          rw [List.map_cons, List.cons.injEq, ih]
          exact ⟨fun same => ⟨servable, same.2⟩, fun all => ⟨rfl, all.2⟩⟩

/-- What a question under a cut that was found gets. -/
theorem handle_of_cut {h : Handler} {req : Message} {q : Question} {m : Match}
    (single : req.questions = [q]) (reaches : Reaches req q)
    (served : h.resolver.findZone (questionName q.name) = .ok zone)
    (looked : h.lookup zone (questionName q.name) q.type = .ok m)
    (cuts : m.cut ≠ []) :
    h.handle req = h.referral (Message.newResponse req).setAA zone m := by
  rw [handle_of_reaches single reaches served, resolve_of_done (hop_of_cut looked cuts)]

theorem authority_referral (h : Handler) (req : Message) (m : Match) :
    (h.referral (Message.newResponse req).setAA zone m).authority =
      m.cut.filterMap (rrOf m.cutName) := by
  have empty : (Message.newResponse req).setAA.clearAA.authority = [] :=
    (Message.sections_newResponse req).2.1
  simp only [referral, addGlue, foldl_appendRR, empty, List.nil_append]

theorem rcode_handle_of_not_reaches {h : Handler} {req : Message} {q : Question}
    (single : req.questions = [q]) (unreached : ¬ Reaches req q) :
    (h.handle req).rcode ≠ rcodeNoError := by
  obtain ⟨rcode, member, handled⟩ := handle_of_not_reaches (h := h)
    (not_reaches_of_single single unreached)
  rw [handled, Message.rcode_setRcode]
  simp only [List.mem_cons, List.not_mem_nil, or_false] at member
  rcases member with rfl | rfl | rfl <;> decide

/-- A question under no delegation that was found is not referred. -/
theorem not_isReferral_of_uncut {h : Handler} {req : Message} {q : Question} {m : Match}
    {apex : Bytes} (single : req.questions = [q]) (reaches : Reaches req q)
    (served : h.resolver.findZone (questionName q.name) = .ok zone)
    (looked : h.lookup zone (questionName q.name) q.type = .ok m)
    (uncut : m.cut = []) : ¬ IsReferral db encode apex cut (h.handle req) := by
  intro referred
  rw [handle_of_reaches single reaches served] at referred
  generalize resolved : h.resolve _ zone _ _ q.type = result at referred
  obtain ⟨resp, error⟩ := result
  cases error with
  | some e =>
      have rcode := referred.rcode
      simp only [serverFailure, Message.rcode_setRcode] at rcode
      exact absurd rcode (by decide)
  | none =>
      rcases resolve_of_uncut looked uncut resolved with aa | answered
      · rw [referred.aa, Message.aa_setAA] at aa
        cases aa
      · exact answered referred.answers

/-- The referral that is sent is to the cut that was found. -/
theorem cutName_of_isReferral {h : Handler} {req : Message} {m : Match} {apex : Bytes}
    (delegates : OwnsType db apex cut typeNS)
    (referred : IsReferral db encode apex cut (h.referral (Message.newResponse req).setAA zone m)) :
    m.cutName = cut := by
  have sent := referred.authority
  rw [authority_referral] at sent
  -- the RRset asked for has a first record, and both lists name its owner
  obtain ⟨ns, rest, set⟩ := List.exists_cons_of_ne_nil (typedAt_ne_nil_iff.mpr delegates)
  rw [set, List.map_cons] at sent
  obtain ⟨rr, tail, served, first, -⟩ := List.map_eq_cons_iff.mp sent
  obtain ⟨r, -, found⟩ := List.mem_filterMap.mp (served ▸ List.mem_cons_self)
  exact (name_of_rrOf found).symm.trans (name_of_rrOf first.symm)

/-- **When a question below a delegation is referred.** Let `cut` be the cut nearest
the apex. The response is the referral to it exactly when the request is one that
reaches the resolver, no name exists below the cut on the way to the question name,
and there is RDATA to send for every NS record of the cut. -/
theorem handle_isReferral_iff (db : Database) (encode : Option Encoder) (rotate : Nat → UInt32)
    (req : Message) (q : Question) (zone : Zone) (cut : Bytes) (single : req.questions = [q])
    (served : db.findZone (questionName q.name) = .ok zone)
    (top : IsTopCut db zone.name (questionName q.name) q.type cut) :
    IsReferral db encode zone.name cut ((serving db encode rotate).handle req) ↔
      Reaches req q ∧
        NothingBetween db zone.name (questionName q.name) cut ∧
          ∀ r ∈ typedAt db encode zone.name cut typeNS, Servable r := by
  have isCut := top.toIsCut
  have found : (serving db encode rotate).resolver.findZone
      (questionName q.name) = .ok zone := by rw [findZone_serving, served]
  constructor
  · intro referred
    have reaches : Reaches req q := by
      by_contra unreached
      exact rcode_handle_of_not_reaches single unreached referred.rcode
    obtain ⟨m, looked⟩ : ∃ m, (serving db encode rotate).lookup zone
        (questionName q.name) q.type = .ok m :=
      (exists_zoneSays db encode _ _ _).imp fun _ => lookup_of_zoneSays rotate
    by_cases cuts : m.cut = []
    · exact absurd referred (not_isReferral_of_uncut single reaches found looked cuts)
    · rw [handle_of_cut single reaches found looked cuts] at referred
      have same : m.cutName = cut := cutName_of_isReferral isCut.delegates referred
      have clear := (lookup_eq_ok_iff.mp looked).nothingBetween cuts
      rw [same] at clear
      rw [lookup_of_zoneSays rotate (zoneSays_of_cut encode isCut clear)] at looked
      cases looked
      have sent := referred.authority
      rw [authority_referral] at sent
      exact ⟨reaches, clear, map_some_filterMap_eq_iff.mp sent⟩
  · rintro ⟨reaches, clear, servable⟩
    have looked := lookup_of_zoneSays rotate (zoneSays_of_cut encode isCut clear)
    rw [handle_of_cut single reaches found looked (typedAt_ne_nil_iff.mpr isCut.delegates)]
    exact
      { aa := aa_referral _ _ _
        rcode := by
          have kept : (Message.newResponse req).setAA.clearAA.rcode = rcodeNoError := by
            rw [Message.rcode_clearAA, Message.rcode_setAA, Message.rcode_newResponse]
            rfl
          exact kept
        answers := (Message.sections_newResponse req).1
        authority := by
          rw [authority_referral]
          exact map_some_filterMap_eq_iff.mpr servable }

/-! ## A delegation with glue -/

/-- The zone delegates `sub.a.org` to `ns.sub.a.org` and holds its address. -/
def delegatingContent : Database :=
  { bareContent with
    records :=
      [{ id := 1, zone := ascii "a.org", name := ascii "sub.a.org"
         nameRev := reverseName (ascii "sub.a.org"), type := ascii "NS", ttl := 300
         rdata := ascii "ns.sub.a.org", reversed := rfl },
       { id := 2, zone := ascii "a.org", name := ascii "ns.sub.a.org"
         nameRev := reverseName (ascii "ns.sub.a.org"), type := ascii "A", ttl := 300
         rdata := ascii "192.0.2.1", reversed := rfl }]
    nextID := 3
    foreignKey := by decide
    idKey := by decide
    idBound := by decide }

/-- A query for the addresses of a name. -/
def addressQuery (name : Bytes) : Message :=
  { questions := [{ name := name, type := typeA, cls := classIN }] }

/-- The glue is answered, with the AA bit set, in place of the referral. -/
theorem glueQuery_not_referred :
    delegatingContent.findZone (questionName (ascii "ns.sub.a.org")) =
        .ok (Zone.plain (ascii "a.org")) ∧
      IsTopCut delegatingContent (Zone.plain (ascii "a.org")).name
        (questionName (ascii "ns.sub.a.org")) typeA (ascii "sub.a.org") ∧
      ¬ IsReferral delegatingContent none (Zone.plain (ascii "a.org")).name (ascii "sub.a.org")
        ((serving delegatingContent none fun _ => 0).handle
          (addressQuery (ascii "ns.sub.a.org"))) := by
  refine ⟨by decide +kernel, by decide +kernel, fun referred => ?_⟩
  have authoritative : ((serving delegatingContent none fun _ => 0).handle
      (addressQuery (ascii "ns.sub.a.org"))).aa = true := by decide +kernel
  rw [referred.aa] at authoritative
  cases authoritative

/-- Another name below the cut is referred. -/
theorem handle_isReferral_iff_absentName :
    IsReferral delegatingContent none (Zone.plain (ascii "a.org")).name (ascii "sub.a.org")
      ((serving delegatingContent none fun _ => 0).handle (addressQuery (ascii "w.sub.a.org"))) :=
  (handle_isReferral_iff delegatingContent none (fun _ => 0) (addressQuery (ascii "w.sub.a.org"))
    { name := ascii "w.sub.a.org", type := typeA, cls := classIN } (Zone.plain (ascii "a.org"))
    (ascii "sub.a.org") rfl (by decide +kernel) (by decide +kernel)).mpr
    ⟨by decide +kernel, by decide +kernel, by decide +kernel⟩

end Handler

end ShardDNS.DNS

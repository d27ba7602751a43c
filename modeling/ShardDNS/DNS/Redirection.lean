import ShardDNS.DNS.Delegation

/-!
# Redirection of a subtree

A DNAME record redirects every name below its owner, and the records that exist below it
make no difference (`Covers`). Of several owners above a name the one nearest the apex counts
(`IsTopDNAME`), and the right response starts with its record and a CNAME record synthesised
from it (`StartsWithDNAME`).

`lookup` looks for DNAME records only while it walks up from a name that does not exist, and
not at the apex. So a name is redirected exactly when nothing exists between it and the owner,
and the owner is not the apex (`handle_startsWithDNAME_iff`). A name that owns records below a
DNAME is answered as if it were not there (`ownerBelow_not_redirected`).
-/

set_option autoImplicit false

namespace ShardDNS.DNS

open Go LabelTree Store

/-! ## What a redirected name gets -/

/-- The name redirects the question: it is a proper ancestor of the question name, the apex or
a name below it, and owns DNAME records. -/
structure Covers (db : Database) (zone qname d : Bytes) : Prop where
  above : d ∈ ancestors dot qname
  inside : d = zone ∨ zone ∈ ancestors dot d
  redirects : OwnsType db zone d typeDNAME

/-- The owner nearest the apex. -/
structure IsTopDNAME (db : Database) (zone qname d : Bytes) :
    Prop extends Covers db zone qname d where
  top : ∀ other, Covers db zone qname other → d.length ≤ other.length

theorem covers_iff {db : Database} {zone qname d : Bytes} :
    Covers db zone qname d ↔
      d ∈ ancestors dot qname ∧ (d = zone ∨ zone ∈ ancestors dot d) ∧
        OwnsType db zone d typeDNAME :=
  ⟨fun ⟨above, inside, redirects⟩ => ⟨above, inside, redirects⟩,
    fun ⟨above, inside, redirects⟩ => ⟨above, inside, redirects⟩⟩

instance (db : Database) (zone qname d : Bytes) : Decidable (Covers db zone qname d) :=
  decidable_of_iff' _ covers_iff

theorem isTopDNAME_iff {db : Database} {zone qname d : Bytes} :
    IsTopDNAME db zone qname d ↔
      Covers db zone qname d ∧
        ∀ other ∈ ancestors dot qname, Covers db zone qname other → d.length ≤ other.length :=
  ⟨fun ⟨covers, top⟩ => ⟨covers, fun other _ => top other⟩,
    fun ⟨covers, top⟩ => ⟨covers, fun other lower => top other lower.above lower⟩⟩

instance (db : Database) (zone qname d : Bytes) : Decidable (IsTopDNAME db zone qname d) :=
  decidable_of_iff' _ isTopDNAME_iff

/-- The record is synthesised from a DNAME record for the question: the target of the record
stands for its owner in the question name. -/
structure Synthesised (qname owner d : Bytes) (r : Record) (cname : RR) : Prop where
  name : cname.name = owner
  type : cname.type = typeCNAME
  cls : cname.cls = classIN
  ttl : cname.ttl = r.ttl.toUInt32
  rdata : ∃ front, qname = front ++ dot :: d ∧
    packName [] (front ++ dot :: toLower (rdataNames typeDNAME ((wireOf r).getD []))) =
      .ok cname.rdata

/-- The answers start with a DNAME record of the owner and the CNAME record synthesised from
it. -/
def StartsWithDNAME (db : Database) (encode : Option Encoder) (zone d qname owner : Bytes)
    (answers : List RR) : Prop :=
  ∃ r ∈ typedAt db encode zone d typeDNAME, ∃ dname cname rest,
    rrOf d r = some dname ∧ Synthesised qname owner d r cname ∧ answers = dname :: cname :: rest

namespace Handler

variable {h : Handler} {i : Nat} {resp : Message} {zone : Zone} {name owner : Bytes}
  {qtype : UInt16} {m : Match}

/-! ## The first answer -/

theorem name_of_mem_appendSet {rrs : List RR} {records : List Record} {rr : RR}
    (member : rr ∈ h.appendSet i rrs owner records) : rr ∈ rrs ∨ rr.name = owner := by
  obtain ⟨start, appended⟩ := h.appendSet_eq i rrs owner records
  rw [appended] at member
  rcases List.mem_append.mp member with old | new
  · exact .inl old
  · obtain ⟨r, -, sent⟩ := List.mem_filterMap.mp new
    exact .inr (name_of_rrOf sent)

/-- Away from the apex, the records found are answered under the name asked for. -/
theorem name_of_mem_answer (below : name ≠ zone.name) {rr : RR}
    (member : rr ∈ (h.answer i resp zone name owner qtype m).1.answers) :
    rr ∈ resp.answers ∨ rr.name = owner := by
  unfold answer at member
  dsimp only at member
  split at member
  · have any : rr ∈ h.anyAnswers i resp zone name owner m := by
      rw [answerANY_eq] at member
      dsimp only at member
      split at member
      · rwa [answers_negative] at member
      · exact member
    rw [anyAnswers, if_neg below, List.append_nil] at any
    exact name_of_mem_appendSet any
  · rw [if_neg (by simp [below])] at member
    split at member
    · rw [answers_addAdditional] at member
      exact name_of_mem_appendSet member
    · split at member
      · unfold followCNAME at member
        dsimp only at member
        split at member <;> exact name_of_mem_appendSet member
      · rw [answers_negative] at member
        exact .inl member

/-- The first answer comes from the first pass. -/
theorem mem_hop_of_resolve {rr : RR} {rest : List RR}
    (final : (h.resolve resp zone name owner qtype).1.answers = rr :: rest) :
    rr ∈ (h.hop 0 resp zone name owner qtype).1.answers := by
  have kept := answers_hop_resolve h resp zone name owner qtype
  rw [final] at kept
  cases answered : (h.hop 0 resp zone name owner qtype).1.answers with
  | cons first more =>
      rw [answered, List.cons_prefix_cons] at kept
      rw [kept.1]
      exact List.mem_cons_self
  | nil =>
      rw [resolve, resolveLoop, Nat.sub_self] at final
      cases passed : h.hop 0 resp zone name owner qtype with
      | mk resp' step =>
          rw [passed] at final answered
          cases step with
          | failed e => cases answered.symm.trans final
          | done => cases answered.symm.trans final
          | next zone' name' owner' =>
              -- a pass that goes on has added an answer
              obtain ⟨m, looked, uncut, leads, -⟩ := leads_of_hop passed
              obtain ⟨added, nonempty, went⟩ := hop_of_target h 0 resp owner looked uncut leads
              rw [passed] at went
              rw [(Prod.mk.inj went).1] at answered
              exact absurd (List.append_eq_nil_iff.mp answered).2 nonempty

/-- A name is not written like one of its ancestors. -/
theorem ne_of_mem_ancestors_toLower {d : Bytes} (above : d ∈ ancestors dot (toLower owner)) :
    owner ≠ d := by
  rintro rfl
  exact toLower_ne_of_mem_ancestors above rfl

/-! ## The pass below an owner -/

/-- The target of a DNAME record makes the CNAME record synthesised from it. -/
theorem synthesised_of_target {d next : Bytes} {r : Record} (above : d ∈ ancestors dot name)
    (leads : dnameTarget name d r = some next) :
    Synthesised name owner d r
      { name := owner, type := typeCNAME, cls := classIN, ttl := r.ttl.toUInt32
        rdata := encodeLabels (textLabels next) ++ [0] } := by
  obtain ⟨-, text, -, out, packed⟩ := dnameTarget_eq_some_iff.mp leads
  obtain ⟨front, rfl⟩ := mem_ancestors.mp above
  rw [substitute_below] at text
  refine ⟨rfl, rfl, rfl, rfl, front, rfl, ?_⟩
  obtain ⟨fit, short, -⟩ := packName_eq_ok_iff.mp packed
  subst text
  exact packName_eq_ok_iff.mpr ⟨fit, short, rfl⟩

/-- A record with a target is sent. -/
theorem exists_rrOf_of_target {d next : Bytes} {r : Record} (type : typeCode r.type = typeDNAME)
    (leads : dnameTarget name d r = some next) : ∃ dname, rrOf d r = some dname := by
  obtain ⟨encoded, -⟩ := dnameTarget_eq_some_iff.mp leads
  refine Option.ne_none_iff_exists'.mp fun unsent => ?_
  refine (rrOf_eq_none_iff d).mp unsent ⟨by rw [type]; decide, fun empty => encoded ?_⟩
  rw [empty]
  decide

end Handler

/-! ## Where an owner is found -/

variable {db : Database} {encode : Option Encoder} {rotate : Nat → UInt32} {zone : Zone}
  {qname d : Bytes} {qtype : UInt16}

theorem Covers.below {zone : Bytes} (covers : Covers db zone qname d) :
    zone ∈ ancestors dot qname := by
  rcases covers.inside with rfl | inside
  · exact covers.above
  · exact ancestors_trans inside covers.above

/-- No name at or above the question, strictly below the apex, delegates. -/
def Undelegated (db : Database) (zone qname : Bytes) : Prop :=
  ∀ cut ∈ qname :: ancestors dot qname, zone ∈ ancestors dot cut → ¬ OwnsType db zone cut typeNS

instance (db : Database) (zone qname : Bytes) : Decidable (Undelegated db zone qname) :=
  inferInstanceAs (Decidable (∀ cut ∈ qname :: ancestors dot qname, _))

/-- Such a question is told no cut. -/
theorem ZoneSays.uncut {zone : Bytes} {m : Handler.Match}
    (told : ZoneSays db encode zone qname qtype m) (inside : zone ∈ ancestors dot qname)
    (undelegated : Undelegated db zone qname) : m.cut = [] := by
  cases told with
  | delegated below type delegates =>
      exact absurd delegates (undelegated qname List.mem_cons_self inside)
  | belowCut missing closest below delegates =>
      have lower := (closest.eq_or_below inside).resolve_left below
      exact absurd delegates (undelegated _ (List.mem_cons_of_mem _ closest.ancestor) lower)
  | existing | bare | belowDNAME | wildcard | nonexistent => rfl

/-- An owner that is told has nothing below it. -/
theorem ZoneSays.of_dname {zone : Bytes} {m : Handler.Match} {dname : Record}
    (told : ZoneSays db encode zone qname qtype m) (found : m.dname = some dname) :
    m.dnameAt ≠ zone ∧ NothingBetween db zone qname m.dnameAt ∧
      (typedAt db encode zone m.dnameAt typeDNAME).head? = some dname := by
  cases told with
  | belowDNAME missing closest below own first =>
      cases found
      exact ⟨below, closest.nothingBetween fun found => missing (.inr found), first⟩
  | delegated | existing | bare | belowCut | wildcard | nonexistent => cases found

/-- With nothing below it, the owner is what the zone tells. -/
theorem zoneSays_of_covers {zone : Bytes} {r : Record} (covers : Covers db zone qname d)
    (undelegated : Undelegated db zone qname) (below : d ≠ zone)
    (clear : NothingBetween db zone qname d)
    (first : (typedAt db encode zone d typeDNAME).head? = some r) :
    ZoneSays db encode zone qname qtype { dname := some r, dnameAt := d } := by
  have inside := covers.inside.resolve_left below
  have proper : qname ≠ zone := by
    rintro rfl
    exact not_mem_ancestors_self _ covers.below
  have missing : ¬ db.NameExists zone qname := clear qname List.mem_cons_self covers.above
  refine .belowDNAME (not_or.mpr ⟨proper, missing⟩) ?_ below ?_ first
  · exact clear.closest covers.redirects.owns inside covers.above
  · exact undelegated d (List.mem_cons_of_mem _ covers.above) inside

namespace Handler

/-- What `resolve` answers for a name below an owner that was found. -/
theorem answers_of_dname {h : Handler} {resp : Message} {owner : Bytes} {m : Match} {r : Record}
    {next : Bytes} {dname : RR} (looked : h.lookup zone qname qtype = .ok m) (uncut : m.cut = [])
    (found : m.dname = some r)
    (leads : dnameTarget qname m.dnameAt r = some next) (sent : rrOf m.dnameAt r = some dname)
    (empty : resp.answers = []) :
    ∃ rest, (h.resolve resp zone qname owner qtype).1.answers =
      dname :: { name := owner, type := typeCNAME, cls := classIN, ttl := r.ttl.toUInt32
                 rdata := encodeLabels (textLabels next) ++ [0] } :: rest := by
  have kept := answers_hop_resolve h resp zone qname owner qtype
  rw [hop_of_dname looked uncut found, followDNAME_of_target h resp owner leads, sent,
    empty] at kept
  obtain ⟨rest, split⟩ := kept
  exact ⟨rest, split.symm⟩

/-- The answers are those of `resolve`, unless it fails. -/
theorem answers_handle_cases {req : Message} {q : Question} (single : req.questions = [q])
    (reaches : Reaches req q)
    (served : db.findZone (questionName q.name) = .ok zone) :
    (LeadsToUnsentSOA (serving db encode rotate) q.type (maxChain + 1) zone
          (questionName q.name) ∧
        ((serving db encode rotate).handle req).answers = []) ∨
      (¬ LeadsToUnsentSOA (serving db encode rotate) q.type (maxChain + 1) zone
          (questionName q.name) ∧
        ((serving db encode rotate).handle req).answers =
          ((serving db encode rotate).resolve (Message.newResponse req).setAA zone
            (questionName q.name) (trimSuffix q.name (ascii ".")) q.type).1.answers) := by
  have found : (serving db encode rotate).resolver.findZone
      (questionName q.name) = .ok zone := by rw [findZone_serving, served]
  have fails := @failed_resolveLoop_iff q.type zone (questionName q.name)
    (trimSuffix q.name (ascii ".")) db encode rotate (Message.newResponse req).setAA (maxChain + 1)
  rw [handle_of_reaches single reaches found, ← fails, resolve]
  cases (serving db encode rotate).resolveLoop q.type (maxChain + 1)
    (Message.newResponse req).setAA zone
      (questionName q.name) (trimSuffix q.name (ascii ".")) with
  | mk resp error =>
      cases error with
      | some e => exact .inl ⟨⟨e, rfl⟩, rfl⟩
      | none => exact .inr ⟨by simp, rfl⟩

/-- Answers that start with the DNAME record come from its owner. -/
theorem dname_of_starts {h : Handler} {resp : Message} {owner : Bytes} {m : Match}
    {dname cname : RR} {rest : List RR} (looked : h.lookup zone (toLower owner) qtype = .ok m)
    (uncut : m.cut = [])
    (empty : resp.answers = []) (proper : toLower owner ≠ zone.name)
    (above : dname.name ∈ ancestors dot (toLower owner))
    (starts : (h.resolve resp zone (toLower owner) owner qtype).1.answers =
      dname :: cname :: rest) :
    ∃ r, m.dname = some r ∧ rrOf m.dnameAt r = some dname ∧
      dnameTarget (toLower owner) m.dnameAt r ≠ none := by
  have other : dname.name ≠ owner := (ne_of_mem_ancestors_toLower above).symm
  cases found : m.dname with
  | none =>
      have member := mem_hop_of_resolve starts
      rw [hop_of_plain looked uncut found] at member
      rcases name_of_mem_answer proper member with old | named
      · rw [empty] at old
        cases old
      · exact absurd named other
  | some r =>
      cases leads : dnameTarget (toLower owner) m.dnameAt r with
      | none =>
          -- the pass ends with at most one answer
          obtain ⟨resp', followed, answers, -⟩ := followDNAME_of_no_target h resp owner leads
          rw [← hop_of_dname looked uncut found] at followed
          rw [resolve_of_done followed, answers, empty, List.nil_append] at starts
          cases sent : rrOf m.dnameAt r <;> simp [sent] at starts
      | some next =>
          have kept := answers_hop_resolve h resp zone (toLower owner) owner qtype
          rw [starts, hop_of_dname looked uncut found, followDNAME_of_target h resp owner leads,
            empty] at kept
          cases sent : rrOf m.dnameAt r with
          | none =>
              rw [sent] at kept
              have first := (List.cons_prefix_cons.mp kept).1
              exact absurd (congrArg RR.name first).symm other
          | some dname' =>
              rw [sent] at kept
              have first := (List.cons_prefix_cons.mp kept).1
              exact ⟨r, rfl, by rw [← first, sent], by simp [leads]⟩

/-- **When a subtree is redirected.** Let `d` be the owner of DNAME records nearest the apex, above
a question name under no delegation. The answers start with its DNAME record and the CNAME record
synthesised from it exactly when the request is one that reaches the resolver, `d` is not the
apex, no name exists below `d` on the way to the question name, the first record of `d` has a
target that can be encoded in place of `d`, and the question does not lead on to an apex whose
SOA record is asked for and cannot be encoded. -/
theorem handle_startsWithDNAME_iff (db : Database) (encode : Option Encoder) (rotate : Nat → UInt32)
    (req : Message) (q : Question) (zone : Zone) (d : Bytes) (single : req.questions = [q])
    (served : db.findZone (questionName q.name) = .ok zone)
    (top : IsTopDNAME db zone.name (questionName q.name) d)
    (undelegated : Undelegated db zone.name (questionName q.name)) :
    StartsWithDNAME db encode zone.name d (questionName q.name)
        (trimSuffix q.name (ascii ".")) ((serving db encode rotate).handle req).answers ↔
      Reaches req q ∧ d ≠ zone.name ∧
        NothingBetween db zone.name (questionName q.name) d ∧
        (∃ r, (typedAt db encode zone.name d typeDNAME).head? = some r ∧
          dnameTarget (questionName q.name) d r ≠ none) ∧
        ¬ LeadsToUnsentSOA (serving db encode rotate) q.type (maxChain + 1) zone
          (questionName q.name) := by
  have covers := top.toCovers
  have empty : (Message.newResponse req).setAA.answers = [] := (Message.sections_newResponse req).1
  constructor
  · rintro ⟨r, -, dname, cname, rest, sent, -, starts⟩
    have reaches : Reaches req q := by
      by_contra unreached
      have sections := (serving db encode rotate).sections_handle_of_not_reaches
        (not_reaches_of_single single unreached)
      rw [sections.1] at starts
      cases starts
    rcases @answers_handle_cases db encode rotate zone _ _ single reaches served with
      ⟨-, none⟩ | ⟨sound, answers⟩
    · rw [none] at starts
      cases starts
    · rw [answers] at starts
      obtain ⟨m, told⟩ := exists_zoneSays db encode zone.name
        (questionName q.name) q.type
      have named := name_of_rrOf sent
      have proper : questionName q.name ≠ zone.name := by
        intro same
        have below := covers.below
        rw [same] at below
        exact not_mem_ancestors_self _ below
      obtain ⟨r', isDNAME, sent', leads⟩ := dname_of_starts (lookup_of_zoneSays rotate told)
        (told.uncut covers.below undelegated) empty proper (named ▸ covers.above) starts
      obtain ⟨below, clear, first⟩ := told.of_dname isDNAME
      have same : m.dnameAt = d := (name_of_rrOf sent').symm.trans named
      rw [same] at below clear first leads
      exact ⟨reaches, below, clear, ⟨r', first, leads⟩, sound⟩
  · rintro ⟨reaches, below, clear, ⟨r, first, leads⟩, sound⟩
    obtain ⟨next, leads⟩ := Option.ne_none_iff_exists'.mp leads
    have member := List.mem_of_head? first
    have type : typeCode r.type = typeDNAME := by simpa using (List.mem_filter.mp member).2
    obtain ⟨dname, sent⟩ := exists_rrOf_of_target type leads
    have looked := lookup_of_zoneSays rotate
      (@zoneSays_of_covers db encode _ d q.type _ _ covers undelegated below clear first)
    rcases @answers_handle_cases db encode rotate zone _ _ single reaches served with
      ⟨leadsOn, -⟩ | ⟨-, answers⟩
    · exact absurd leadsOn sound
    · rw [answers]
      obtain ⟨rest, starts⟩ := @answers_of_dname zone _ q.type _ _
        (trimSuffix q.name (ascii ".")) _ _ _
        _ looked rfl rfl leads sent empty
      exact ⟨r, member, dname, _, rest, sent, synthesised_of_target covers.above leads, starts⟩

/-! ## A name below an owner -/

/-- The zone redirects what is below `old.c.org`, and holds a record there. -/
def redirectedContent : Database :=
  { zones := [Zone.plain (ascii "c.org")]
    records :=
      [{ id := 1, zone := ascii "c.org", name := ascii "old.c.org"
         nameRev := reverseName (ascii "old.c.org"), type := ascii "DNAME", ttl := 300
         rdata := ascii "new.org.", reversed := rfl },
       { id := 2, zone := ascii "c.org", name := ascii "www.old.c.org"
         nameRev := reverseName (ascii "www.old.c.org"), type := ascii "TXT", ttl := 300
         rdata := ascii "here", reversed := rfl }]
    nextID := 3
    zoneKey := by decide
    foreignKey := by decide
    idKey := by decide
    idBound := by decide }

/-- The name that owns the record is not redirected, and gets no answer. -/
theorem ownerBelow_not_redirected :
    redirectedContent.findZone (questionName (ascii "www.old.c.org")) =
        .ok (Zone.plain (ascii "c.org")) ∧
      IsTopDNAME redirectedContent (Zone.plain (ascii "c.org")).name
        (questionName (ascii "www.old.c.org")) (ascii "old.c.org") ∧
      Undelegated redirectedContent (Zone.plain (ascii "c.org")).name
        (questionName (ascii "www.old.c.org")) ∧
      ¬ StartsWithDNAME redirectedContent none (Zone.plain (ascii "c.org")).name (ascii "old.c.org")
        (questionName (ascii "www.old.c.org"))
        (trimSuffix (ascii "www.old.c.org") (ascii "."))
        ((serving redirectedContent none fun _ => 0).handle
          (addressQuery (ascii "www.old.c.org"))).answers := by
  refine ⟨by decide +kernel, by decide +kernel, by decide +kernel, ?_⟩
  rintro ⟨r, -, dname, cname, rest, -, -, starts⟩
  have empty : ((serving redirectedContent none fun _ => 0).handle
      (addressQuery (ascii "www.old.c.org"))).answers = [] := by decide +kernel
  rw [empty] at starts
  cases starts

/-- Another name below the owner is redirected. -/
theorem handle_startsWithDNAME_iff_absentName :
    StartsWithDNAME redirectedContent none (Zone.plain (ascii "c.org")).name (ascii "old.c.org")
      (questionName (ascii "x.old.c.org"))
      (trimSuffix (ascii "x.old.c.org") (ascii "."))
      ((serving redirectedContent none fun _ => 0).handle
        (addressQuery (ascii "x.old.c.org"))).answers := by
  refine (handle_startsWithDNAME_iff redirectedContent none (fun _ => 0)
    (addressQuery (ascii "x.old.c.org"))
    { name := ascii "x.old.c.org", type := typeA, cls := classIN } (Zone.plain (ascii "c.org"))
    (ascii "old.c.org") rfl (by decide +kernel) (by decide +kernel) (by decide +kernel)).mpr
    ⟨by decide +kernel, by decide +kernel, by decide +kernel, ⟨_, rfl, by decide +kernel⟩, ?_⟩
  rintro ⟨k, last, lastName, -, -, asks⟩
  exact absurd asks.1 (by decide)

end Handler

end ShardDNS.DNS

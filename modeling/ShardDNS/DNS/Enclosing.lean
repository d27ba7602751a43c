import ShardDNS.DNS.Handler
import ShardDNS.DNS.MessageCodec
import ShardDNS.DNS.Names

/-!
# The zone a question is answered from

`Handle` puts the question name to `FindZone` in lower case and without a trailing dot.
`FindZone` normalises it once more: it trims white space and another dot, which a label of
the question may well hold. For a name with nothing to trim, the zone found is the longest
one that encloses it. For one with something to trim it is the longest that encloses what
is left, and that may be a zone that does not enclose the name asked for
(`findsEnclosing_iff`).

A name with a zero byte is no text to PostgreSQL, and the query for it fails.
-/

set_option autoImplicit false

namespace ShardDNS.DNS

open Go LabelTree Store

/-! ## The query -/

/-- `FindZone`, where the database takes no text with a zero byte. -/
def queryZone (db : Database) (qname : Bytes) : Except StoreError Zone :=
  if (Database.candidates (normalizeZone qname)).any fun name => name.contains 0 then
    .error .database
  else db.findZone qname

/-- The zone is the longest of those that enclose the name. -/
def LongestZone (db : Database) (name : Bytes) (z : Zone) : Prop :=
  z ∈ db.zones ∧ inZone name z.name = true ∧
    ∀ w ∈ db.zones, inZone name w.name = true → w.name.length ≤ z.name.length

/-- The zones are ones that `CreateZone` accepts. -/
def ZonesValid (db : Database) : Prop := ∀ z ∈ db.zones, validateName z.name = .ok ()

variable {db : Database} {qname name zone : Bytes} {z : Zone}

theorem ne_nil_of_valid (valid : validateName name = .ok ()) : name ≠ [] := by
  rintro rfl
  exact absurd valid (by decide)

/-- Where a zone encloses a name, one is the longest. -/
theorem exists_longestZone (stored : z ∈ db.zones) (inside : inZone name z.name = true) :
    ∃ z, LongestZone db name z := by
  have enclosing : (db.zones.filter fun z => inZone name z.name) ≠ [] :=
    List.ne_nil_of_mem (List.mem_filter.mpr ⟨stored, inside⟩)
  obtain ⟨longest, found⟩ := Option.ne_none_iff_exists'.mp
    (mt (List.argmax_eq_none (f := fun z : Zone => z.name.length)).mp enclosing)
  obtain ⟨member, most, -⟩ := List.argmax_eq_some_iff.mp found
  obtain ⟨stored, inside⟩ := List.mem_filter.mp member
  exact ⟨longest, stored, inside, fun w stored inside =>
    most w (List.mem_filter.mpr ⟨stored, inside⟩)⟩

/-- The candidates are the names of the zones that may enclose the name. -/
theorem mem_candidates_iff (named : zone ≠ []) :
    zone ∈ Database.candidates name ↔ inZone name zone = true := by
  have nonempty : ∀ {lower : Bytes}, zone ∈ ancestors dot lower → lower ≠ [] := by
    rintro lower above rfl
    cases above
  rw [inZone_iff]
  constructor
  · intro member
    rcases List.mem_cons.mp (Database.mem_chain_of_mem_candidates member).1 with same | above
    · exact .inl same.symm
    · exact .inr above
  · intro inside
    rw [Database.candidates_eq]
    rcases inside with rfl | above
    · rw [List.takeWhile_cons_of_pos (by simpa using named)]
      exact List.mem_cons_self
    · -- the names before it have it as an ancestor, so none of them is empty
      obtain ⟨below, split⟩ := exists_ancestors_eq_append above
      rw [split, ← List.cons_append, List.takeWhile_append_of_pos,
        List.takeWhile_cons_of_pos (by simpa using named)]
      · exact List.mem_append_right _ List.mem_cons_self
      · intro lower member
        rw [decide_eq_true_eq]
        rcases List.mem_cons.mp member with rfl | member
        · exact nonempty above
        · exact nonempty (mem_ancestors_of_split split member)

/-- **`FindZone` finds the longest zone that encloses the normalised name.** -/
theorem findZone_eq_ok_iff_longestZone (valid : ZonesValid db) :
    db.findZone qname = .ok z ↔ LongestZone db (normalizeZone qname) z := by
  have named : ∀ w ∈ db.zones, w.name ≠ [] := fun w stored => ne_nil_of_valid (valid w stored)
  rw [Database.findZone_eq_ok_iff]
  refine and_congr_right fun stored => and_congr (mem_candidates_iff (named z stored)) ?_
  exact forall₂_congr fun w stored => by rw [mem_candidates_iff (named w stored)]

/-- It finds none exactly when none does. -/
theorem findZone_eq_notFound (valid : ZonesValid db)
    (outside : ∀ z ∈ db.zones, inZone (normalizeZone qname) z.name = false) :
    db.findZone qname = .error .notFound := by
  cases found : db.findZone qname with
  | ok z =>
      obtain ⟨stored, inside, -⟩ := (findZone_eq_ok_iff_longestZone valid).mp found
      rw [outside z stored] at inside
      cases inside
  | error e =>
      unfold Database.findZone at found
      dsimp only at found
      split at found
      · exact found.symm
      · split at found
        · cases found
        · exact found.symm

/-! ## Names that are normalised again -/

theorem zero_not_mem_spaceEncodings : ∀ space ∈ spaceEncodings, (0 : UInt8) ∉ space := by
  decide +kernel

/-- Trimming takes no zero byte away. -/
theorem zero_mem_normalizeZone_iff (lowered : Lowered qname) :
    (0 : UInt8) ∈ normalizeZone qname ↔ (0 : UInt8) ∈ qname := by
  obtain ⟨front, back, split, spaces⟩ := trimSpace_split qname
  have outside : (0 : UInt8) ∉ front ∧ (0 : UInt8) ∉ back := by
    refine ⟨fun early => ?_, fun late => ?_⟩
    · obtain ⟨space, member, occurs⟩ := spaces 0 (.inl early)
      exact zero_not_mem_spaceEncodings space member occurs
    · obtain ⟨space, member, occurs⟩ := spaces 0 (.inr late)
      exact zero_not_mem_spaceEncodings space member occurs
  have trimmed : (0 : UInt8) ∈ qname ↔ (0 : UInt8) ∈ trimSpace qname := by
    conv_lhs => rw [split]
    simp [outside]
  rw [trimmed, normalizeZone, lowered.trimSpace.toLower_eq]
  rcases trimSuffix_cases (trimSpace qname) (ascii ".") with dotted | ⟨-, same⟩
  · conv_rhs => rw [dotted]
    simp [ascii]
  · rw [same]

/-- The query fails for a name with a zero byte. -/
theorem queryZone_eq (lowered : Lowered qname) :
    queryZone db qname = if (0 : UInt8) ∈ qname then .error .database else db.findZone qname := by
  have zero : ((Database.candidates (normalizeZone qname)).any fun name => name.contains 0) = true ↔
      (0 : UInt8) ∈ qname := by
    rw [← zero_mem_normalizeZone_iff lowered]
    simp only [List.any_eq_true, List.contains_iff_mem]
    constructor
    · rintro ⟨name, member, occurs⟩
      obtain ⟨chain, named⟩ := Database.mem_chain_of_mem_candidates member
      rcases List.mem_cons.mp chain with rfl | above
      · exact occurs
      · have tail := (List.suffix_append _ _).trans (mem_ancestors_iff_suffix.mp above)
        exact tail.subset occurs
    · intro occurs
      have named : normalizeZone qname ≠ [] := List.ne_nil_of_mem occurs
      exact ⟨_, (mem_candidates_iff named).mpr (inZone_iff.mpr (.inl rfl)), occurs⟩
  rw [queryZone]
  by_cases occurs : (0 : UInt8) ∈ qname
  · rw [if_pos (zero.mpr occurs), if_pos occurs]
  · rw [if_neg (mt zero.mp occurs), if_neg occurs]

/-- A name in lower case that is settled loses the white space at its front. -/
theorem normalizeZone_of_settled (lowered : Lowered qname) (settled : Settled qname) :
    ∃ front, qname = front ++ normalizeZone qname ∧ dot ∉ front ∧
      (front = [] ↔ ¬ StartsWithSpace qname) := by
  obtain ⟨front, split, spaces⟩ := trimLeft_split spaceEncodings qname
  have undotted : ¬ ascii "." <:+ trimLeft spaceEncodings qname := fun ends =>
    settled.1 (ends.trans ⟨front, split.symm⟩)
  have trimmed : normalizeZone qname = trimLeft spaceEncodings qname := by
    rw [normalizeZone, trimSpace_eq_trimLeft settled.2, lowered.trimLeft.toLower_eq,
      trimSuffix_eq_self undotted]
  rw [trimmed]
  refine ⟨front, split, fun dotted => ?_, ?_⟩
  · obtain ⟨space, member, occurs⟩ := spaces dot dotted
    exact dot_not_mem_spaceEncodings space member occurs
  · constructor
    · rintro rfl ⟨space, member, leads⟩
      rw [List.nil_append] at split
      rw [split] at leads
      exact not_prefix_trimLeft spaceEncodings_ne_nil qname space member leads
    · intro plain
      have same : trimLeft spaceEncodings qname = qname :=
        trimLeft_eq_self fun space member leads => plain ⟨space, member, leads⟩
      rw [same] at split
      exact List.append_left_eq_self.mp split.symm

/-- Only a settled name is enclosed by a zone. -/
theorem settled_of_inZone (valid : validateName zone = .ok ()) (inside : inZone qname zone = true) :
    Settled qname := by
  have settled := (normalizeZone_of_valid valid List.suffix_rfl).2
  rcases inZone_iff.mp inside with rfl | above
  · exact settled
  · exact settled.of_suffix (ne_nil_of_valid valid) (mem_ancestors_iff_suffix.mp above)

/-- **A settled name is enclosed by the zones that enclose its normal form, but for one that
has this name where white space was trimmed before it.** -/
theorem inZone_normalizeZone_iff (lowered : Lowered qname) (settled : Settled qname)
    (valid : validateName zone = .ok ()) :
    inZone (normalizeZone qname) zone = true ↔
      inZone qname zone = true ∨ (StartsWithSpace qname ∧ zone = normalizeZone qname) := by
  obtain ⟨front, split, undotted, spaced⟩ := normalizeZone_of_settled lowered settled
  have above : ancestors dot qname = ancestors dot (normalizeZone qname) := by
    conv_lhs => rw [split]
    exact ancestors_append_of_not_mem undotted _
  rw [inZone_iff, inZone_iff, above]
  by_cases leading : StartsWithSpace qname
  · have other : qname ≠ zone := by
      rintro rfl
      have same := (normalizeZone_of_valid valid List.suffix_rfl).1
      rw [same] at split
      exact spaced.mp (List.append_left_eq_self.mp split.symm) leading
    tauto
  · have same : normalizeZone qname = qname := by
      have empty := spaced.mpr leading
      rw [empty, List.nil_append] at split
      exact split.symm
    rw [same]
    tauto

/-! ## Responses -/

/-- An authoritative response has a zone. -/
theorem findZone_of_aa {h : Handler} {req : Message} {q : Question} (single : req.questions = [q])
    (set : (h.handle req).aa = true) :
    ∃ z, h.resolver.findZone (questionName q.name) = .ok z := by
  have early : ∀ rcode, ¬ ((Message.newResponse req).setRcode rcode).aa = true := fun rcode => by
    rw [Message.aa_setRcode, Message.aa_newResponse]
    exact Bool.false_ne_true
  unfold Handler.handle at set
  dsimp only at set
  split at set
  · exact absurd set (early _)
  · rw [single] at set
    dsimp only at set
    split at set
    · exact absurd set (early _)
    · split at set
      · exact absurd set (early _)
      · split at set
        · exact absurd set (early _)
        · unfold Handler.handleQuestion at set
          dsimp only at set
          split at set
          · exact absurd set (early _)
          · split at set
            · exact absurd set (early _)
            · exact absurd set (early _)
            · rename_i zone found
              exact ⟨zone, found⟩

/-- `FindZone` finds the longest zone that encloses the name, and none if none does; a name
that no zone encloses is refused, and an authoritative response is about a name of its
zone. -/
structure FindsEnclosing (db : Database) (qname : Bytes) : Prop where
  found : ∀ z, queryZone db qname = .ok z ↔ LongestZone db qname z
  notFound : (∀ z ∈ db.zones, inZone qname z.name = false) →
    queryZone db qname = .error .notFound
  refused : ∀ (h : Handler) (req : Message) (q : Question), h.resolver.findZone = queryZone db →
    req.questions = [q] → questionName q.name = qname → Handler.Reaches req q →
      (∀ z ∈ db.zones, inZone qname z.name = false) → (h.handle req).rcode = rcodeRefused
  authoritative : ∀ (h : Handler) (req : Message) (q : Question),
    h.resolver.findZone = queryZone db → req.questions = [q] →
      questionName q.name = qname → (h.handle req).aa = true →
        ∃ z, queryZone db qname = .ok z ∧ inZone qname z.name = true

/-- The name holds no zero byte, and normalising it again leads to no zone that it does not
lead to itself. -/
structure LeadsNowhereElse (db : Database) (qname : Bytes) : Prop where
  zero : (0 : UInt8) ∉ qname
  ending : ¬ Settled qname → ∀ z ∈ db.zones, inZone (normalizeZone qname) z.name = false
  leading : StartsWithSpace qname → ∀ z ∈ db.zones, z.name ≠ normalizeZone qname

/-- Then the zones that enclose the two are the same. -/
theorem LeadsNowhereElse.inZone_iff (nowhere : LeadsNowhereElse db qname) (lowered : Lowered qname)
    (valid : ZonesValid db) (stored : z ∈ db.zones) :
    inZone (normalizeZone qname) z.name = true ↔ inZone qname z.name = true := by
  by_cases settled : Settled qname
  · rw [inZone_normalizeZone_iff lowered settled (valid z stored)]
    refine or_iff_left fun ⟨leading, same⟩ => nowhere.leading leading z stored same
  · refine iff_of_false ?_ fun inside => settled (settled_of_inZone (valid z stored) inside)
    rw [nowhere.ending settled z stored]
    exact Bool.false_ne_true

theorem longestZone_congr {name' : Bytes}
    (same : ∀ z ∈ db.zones, inZone name z.name = true ↔ inZone name' z.name = true) :
    LongestZone db name z ↔ LongestZone db name' z :=
  and_congr_right fun stored => and_congr (same z stored)
    (forall₂_congr fun w stored => by rw [same w stored])

/-- A name with a zero byte is refused by the database, so it leads to no answer at all. -/
theorem FindsEnclosing.zero_not_mem {qname : Bytes} (finds : FindsEnclosing db qname)
    (lowered : Lowered qname) : (0 : UInt8) ∉ qname := by
  intro occurs
  have failed : queryZone db qname = .error .database := by
    rw [queryZone_eq lowered, if_pos occurs]
  have outside : ∀ z ∈ db.zones, inZone qname z.name = false := by
    intro z stored
    rw [Bool.eq_false_iff]
    intro inside
    obtain ⟨longest, encloses⟩ := exists_longestZone stored inside
    rw [← finds.found, failed] at encloses
    cases encloses
  rw [finds.notFound outside] at failed
  cases failed

/-- A zone with the name that is left is the longest for it. -/
theorem longestZone_of_name {name : Bytes} {z : Zone} (stored : z ∈ db.zones)
    (named : z.name = name) :
    LongestZone db name z := by
  refine ⟨stored, Store.inZone_iff.mpr (.inl named.symm), fun w _ inside => ?_⟩
  rcases Store.inZone_iff.mp inside with same | above
  · rw [named, same]
  · rw [named]
    exact (length_lt_of_mem_ancestors above).le

theorem FindsEnclosing.leadsNowhereElse {qname : Bytes} (finds : FindsEnclosing db qname)
    (valid : ZonesValid db) (lowered : Lowered qname) : LeadsNowhereElse db qname := by
  have zero := finds.zero_not_mem lowered
  have same : ∀ z, LongestZone db (normalizeZone qname) z ↔ LongestZone db qname z := fun z => by
    rw [← findZone_eq_ok_iff_longestZone valid, ← finds.found, queryZone_eq lowered, if_neg zero]
  refine ⟨zero, fun unsettled z stored => ?_, fun leading z stored named => ?_⟩
  · rw [Bool.eq_false_iff]
    intro inside
    obtain ⟨longest, encloses⟩ := exists_longestZone stored inside
    obtain ⟨stored, inside, -⟩ := (same longest).mp encloses
    exact unsettled (settled_of_inZone (valid longest stored) inside)
  · -- the zone of that name is the longest for what is left, and does not enclose the name
    obtain ⟨-, inside, -⟩ := (same z).mp (longestZone_of_name stored named)
    have settled := settled_of_inZone (valid z stored) inside
    obtain ⟨front, split, undotted, spaced⟩ := normalizeZone_of_settled lowered settled
    rw [named] at inside
    rcases Store.inZone_iff.mp inside with whole | above
    · rw [← whole] at split
      exact spaced.mp (List.append_left_eq_self.mp split.symm) leading
    · rw [split, ancestors_append_of_not_mem undotted, ← split] at above
      exact not_mem_ancestors_self _ above

theorem LeadsNowhereElse.findsEnclosing {qname : Bytes} (nowhere : LeadsNowhereElse db qname)
    (valid : ZonesValid db) (lowered : Lowered qname) : FindsEnclosing db qname := by
  have query : queryZone db qname = db.findZone qname := by
    rw [queryZone_eq lowered, if_neg nowhere.zero]
  have found : ∀ z, queryZone db qname = .ok z ↔ LongestZone db qname z := fun z => by
    rw [query, findZone_eq_ok_iff_longestZone valid]
    exact longestZone_congr fun w stored => nowhere.inZone_iff lowered valid stored
  have notFound : (∀ z ∈ db.zones, inZone qname z.name = false) →
      queryZone db qname = .error .notFound := fun outside => by
    rw [query]
    refine findZone_eq_notFound valid fun z stored => ?_
    rw [Bool.eq_false_iff, Ne, nowhere.inZone_iff lowered valid stored, outside z stored]
    exact Bool.false_ne_true
  refine ⟨found, notFound, fun h req q resolver single named reaches outside => ?_,
    fun h req q resolver single named set => ?_⟩
  · have absent : h.resolver.findZone (questionName q.name) =
        .error .notFound := by
      rw [resolver, named]
      exact notFound outside
    rw [Handler.handle_of_notFound single reaches absent]
    exact (Message.rcode_setRcode ..).trans (by decide)
  · obtain ⟨z, served⟩ := findZone_of_aa single set
    rw [resolver, named] at served
    exact ⟨z, served, ((found z).mp served).2.1⟩

/-- **Zones answer for the names they enclose exactly when normalising the name again leads
nowhere else.** -/
theorem findsEnclosing_iff (valid : ZonesValid db) (name : Bytes) :
    FindsEnclosing db (questionName name) ↔
      LeadsNowhereElse db (questionName name) := by
  have lowered := lowered_toLower (trimSuffix name (ascii "."))
  exact ⟨fun finds => finds.leadsNowhereElse valid lowered,
    fun nowhere => nowhere.findsEnclosing valid lowered⟩

/-! ## A label with a space -/

/-- A query for the labels `a` and `org `, the second with a space at its end. -/
def spacedQuery : Bytes :=
  [0, 7, 0, 0, 0, 1, 0, 0, 0, 0, 0, 0, 1, 97, 4, 111, 114, 103, 32, 0, 0, 1, 0, 1]

def orgDB : Database := .ofZone (ascii "a.org")

def orgHandler : Handler :=
  { resolver := { orgDB.resolver none with findZone := queryZone orgDB }, rotate := fun _ => 0 }

/-- **A name outside the zone is answered with authority**: it is said not to exist. -/
theorem spacedQuery_authoritative :
    ∃ req q, parseMessage spacedQuery = .ok req ∧ req.questions = [q] ∧
      questionName q.name = ascii "a.org " ∧
      queryZone orgDB (ascii "a.org ") = .ok (.plain (ascii "a.org")) ∧
      inZone (ascii "a.org ") (Zone.plain (ascii "a.org")).name = false ∧
      (orgHandler.handle req).aa = true ∧ (orgHandler.handle req).rcode = rcodeNXDomain := by
  refine ⟨{ id := 7, qdCount := 1
            questions := [{ name := ascii "a.org ", type := typeA, cls := classIN }] },
    { name := ascii "a.org ", type := typeA, cls := classIN }, ?_⟩
  decide +kernel

theorem findsEnclosing_iff_orgZone :
    ZonesValid orgDB ∧ (FindsEnclosing orgDB (questionName (ascii "WWW.a.org.")) ↔
      LeadsNowhereElse orgDB (questionName (ascii "WWW.a.org."))) := by
  have valid : ZonesValid orgDB := by
    intro z stored
    rw [List.mem_singleton.mp stored]
    decide +kernel
  exact ⟨valid, findsEnclosing_iff valid _⟩

end ShardDNS.DNS

import Mathlib.Data.Finset.Max
import ShardDNS.DNS.Handler

/-!
# What a zone says about a name

`lookup` over the database. A name that owns records is found, or delegated when NS
records are among them; an empty non-terminal is found without records. For any other
name the walk over its ancestors stops at the closest encloser
(`encloserLoop_of_closest`): the longest ancestor that exists or is the apex. What
stands there decides: a delegation, a DNAME, or else the wildcard under it.

`ZoneSays` is this as a relation between the content of the zone and the result, and
`lookup` is that relation for every name and type (`lookup_eq_ok_iff`).

Where no delegation or DNAME lies between the name and the apex, `lookup` is the
existence and wildcard rule of the DNS (`lookup_eq_ok_iff_rfc4592`).
-/

set_option autoImplicit false

namespace ShardDNS.DNS

open Go LabelTree Store

/-- A handler that reads the database itself. Its lookups do not fail: that a lookup can fail, as
one for a name with a zero byte does, is left to the results about every resolver. -/
def Handler.serving (db : Database) (encode : Option Encoder) (rotate : Nat → UInt32) : Handler :=
  { resolver := db.resolver encode, rotate := rotate }

theorem Handler.findZone_serving (db : Database) (encode : Option Encoder) (rotate : Nat → UInt32) :
    (serving db encode rotate).resolver.findZone = db.findZone := rfl

theorem Handler.lookupName_serving (db : Database) (encode : Option Encoder) (rotate : Nat → UInt32)
    (zone name : Bytes) :
    (serving db encode rotate).resolver.lookupName zone name =
      .ok (db.lookupName encode zone name) :=
  rfl

/-! ## Records of a type -/

/-- The records of a type at a name. -/
def typedAt (db : Database) (encode : Option Encoder) (zone name : Bytes) (type : UInt16) :
    List Record :=
  filterType (db.recordsAt encode zone name) type

/-- A record of the zone has this name and type. -/
def OwnsType (db : Database) (zone name : Bytes) (type : UInt16) : Prop :=
  ∃ row ∈ db.records, row.zone = zone ∧ row.name = name ∧ typeCode row.type = type

instance (db : Database) (zone name : Bytes) (type : UInt16) :
    Decidable (OwnsType db zone name type) :=
  inferInstanceAs (Decidable (∃ row ∈ db.records, _))

variable {db : Database} {name zone encloser : Bytes} {qtype : UInt16}

theorem typedAt_ne_nil_iff {encode : Option Encoder} {type : UInt16} :
    typedAt db encode zone name type ≠ [] ↔ OwnsType db zone name type := by
  constructor
  · intro nonempty
    obtain ⟨r, member⟩ := List.exists_mem_of_ne_nil _ nonempty
    obtain ⟨stored, typed⟩ := List.mem_filter.mp member
    obtain ⟨row, selected, rfl⟩ := List.mem_map.mp stored
    obtain ⟨inTable, sameZone, sameName⟩ := Database.mem_selectAt.mp selected
    rw [type_scanRecord, decide_eq_true_eq] at typed
    exact ⟨row, inTable, sameZone, sameName, typed⟩
  · rintro ⟨row, inTable, sameZone, sameName, typed⟩
    refine List.ne_nil_of_mem (a := scanRecord encode row) (List.mem_filter.mpr ⟨?_, ?_⟩)
    · exact List.mem_map_of_mem (Database.mem_selectAt.mpr ⟨inTable, sameZone, sameName⟩)
    · rw [type_scanRecord, decide_eq_true_eq, typed]

theorem typedAt_eq_nil_iff {encode : Option Encoder} {type : UInt16} :
    typedAt db encode zone name type = [] ↔ ¬ OwnsType db zone name type := by
  rw [← typedAt_ne_nil_iff, not_not]

theorem OwnsType.owns {type : UInt16} (typed : OwnsType db zone name type) : db.Owns zone name := by
  obtain ⟨row, inTable, sameZone, sameName, -⟩ := typed
  exact ⟨row, inTable, sameZone, sameName⟩

/-! ## The closest encloser -/

/-- The name exists in the zone or is its apex. -/
def Encloses (db : Database) (zone name : Bytes) : Prop := name = zone ∨ db.NameExists zone name

instance (db : Database) (zone name : Bytes) : Decidable (Encloses db zone name) :=
  inferInstanceAs (Decidable (_ ∨ _))

/-- The longest proper ancestor of a name that exists in the zone or is its apex. -/
structure IsClosestEncloser (db : Database) (zone name encloser : Bytes) : Prop where
  ancestor : encloser ∈ ancestors dot name
  encloses : Encloses db zone encloser
  longest : ∀ other ∈ ancestors dot name, Encloses db zone other →
    other.length ≤ encloser.length

/-- A name with an encloser has a closest one. -/
theorem exists_closestEncloser (enclosed : ∃ a ∈ ancestors dot name, Encloses db zone a) :
    ∃ encloser, IsClosestEncloser db zone name encloser := by
  obtain ⟨a, member, encloses⟩ := enclosed
  obtain ⟨encloser, found, longest⟩ :=
    ((ancestors dot name).filter (Encloses db zone ·)).toFinset.exists_max_image List.length
      ⟨a, by simp [member, encloses]⟩
  simp only [List.toFinset_filter, decide_eq_true_eq, Finset.mem_filter, List.mem_toFinset,
    and_imp] at found longest
  exact ⟨encloser, found.1, found.2, longest⟩

theorem IsClosestEncloser.unique {first second : Bytes}
    (left : IsClosestEncloser db zone name first) (right : IsClosestEncloser db zone name second) :
    first = second :=
  ancestors_eq_of_length_eq (List.mem_cons_of_mem _ left.ancestor)
    (List.mem_cons_of_mem _ right.ancestor)
    (Nat.le_antisymm (right.longest first left.ancestor left.encloses)
      (left.longest second right.ancestor right.encloses))

/-- The apex or a name strictly below it. -/
theorem IsClosestEncloser.eq_or_below (closest : IsClosestEncloser db zone name encloser)
    (inside : zone ∈ ancestors dot name) : encloser = zone ∨ zone ∈ ancestors dot encloser := by
  rcases ancestors_comparable (List.mem_cons_of_mem _ closest.ancestor)
    (List.mem_cons_of_mem _ inside) with same | above | below
  · exact .inl same
  · -- the apex itself encloses, so nothing above it is closest
    have shorter := length_lt_of_mem_ancestors above
    have longer := closest.longest zone inside (.inl rfl)
    omega
  · exact .inr below

/-- Where the nearest ancestor does not enclose, the closest encloser is its own. -/
theorem IsClosestEncloser.step {parent : Bytes}
    (first : ancestors dot name = parent :: ancestors dot parent)
    (skipped : ¬ Encloses db zone parent) (closest : IsClosestEncloser db zone name encloser) :
    IsClosestEncloser db zone parent encloser where
  ancestor := by
    have member := closest.ancestor
    rw [first] at member
    rcases List.mem_cons.mp member with rfl | upper
    · exact absurd closest.encloses skipped
    · exact upper
  encloses := closest.encloses
  longest := fun other member found =>
    closest.longest other (by rw [first]; exact List.mem_cons_of_mem _ member) found

/-- A nearest ancestor that encloses is the closest encloser. -/
theorem IsClosestEncloser.eq_parent {parent : Bytes}
    (first : ancestors dot name = parent :: ancestors dot parent)
    (encloses : Encloses db zone parent) (closest : IsClosestEncloser db zone name encloser) :
    encloser = parent := by
  have member := closest.ancestor
  have longest := closest.longest parent (by simp [first]) encloses
  rw [first] at member
  rcases List.mem_cons.mp member with same | upper
  · exact same
  · have shorter := length_lt_of_mem_ancestors upper
    omega

/-- What the walk over the ancestors makes of the name it stops at. -/
def verdict (db : Database) (encode : Option Encoder) (zone encloser : Bytes) :
    Handler.Match ⊕ Bytes :=
  if encloser ≠ zone ∧ 0 < (typedAt db encode zone encloser typeNS).length then
    .inl { cutName := encloser, cut := typedAt db encode zone encloser typeNS }
  else
    match (typedAt db encode zone encloser typeDNAME).head? with
    | some dname =>
        if encloser ≠ zone then .inl { dname := some dname, dnameAt := encloser }
        else .inr encloser
    | none => .inr encloser

/-- What follows from the end of the walk: what was found on it, or else what the
wildcard under its last name holds. -/
def conclude (db : Database) (encode : Option Encoder) (zone : Bytes) :
    Handler.Match ⊕ Bytes → Handler.Match
  | .inl m => m
  | .inr encloser =>
      if db.Owns zone (ascii "*." ++ encloser) then
        { records := db.recordsAt encode zone (ascii "*." ++ encloser), found := true }
      else {}

namespace Handler

variable {db : Database} {encode : Option Encoder} {rotate : Nat → UInt32} {zone : Zone}

/-- One step of the walk: it stops at an ancestor that encloses the name. -/
theorem encloserLoop_succ {fuel i : Nat} (below : name ≠ zone.name)
    (cut : indexByte name dot = some i) :
    (serving db encode rotate).encloserLoop zone (fuel + 1) name =
      if Encloses db zone.name (name.drop (i + 1)) then
        .ok (verdict db encode zone.name (name.drop (i + 1)))
      else (serving db encode rotate).encloserLoop zone fuel (name.drop (i + 1)) := by
  rw [encloserLoop, if_neg below, cut]
  dsimp only
  generalize name.drop (i + 1) = parent
  have typed : ∀ type, filterType (db.lookupName encode zone.name parent).records type =
      typedAt db encode zone.name parent type := fun type => by
    rw [Database.records_lookupName, typedAt]
  simp only [lookupName_serving, ok_bind, typed, Database.exists_lookupName, verdict]
  by_cases encloses : Encloses db zone.name parent
  · rw [if_pos encloses, if_pos encloses.symm]
    by_cases ns : parent ≠ zone.name ∧ 0 < (typedAt db encode zone.name parent typeNS).length
    · rw [if_pos ns, if_pos ns]
    · rw [if_neg ns, if_neg ns]
      cases (typedAt db encode zone.name parent typeDNAME).head? with
      | some dname => exact (apply_ite Except.ok _ _ _).symm
      | none => rfl
  · have missing : ¬ db.Owns zone.name parent := fun owned => encloses (.inr (.inl owned))
    have bare : ∀ type, typedAt db encode zone.name parent type = [] := fun type =>
      typedAt_eq_nil_iff.mpr fun owned => missing owned.owns
    have onward : ¬ (db.NameExists zone.name parent ∨ parent = zone.name) := fun found =>
      encloses found.symm
    rw [if_neg encloses]
    simp only [bare, List.length_nil, Nat.lt_irrefl, and_false, if_false, List.head?_nil,
      if_neg onward]

variable (db encode rotate) in
/-- **The walk stops at the closest encloser.** -/
theorem encloserLoop_of_closest {fuel : Nat} (enough : name.length < fuel)
    (below : name ≠ zone.name) (closest : IsClosestEncloser db zone.name name encloser) :
    (serving db encode rotate).encloserLoop zone fuel name =
      .ok (verdict db encode zone.name encloser) := by
  induction fuel generalizing name with
  | zero => omega
  | succ fuel ih =>
      cases cut : indexByte name dot with
      | none =>
          have member := closest.ancestor
          rw [ancestors_of_indexByte_none cut] at member
          simp at member
      | some i =>
          have first := ancestors_of_indexByte_some cut
          rw [encloserLoop_succ below cut]
          generalize name.drop (i + 1) = parent at first
          split
          · rename_i encloses
            rw [closest.eq_parent first encloses]
          · rename_i skipped
            have shorter := length_lt_of_ancestors_eq first
            exact ih (by omega) (fun same => skipped (.inl same)) (closest.step first skipped)

variable (db encode rotate) in
/-- Without an encloser the walk goes on to the last ancestor, which does not exist
either. -/
theorem encloserLoop_of_unenclosed {fuel : Nat} (enough : name.length < fuel)
    (unenclosed : ∀ a ∈ name :: ancestors dot name, ¬ Encloses db zone.name a) :
    ∃ last, ¬ Encloses db zone.name last ∧
      (serving db encode rotate).encloserLoop zone fuel name = .ok (.inr last) := by
  induction fuel generalizing name with
  | zero => omega
  | succ fuel ih =>
      have bare := unenclosed name List.mem_cons_self
      have below : name ≠ zone.name := fun same => bare (.inl same)
      cases cut : indexByte name dot with
      | none => exact ⟨name, bare, by simp [encloserLoop, below, cut]⟩
      | some i =>
          have first := ancestors_of_indexByte_some cut
          rw [encloserLoop_succ below cut]
          generalize name.drop (i + 1) = parent at first
          rw [first] at unenclosed
          have shorter := length_lt_of_ancestors_eq first
          rw [if_neg (unenclosed parent (by simp))]
          exact ih (by omega) fun a member => unenclosed a (List.mem_cons_of_mem _ member)

/-! ## Lookup, case by case -/

/-- A delegated name is a cut, unless its DS records are asked for. -/
theorem lookup_of_delegated (below : name ≠ zone.name) (type : qtype ≠ typeDS)
    (delegated : OwnsType db zone.name name typeNS) :
    (serving db encode rotate).lookup zone name qtype =
      .ok { cutName := name, cut := typedAt db encode zone.name name typeNS } := by
  have records : 0 < (db.recordsAt encode zone.name name).length :=
    List.length_pos_iff.mpr fun empty => Database.recordsAt_eq_nil_iff.mp empty delegated.owns
  have ns : 0 < (filterType (db.recordsAt encode zone.name name) typeNS).length :=
    List.length_pos_iff.mpr (typedAt_ne_nil_iff.mpr delegated)
  simp only [lookup, serving, Database.resolver, ok_bind, Database.records_lookupName,
    records, below, type, ns, ne_eq, not_false_eq_true, and_self, if_true, typedAt]

/-- Any other name with records is found with them. -/
theorem lookup_of_owns (owned : db.Owns zone.name name)
    (own : name = zone.name ∨ qtype = typeDS ∨ ¬ OwnsType db zone.name name typeNS) :
    (serving db encode rotate).lookup zone name qtype =
      .ok { records := db.recordsAt encode zone.name name, found := true } := by
  have records : 0 < (db.recordsAt encode zone.name name).length :=
    List.length_pos_iff.mpr fun empty => Database.recordsAt_eq_nil_iff.mp empty owned
  have kept : ¬ (name ≠ zone.name ∧ qtype ≠ typeDS ∧
      0 < (filterType (db.recordsAt encode zone.name name) typeNS).length) := by
    rintro ⟨below, type, ns⟩
    have delegated := typedAt_ne_nil_iff.mp (List.length_pos_iff.mp ns)
    tauto
  simp only [lookup, serving, Database.resolver, ok_bind, Database.records_lookupName, records,
    if_true, if_neg kept]

/-- The apex and the empty non-terminals are found without records. -/
theorem lookup_of_bare (bare : ¬ db.Owns zone.name name)
    (found : db.HasDescendant zone.name name ∨ name = zone.name) :
    (serving db encode rotate).lookup zone name qtype = .ok { found := true } := by
  have records : db.recordsAt encode zone.name name = [] := Database.recordsAt_eq_nil_iff.mpr bare
  have flag : (db.lookupName encode zone.name name).hasChildren = true ∨ name = zone.name :=
    found.imp_left (Database.hasChildren_lookupName bare).mpr
  simp only [lookup, serving, Database.resolver, ok_bind, Database.records_lookupName, records,
    List.length_nil, Nat.lt_irrefl, if_false, if_pos flag]

/-- For any other name the walk decides, and the wildcard where it stops. -/
theorem lookup_of_missing {stopped : Match ⊕ Bytes} (missing : ¬ Encloses db zone.name name)
    (walk : (serving db encode rotate).encloserLoop zone (name.length + 1) name = .ok stopped) :
    (serving db encode rotate).lookup zone name qtype =
      .ok (conclude db encode zone.name stopped) := by
  have bare : ¬ db.Owns zone.name name := fun owned => missing (.inr (.inl owned))
  have records : db.recordsAt encode zone.name name = [] := Database.recordsAt_eq_nil_iff.mpr bare
  have flag : ¬ ((db.lookupName encode zone.name name).hasChildren = true ∨ name = zone.name) := by
    rw [Database.hasChildren_lookupName bare]
    exact fun found => missing (found.elim (fun child => .inr (.inr child)) .inl)
  rw [lookup, lookupName_serving, ok_bind, Database.records_lookupName, records,
    if_neg (by simp), if_neg flag, walk, ok_bind]
  cases stopped with
  | inl m => rfl
  | inr wild =>
      dsimp only [conclude]
      rw [lookupName_serving, ok_bind, Database.records_lookupName, apply_ite Except.ok]
      refine if_congr ?_ rfl rfl
      rw [List.length_pos_iff, Ne, Database.recordsAt_eq_nil_iff, not_not]

/-- No wildcard stands under a name that does not exist. -/
theorem not_owns_wildcard (missing : ¬ Encloses db zone.name name) :
    ¬ db.Owns zone.name (ascii "*." ++ name) := fun owned =>
  missing (.inr (.inr (Database.NameExists.of_mem_ancestors (.inl owned)
    (mem_ancestors.mpr ⟨ascii "*", rfl⟩))))

end Handler

/-! ## What a zone says -/

/-- Nothing at the encloser stands between the apex and the names below. -/
def Clear (db : Database) (zone encloser : Bytes) : Prop :=
  encloser = zone ∨ (¬ OwnsType db zone encloser typeNS ∧ ¬ OwnsType db zone encloser typeDNAME)

instance (db : Database) (zone encloser : Bytes) : Decidable (Clear db zone encloser) :=
  inferInstanceAs (Decidable (_ ∨ _))

/-- What the content of a zone says about a name, by the cases of the protocol. -/
inductive ZoneSays (db : Database) (encode : Option Encoder) (zone name : Bytes) (qtype : UInt16) :
    Handler.Match → Prop where
  | delegated : name ≠ zone → qtype ≠ typeDS → OwnsType db zone name typeNS →
      ZoneSays db encode zone name qtype
        { cutName := name, cut := typedAt db encode zone name typeNS }
  | existing : db.Owns zone name → name = zone ∨ qtype = typeDS ∨ ¬ OwnsType db zone name typeNS →
      ZoneSays db encode zone name qtype
        { records := db.recordsAt encode zone name, found := true }
  | bare : ¬ db.Owns zone name → Encloses db zone name →
      ZoneSays db encode zone name qtype { found := true }
  | belowCut {encloser : Bytes} : ¬ Encloses db zone name →
      IsClosestEncloser db zone name encloser → encloser ≠ zone →
        OwnsType db zone encloser typeNS →
          ZoneSays db encode zone name qtype
            { cutName := encloser, cut := typedAt db encode zone encloser typeNS }
  | belowDNAME {encloser : Bytes} {dname : Record} : ¬ Encloses db zone name →
      IsClosestEncloser db zone name encloser → encloser ≠ zone →
        ¬ OwnsType db zone encloser typeNS →
          (typedAt db encode zone encloser typeDNAME).head? = some dname →
            ZoneSays db encode zone name qtype { dname := some dname, dnameAt := encloser }
  | wildcard {encloser : Bytes} : ¬ Encloses db zone name →
      IsClosestEncloser db zone name encloser → Clear db zone encloser →
        db.Owns zone (ascii "*." ++ encloser) →
          ZoneSays db encode zone name qtype
            { records := db.recordsAt encode zone (ascii "*." ++ encloser), found := true }
  | nonexistent : ¬ Encloses db zone name →
      (∀ encloser, IsClosestEncloser db zone name encloser →
        Clear db zone encloser ∧ ¬ db.Owns zone (ascii "*." ++ encloser)) →
          ZoneSays db encode zone name qtype {}

variable {db : Database} {encode : Option Encoder}

theorem verdict_of_delegated (below : encloser ≠ zone)
    (delegates : OwnsType db zone encloser typeNS) :
    verdict db encode zone encloser =
      .inl { cutName := encloser, cut := typedAt db encode zone encloser typeNS } := by
  unfold verdict
  rw [if_pos ⟨below, List.length_pos_iff.mpr (typedAt_ne_nil_iff.mpr delegates)⟩]

theorem verdict_of_dname {dname : Record} (below : encloser ≠ zone)
    (own : ¬ OwnsType db zone encloser typeNS)
    (found : (typedAt db encode zone encloser typeDNAME).head? = some dname) :
    verdict db encode zone encloser = .inl { dname := some dname, dnameAt := encloser } := by
  simp [verdict, typedAt_eq_nil_iff.mpr own, found, below]

theorem verdict_of_clear (clear : Clear db zone encloser) :
    verdict db encode zone encloser = .inr encloser := by
  rcases clear with same | ⟨noNS, noDNAME⟩
  · unfold verdict
    rw [if_neg (by simp [same])]
    split <;> simp [same]
  · simp [verdict, typedAt_eq_nil_iff.mpr noNS, typedAt_eq_nil_iff.mpr noDNAME]

/-- The zone says something about every name. -/
theorem exists_zoneSays (db : Database) (encode : Option Encoder) (zone name : Bytes)
    (qtype : UInt16) : ∃ m, ZoneSays db encode zone name qtype m := by
  by_cases owned : db.Owns zone name
  · by_cases kept : name = zone ∨ qtype = typeDS ∨ ¬ OwnsType db zone name typeNS
    · exact ⟨_, .existing owned kept⟩
    · rw [not_or, not_or, not_not] at kept
      exact ⟨_, .delegated kept.1 kept.2.1 kept.2.2⟩
  · by_cases found : Encloses db zone name
    · exact ⟨_, .bare owned found⟩
    · by_cases enclosed : ∃ encloser, IsClosestEncloser db zone name encloser
      · obtain ⟨encloser, closest⟩ := enclosed
        by_cases clear : Clear db zone encloser
        · by_cases wild : db.Owns zone (ascii "*." ++ encloser)
          · exact ⟨_, .wildcard found closest clear wild⟩
          · exact ⟨_, .nonexistent found fun other otherClosest => by
              rw [otherClosest.unique closest]
              exact ⟨clear, wild⟩⟩
        · rw [Clear, not_or] at clear
          by_cases delegates : OwnsType db zone encloser typeNS
          · exact ⟨_, .belowCut found closest clear.1 delegates⟩
          · have redirects : OwnsType db zone encloser typeDNAME := by tauto
            obtain ⟨dname, rest, set⟩ : ∃ dname rest,
                typedAt db encode zone encloser typeDNAME = dname :: rest :=
              List.exists_cons_of_ne_nil (typedAt_ne_nil_iff.mpr redirects)
            exact ⟨_, .belowDNAME found closest clear.1 delegates (by rw [set]; rfl)⟩
      · exact ⟨_, .nonexistent found fun encloser closest => absurd ⟨encloser, closest⟩ enclosed⟩

namespace Handler

variable {rotate : Nat → UInt32} {zone : Zone}

theorem lookup_of_zoneSays (rotate : Nat → UInt32) {m : Match}
    (told : ZoneSays db encode zone.name name qtype m) :
    (serving db encode rotate).lookup zone name qtype = .ok m := by
  have walk : ∀ {encloser}, ¬ Encloses db zone.name name →
      IsClosestEncloser db zone.name name encloser →
        (serving db encode rotate).encloserLoop zone (name.length + 1) name =
          .ok (verdict db encode zone.name encloser) := fun missing closest =>
    encloserLoop_of_closest db encode rotate (Nat.lt_succ_self _) (fun same => missing (.inl same))
      closest
  cases told with
  | delegated below type delegates => exact lookup_of_delegated below type delegates
  | existing owned own => exact lookup_of_owns owned own
  | bare bare found =>
      refine lookup_of_bare bare (found.symm.imp_left fun found => found.resolve_left bare)
  | belowCut missing closest below delegates =>
      rw [lookup_of_missing missing (walk missing closest), verdict_of_delegated below delegates,
        conclude]
  | belowDNAME missing closest below own found =>
      rw [lookup_of_missing missing (walk missing closest), verdict_of_dname below own found,
        conclude]
  | wildcard missing closest clear wild =>
      rw [lookup_of_missing missing (walk missing closest), verdict_of_clear clear, conclude,
        if_pos wild]
  | nonexistent missing tame =>
      by_cases enclosed : ∃ a ∈ ancestors dot name, Encloses db zone.name a
      · obtain ⟨encloser, closest⟩ := exists_closestEncloser enclosed
        rw [lookup_of_missing missing (walk missing closest),
          verdict_of_clear (tame encloser closest).1, conclude, if_neg (tame encloser closest).2]
      · have unenclosed : ∀ a ∈ name :: ancestors dot name, ¬ Encloses db zone.name a := by
          intro a member found
          rcases List.mem_cons.mp member with rfl | upper
          · exact missing found
          · exact enclosed ⟨a, upper, found⟩
        obtain ⟨last, bare, walked⟩ :=
          encloserLoop_of_unenclosed db encode rotate (Nat.lt_succ_self _) unenclosed
        rw [lookup_of_missing missing walked, conclude, if_neg (not_owns_wildcard bare)]

/-- **`lookup` returns what the zone says**, for every name and type. -/
theorem lookup_eq_ok_iff {m : Match} :
    (serving db encode rotate).lookup zone name qtype = .ok m ↔
      ZoneSays db encode zone.name name qtype m := by
  refine ⟨fun looked => ?_, lookup_of_zoneSays rotate⟩
  obtain ⟨m', told⟩ := exists_zoneSays db encode zone.name name qtype
  rw [lookup_of_zoneSays rotate told, Except.ok.injEq] at looked
  rwa [← looked]

/-! ## Existence and wildcards -/

/-- The existence and wildcard rule of the DNS for a name in a zone. -/
inductive Rfc4592 (db : Database) (encode : Option Encoder) (zone name : Bytes) : Match → Prop where
  | existing : db.Owns zone name →
      Rfc4592 db encode zone name { records := db.recordsAt encode zone name, found := true }
  | bare : ¬ db.Owns zone name → name = zone ∨ db.HasDescendant zone name →
      Rfc4592 db encode zone name { found := true }
  | wildcard {encloser : Bytes} : name ≠ zone → ¬ db.NameExists zone name →
      IsClosestEncloser db zone name encloser → db.Owns zone (ascii "*." ++ encloser) →
        Rfc4592 db encode zone name
          { records := db.recordsAt encode zone (ascii "*." ++ encloser), found := true }
  | nonexistent {encloser : Bytes} : name ≠ zone → ¬ db.NameExists zone name →
      IsClosestEncloser db zone name encloser → ¬ db.Owns zone (ascii "*." ++ encloser) →
        Rfc4592 db encode zone name {}

/-- **`lookup` is the existence and wildcard rule.** Over any content of the zone, for a name in
it with no delegation or DNAME at a proper ancestor strictly below the apex, and that
is not itself delegated, or is the apex, or is asked for its DS records, `lookup`
returns exactly what the rule says. -/
theorem lookup_eq_ok_iff_rfc4592 (db : Database) (encode : Option Encoder) (rotate : Nat → UInt32)
    (zone : Zone) (name : Bytes) (qtype : UInt16) (m : Match)
    (inside : inZone name zone.name = true)
    (clear : ∀ a ∈ ancestors dot name, zone.name ∈ ancestors dot a →
      ¬ OwnsType db zone.name a typeNS ∧ ¬ OwnsType db zone.name a typeDNAME)
    (own : name = zone.name ∨ ¬ OwnsType db zone.name name typeNS ∨ qtype = typeDS) :
    (serving db encode rotate).lookup zone name qtype = .ok m ↔
      Rfc4592 db encode zone.name name m := by
  have kept : name = zone.name ∨ qtype = typeDS ∨ ¬ OwnsType db zone.name name typeNS := by tauto
  -- at a closest encloser nothing intervenes
  have undisturbed : ∀ {encloser}, name ≠ zone.name →
      IsClosestEncloser db zone.name name encloser → Clear db zone.name encloser :=
    fun below closest =>
      (closest.eq_or_below ((inZone_iff.mp inside).resolve_left below)).imp_right
        (clear _ closest.ancestor)
  rw [lookup_eq_ok_iff]
  constructor
  · intro told
    cases told with
    | delegated below type delegates => tauto
    | existing owned => exact .existing owned
    | bare bare found => exact .bare bare (found.imp_right fun found => found.resolve_left bare)
    | belowCut missing closest below delegates =>
        have apart := undisturbed (fun same => missing (.inl same)) closest
        exact absurd delegates (apart.resolve_left below).1
    | belowDNAME missing closest below own found =>
        have apart := undisturbed (fun same => missing (.inl same)) closest
        rw [typedAt_eq_nil_iff.mpr (apart.resolve_left below).2] at found
        cases found
    | wildcard missing closest _ wild =>
        rw [Encloses, not_or] at missing
        exact .wildcard missing.1 missing.2 closest wild
    | nonexistent missing tame =>
        rw [Encloses, not_or] at missing
        obtain ⟨encloser, closest⟩ := exists_closestEncloser
          ⟨zone.name, (inZone_iff.mp inside).resolve_left missing.1, .inl rfl⟩
        exact .nonexistent missing.1 missing.2 closest (tame encloser closest).2
  · intro rule
    cases rule with
    | existing owned => exact .existing owned kept
    | bare bare found => exact .bare bare (found.imp_right .inr)
    | wildcard below missing closest wild =>
        exact .wildcard (not_or.mpr ⟨below, missing⟩) closest (undisturbed below closest) wild
    | nonexistent below missing closest tame =>
        refine .nonexistent (not_or.mpr ⟨below, missing⟩) fun other otherClosest => ?_
        rw [otherClosest.unique closest]
        exact ⟨undisturbed below closest, tame⟩

/-- The zone `a.org` without records. -/
def bareContent : Database := .ofZone (ascii "a.org")

/-- A zone with a wildcard. -/
def wildcardContent : Database :=
  { bareContent with
    records :=
      [{ id := 1, zone := ascii "a.org", name := ascii "*.w.a.org"
         nameRev := reverseName (ascii "*.w.a.org"), type := ascii "TXT", ttl := 300
         rdata := ascii "any", reversed := rfl }]
    nextID := 2
    foreignKey := by decide
    idKey := by decide
    idBound := by decide }

theorem lookup_eq_ok_iff_rfc4592_wildcard :
    (serving wildcardContent none fun _ => 0).lookup (Zone.plain (ascii "a.org"))
    (ascii "x.w.a.org") typeTXT =
        .ok { records := wildcardContent.recordsAt none (ascii "a.org") (ascii "*.w.a.org")
              found := true } ↔
      Rfc4592 wildcardContent none (ascii "a.org") (ascii "x.w.a.org")
        { records := wildcardContent.recordsAt none (ascii "a.org") (ascii "*.w.a.org")
          found := true } :=
  lookup_eq_ok_iff_rfc4592 wildcardContent none (fun _ => 0) (Zone.plain (ascii "a.org"))
    (ascii "x.w.a.org")
    typeTXT _ (by decide) (by decide) (by decide)

end Handler

end ShardDNS.DNS

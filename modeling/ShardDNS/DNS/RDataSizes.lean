import ShardDNS.DNS.Chains
import ShardDNS.DNS.Server

/-!
# How long RDATA gets

The length of a record's RDATA is sent in two octets. Addresses, names and the SOA record
keep well below what these can count (`length_buildRData`, `length_soaRR`); texts, keys and
digests need not.

Along a chain of redirections the handler adds records of the first kind, and of the second
only where they are what was asked for. So a response can be packed exactly when the
question leads to no record of the second kind that is too long (`rdataFits_handle_iff`).
-/

set_option autoImplicit false

namespace ShardDNS.DNS

open Go Store

/-! ## Addresses and names -/

variable {text wire octets : Bytes} {r : Record} {rrs : List RR} {records : List Record}

theorem length_parseIPv4 {s : Bytes} (parsed : parseIPv4 s = some octets) : octets.length = 4 := by
  unfold parseIPv4 at parsed
  split at parsed
  · simp only [List.mapM_cons, List.mapM_nil, Option.bind_eq_bind,
      Option.bind_eq_some_iff] at parsed
    obtain ⟨a, -, _, ⟨b, -, _, ⟨c, -, _, ⟨d, -, _, ⟨⟩, ⟨⟩⟩, ⟨⟩⟩, ⟨⟩⟩, ⟨⟩⟩ := parsed
    rfl
  · cases parsed

theorem length_expandEllipsis {ip : Bytes} {ellipsis : Option Nat}
    (expanded : expandEllipsis ip ellipsis = some octets) : octets.length = 16 := by
  cases ellipsis with
  | none =>
      simp only [expandEllipsis] at expanded
      split at expanded
      · rename_i whole
        cases expanded
        exact whole
      · cases expanded
  | some place =>
      simp only [expandEllipsis] at expanded
      split at expanded
      · cases expanded
        simp only [List.length_append, List.length_take, List.length_replicate, List.length_drop]
        omega
      · cases expanded

/-- However the groups were read, what is returned is filled up to 16 octets. -/
theorem length_of_groups {read : Option (Bytes × Bytes × Option Nat)}
    (parsed : (read.bind fun groups =>
      if groups.1 = [] then expandEllipsis groups.2.1 groups.2.2 else none) = some octets) :
    octets.length = 16 := by
  obtain ⟨groups, -, parsed⟩ := Option.bind_eq_some_iff.mp parsed
  split at parsed
  · exact length_expandEllipsis parsed
  · cases parsed

theorem length_parseIPv6 {s : Bytes} (parsed : parseIPv6 s = some octets) : octets.length = 16 := by
  unfold parseIPv6 at parsed
  extract_lets zoneAt address at parsed
  by_cases open_ : zoneAt = some (s.length - 1)
  · rw [if_pos open_] at parsed
    cases parsed
  · rw [if_neg open_] at parsed
    by_cases leading : hasPrefix address [58, 58] = true
    · rw [if_pos leading] at parsed
      by_cases unspecified : address.length = 2
      · rw [if_pos unspecified] at parsed
        rw [← Option.some.inj parsed, List.length_replicate]
      · rw [if_neg unspecified] at parsed
        exact length_of_groups parsed
    · rw [if_neg leading] at parsed
      exact length_of_groups parsed

theorem parseAddr_cases {s : Bytes} {addr : Addr} (parsed : parseAddr s = some addr) :
    (∃ octets, parseIPv4 s = some octets ∧ addr = .v4 octets) ∨
      ∃ octets, parseIPv6 s = some octets ∧ addr = .v6 octets := by
  unfold parseAddr at parsed
  split at parsed
  · split at parsed
    · obtain ⟨octets, read, rfl⟩ := Option.map_eq_some_iff.mp parsed
      exact .inl ⟨octets, read, rfl⟩
    · split at parsed
      · obtain ⟨octets, read, rfl⟩ := Option.map_eq_some_iff.mp parsed
        exact .inr ⟨octets, read, rfl⟩
      · cases parsed
  · cases parsed

theorem length_buildA (built : buildA text = .ok wire) : wire.length = 4 := by
  unfold buildA at built
  split at built
  · rename_i octets parsed
    cases built
    obtain ⟨_, read, ⟨⟩⟩ | ⟨_, -, ⟨⟩⟩ := parseAddr_cases parsed
    exact length_parseIPv4 read
  · cases built

theorem length_buildAAAA (built : buildAAAA text = .ok wire) : wire.length = 16 := by
  unfold buildAAAA at built
  split at built
  · rename_i octets parsed
    split at built
    · cases built
    · cases built
      obtain ⟨_, -, ⟨⟩⟩ | ⟨_, read, ⟨⟩⟩ := parseAddr_cases parsed
      exact length_parseIPv6 read
  · cases built

theorem length_packName {buf name out : Bytes} (packed : packName buf name = .ok out) :
    out.length ≤ buf.length + maxNameLen := by
  obtain ⟨-, short, rfl⟩ := packName_eq_ok_iff.mp packed
  have size := length_encodeLabels (textLabels name)
  simp only [List.length_append, List.length_singleton]
  omega

theorem length_buildSingleName {rtype : UInt16} (built : buildSingleName rtype text = .ok wire) :
    wire.length ≤ maxNameLen := by
  unfold buildSingleName packNameRData at built
  split at built
  · cases built
  · cases packed : packName [] text with
    | error e =>
        rw [packed] at built
        cases built
    | ok out =>
        rw [packed] at built
        cases built
        simpa using length_packName packed

/-- The types whose records hold an address or a name that the handler goes by. -/
def shortTypes : List UInt16 := [typeA, typeAAAA, typeNS, typeCNAME, typeDNAME]

/-- **Addresses and names are short.** -/
theorem length_buildRData {rtype : UInt16} (short : rtype ∈ shortTypes)
    (built : buildRData rtype text = .ok wire) : wire.length ≤ maxNameLen := by
  simp only [shortTypes, List.mem_cons, List.not_mem_nil, or_false] at short
  unfold buildRData at built
  dsimp only at built
  rcases short with rfl | rfl | named
  · exact (length_buildA built).trans_le (by decide)
  · exact (length_buildAAAA built).trans_le (by decide)
  · have format : rtype = typeNS ∨ rtype = typeCNAME ∨ rtype = typeDNAME ∨ rtype = typePTR := by
      tauto
    have notA : rtype ≠ typeA := by rcases named with rfl | rfl | rfl <;> decide
    have notAAAA : rtype ≠ typeAAAA := by rcases named with rfl | rfl | rfl <;> decide
    rw [if_neg notA, if_neg notAAAA, if_pos format] at built
    exact length_buildSingleName built

theorem length_soaRR {zone : Zone} {soa : RR} (encoded : soaRR zone = .ok soa) :
    soa.rdata.length ≤ 0xFFFF := by
  simp only [soaRR, buildSOA, bind_eq_ok] at encoded
  obtain ⟨rdata, ⟨server, first, names, second, ⟨⟩⟩, ⟨⟩⟩ := encoded
  have serverLength := length_packName first
  have namesLength := length_packName second
  simp only [maxNameLen, List.length_nil] at serverLength namesLength
  simp only [List.foldl_cons, List.foldl_nil, List.length_append, putUint32, List.length_cons,
    List.length_nil]
  omega

/-- A text grows by an octet for every string of 255 bytes it is cut into. -/
theorem le_length_txtChunks {fuel : Nat} (enough : text.length ≤ fuel) :
    text.length + text.length / 255 ≤ (txtChunks fuel text).length := by
  induction fuel generalizing text with
  | zero =>
      rw [txtChunks, List.length_cons]
      omega
  | succ fuel ih =>
      rw [txtChunks]
      split
      · have shorter : (text.drop 255).length ≤ fuel := by
          rw [List.length_drop]
          omega
        have rest := ih shorter
        rw [List.length_drop] at rest
        simp only [List.cons_append, List.length_cons, List.length_append, List.length_take]
        omega
      · rw [List.length_cons]
        omega

/-! ## Records of a response -/

/-- The record is sent, and its RDATA is longer than its length field can say. -/
def Oversized (r : Record) : Prop :=
  typeCode r.type ≠ 0 ∧ ∃ wire, wireOf r = some wire ∧ 0xFFFF < wire.length

/-- The RDATA of a record that is sent. -/
theorem oversized_iff_rrOf {owner : Bytes} :
    Oversized r ↔ ∃ rr, rrOf owner r = some rr ∧ 0xFFFF < rr.rdata.length := by
  unfold Oversized rrOf
  dsimp only
  cases wireOf r with
  | none => simp
  | some wire => by_cases known : typeCode r.type = 0 <;> simp [known]

/-- RDATA that can be sent, for all the records of a section. -/
def SectionFits (rrs : List RR) : Prop := ∀ rr ∈ rrs, rr.rdata.length ≤ 0xFFFF

theorem SectionFits.append {first second : List RR} (before : SectionFits first)
    (behind : SectionFits second) : SectionFits (first ++ second) :=
  List.forall_mem_append.mpr ⟨before, behind⟩

theorem SectionFits.snoc {rr : RR} (before : SectionFits rrs) (short : rr.rdata.length ≤ 0xFFFF) :
    SectionFits (rrs ++ [rr]) :=
  before.append (List.forall_mem_singleton.mpr short)

theorem sectionFits_filterMap {owner : Bytes} (slim : ∀ r ∈ records, ¬ Oversized r) :
    SectionFits (records.filterMap (rrOf owner)) := by
  intro rr member
  obtain ⟨r, stored, sent⟩ := List.mem_filterMap.mp member
  exact Nat.not_lt.mp fun long => slim r stored (oversized_iff_rrOf.mpr ⟨rr, sent, long⟩)

theorem SectionFits.foldl_appendRR {owner : Bytes} (fits : SectionFits rrs)
    (slim : ∀ r ∈ records, ¬ Oversized r) :
    SectionFits (records.foldl (fun rrs r => appendRR rrs owner r) rrs) := by
  rw [DNS.foldl_appendRR]
  exact fits.append (sectionFits_filterMap slim)

theorem SectionFits.appendRR {rrs : List RR} {owner : Bytes} {r : Record} (fits : SectionFits rrs)
    (slim : ¬ Oversized r) : SectionFits (appendRR rrs owner r) := by
  rw [appendRR_eq]
  refine fits.append fun rr sent => Nat.not_lt.mp fun long => slim ?_
  exact oversized_iff_rrOf.mpr ⟨rr, Option.mem_toList.mp sent, long⟩

theorem Message.rdataFits_iff {m : Message} :
    m.RDataFits ↔ SectionFits m.answers ∧ SectionFits m.authority ∧ SectionFits m.additional := by
  rw [RDataFits, List.forall_mem_append, List.forall_mem_append, and_assoc]
  rfl

namespace Handler

variable {h : Handler} {qtype : UInt16} {zone : Zone} {name owner : Bytes} {m : Match}
  {resp : Message} {i : Nat}

theorem sectionFits_appendSet (fits : SectionFits rrs) (slim : ∀ r ∈ records, ¬ Oversized r) :
    SectionFits (h.appendSet i rrs owner records) :=
  fits.foldl_appendRR fun r member => slim r (List.mem_rotate.mp member)

/-- The records that the resolver returns and that hold addresses and names are short. -/
def NamesFit (h : Handler) : Prop :=
  ∀ zone name set, h.resolver.lookupName zone name = .ok set → ∀ r ∈ set.records,
    typeCode r.type ∈ shortTypes → ¬ Oversized r

/-- What `lookup` returns comes from the resolver. -/
structure Match.From (P : Record → Prop) (m : Match) : Prop where
  records : ∀ r ∈ m.records, P r
  cut : ∀ r ∈ m.cut, P r ∧ typeCode r.type = typeNS
  dname : ∀ r, m.dname = some r → P r ∧ typeCode r.type = typeDNAME

theorem mem_filterType {type : UInt16} :
    r ∈ filterType records type ↔ r ∈ records ∧ typeCode r.type = type := by
  simp [filterType]

section From

variable {P : Record → Prop} {set : NameSet} (stored : ∀ r ∈ set.records, P r)

include stored

theorem from_records : ({ records := set.records, found := true } : Match).From P :=
  ⟨stored, by simp, by simp⟩

theorem from_cut (cutName : Bytes) :
    ({ cutName := cutName, cut := filterType set.records typeNS } : Match).From P := by
  refine ⟨by simp, fun r member => ?_, by simp⟩
  obtain ⟨inside, type⟩ := mem_filterType.mp member
  exact ⟨stored r inside, type⟩

theorem from_dname {dname : Record} (dnameAt : Bytes)
    (first : (filterType set.records typeDNAME).head? = some dname) :
    ({ dname := some dname, dnameAt := dnameAt } : Match).From P := by
  refine ⟨by simp, by simp, fun r same => ?_⟩
  obtain ⟨inside, type⟩ := mem_filterType.mp (List.mem_of_head? first)
  rw [← Option.some.inj same]
  exact ⟨stored dname inside, type⟩

end From

theorem from_none {P : Record → Prop} (found : Bool) : ({ found := found } : Match).From P :=
  ⟨by simp, by simp, by simp⟩

section Returned

variable {P : Record → Prop} (returned : ∀ zone name set,
  h.resolver.lookupName zone name = .ok set → ∀ r ∈ set.records, P r)

include returned

theorem from_encloserLoop {fuel : Nat} (stopped : h.encloserLoop zone fuel name = .ok (.inl m)) :
    m.From P := by
  induction fuel generalizing name with
  | zero => cases stopped
  | succ fuel ih =>
      unfold encloserLoop at stopped
      split at stopped
      · cases stopped
      · split at stopped
        · cases stopped
        · simp only [bind_eq_ok] at stopped
          obtain ⟨aset, found, stopped⟩ := stopped
          split at stopped
          · cases stopped
            exact from_cut (returned _ _ _ found) _
          · split at stopped
            · rename_i dname first
              split at stopped
              · cases stopped
                exact from_dname (returned _ _ _ found) _ first
              · cases stopped
            · split at stopped
              · cases stopped
              · exact ih stopped

/-- **What `lookup` finds, the resolver has returned.** -/
theorem from_lookup (looked : h.lookup zone name qtype = .ok m) : m.From P := by
  simp only [lookup, bind_eq_ok] at looked
  obtain ⟨set, found, looked⟩ := looked
  split at looked
  · split at looked
    · cases looked
      exact from_cut (returned _ _ _ found) _
    · cases looked
      exact from_records (returned _ _ _ found)
  · split at looked
    · cases looked
      exact from_none _
    · obtain ⟨stopped, ended, looked⟩ := bind_eq_ok.mp looked
      split at looked
      · cases looked
        exact from_encloserLoop returned ended
      · obtain ⟨wset, wildcard, looked⟩ := bind_eq_ok.mp looked
        split at looked
        · cases looked
          exact from_records (returned _ _ _ wildcard)
        · cases looked
          exact from_none _

end Returned

/-! ## A pass -/

/-- The records a question is about, where it is answered. -/
def asked (qtype : UInt16) (zone : Zone) (name : Bytes) (m : Match) : List Record :=
  if qtype = typeANY then m.records
  else if name = zone.name ∧ qtype = typeSOA then []
  else filterType m.records qtype

theorem mem_records_of_asked (member : r ∈ asked qtype zone name m) : r ∈ m.records := by
  unfold asked at member
  split at member
  · exact member
  · split at member
    · cases member
    · exact (mem_filterType.mp member).1

theorem rdataFits_negative {found : Bool} (fits : resp.RDataFits) :
    (negative resp zone found).RDataFits := by
  have coded : (if found then resp else resp.setRcode rcodeNXDomain).RDataFits := by
    cases found
    · exact fits
    · exact fits
  unfold negative
  dsimp only
  generalize (if found = true then resp else resp.setRcode rcodeNXDomain) = resp at coded
  split
  · rename_i soa encoded
    obtain ⟨answers, authority, additional⟩ := Message.rdataFits_iff.mp coded
    have soaFits := length_soaRR encoded
    refine Message.rdataFits_iff.mpr ⟨answers, authority.snoc ?_, additional⟩
    split <;> exact soaFits
  · exact coded

/-- The addresses among the records that glue comes from. -/
theorem NamesFit.addresses (names : h.NamesFit) {zone name : Bytes} {set : NameSet}
    (found : h.resolver.lookupName zone name = .ok set) :
    ∀ r ∈ set.records.filter (fun a => decide (a.type = ascii "A" ∨ a.type = ascii "AAAA")),
      ¬ Oversized r := by
  intro r member
  obtain ⟨stored, type⟩ := List.mem_filter.mp member
  have code : typeCode r.type = typeA ∨ typeCode r.type = typeAAAA := by
    rcases of_decide_eq_true type with type | type
    · exact .inl (by rw [type]; decide +kernel)
    · exact .inr (by rw [type]; decide +kernel)
  refine names _ _ _ found r stored ?_
  rcases code with code | code <;> rw [code] <;> decide

theorem sectionFits_addGlueLoop (names : h.NamesFit) {seen : List Bytes} {additional : List RR}
    (fits : SectionFits additional) : SectionFits (h.addGlueLoop zone records seen additional) := by
  induction records generalizing seen additional with
  | nil => exact fits
  | cons r records ih =>
      unfold addGlueLoop
      dsimp only
      split
      · exact fits
      · split
        · exact ih fits
        · split
          · exact ih fits
          · split
            · exact ih fits
            · rename_i set found
              exact ih (fits.foldl_appendRR (names.addresses found))

theorem rdataFits_addGlue (names : h.NamesFit) (fits : resp.RDataFits) :
    (h.addGlue resp zone records).RDataFits := by
  obtain ⟨answers, authority, additional⟩ := Message.rdataFits_iff.mp fits
  exact Message.rdataFits_iff.mpr ⟨answers, authority, sectionFits_addGlueLoop names additional⟩

theorem rdataFits_addAdditional (names : h.NamesFit) (fits : resp.RDataFits) :
    (h.addAdditional resp zone qtype records).RDataFits := by
  unfold addAdditional
  split
  · exact rdataFits_addGlue names fits
  · exact fits

theorem rdataFits_answers (fits : resp.RDataFits) (answers : SectionFits rrs) :
    { resp with answers := rrs }.RDataFits :=
  Message.rdataFits_iff.mpr ⟨answers, (Message.rdataFits_iff.mp fits).2⟩

theorem rdataFits_referral (names : h.NamesFit) (fits : resp.RDataFits)
    (cut : ∀ r ∈ m.cut, ¬ Oversized r) : (h.referral resp zone m).RDataFits := by
  obtain ⟨answers, authority, additional⟩ := Message.rdataFits_iff.mp fits
  exact rdataFits_addGlue names
    (Message.rdataFits_iff.mpr ⟨answers, authority.foldl_appendRR cut, additional⟩)

theorem rdataFits_followDNAME {dname : Record} {dnameAt : Bytes} (fits : resp.RDataFits)
    (slim : ¬ Oversized dname) : (h.followDNAME resp name owner dnameAt dname).1.RDataFits := by
  have answers : SectionFits (appendRR resp.answers dnameAt dname) :=
    (Message.rdataFits_iff.mp fits).1.appendRR slim
  have first : { resp with answers := appendRR resp.answers dnameAt dname }.RDataFits :=
    rdataFits_answers fits answers
  unfold followDNAME
  dsimp only
  split
  · exact first
  · split
    · exact first
    · split
      · exact first
      · rename_i cname packed
        exact rdataFits_answers fits (answers.snoc ((length_packName packed).trans (by decide)))

theorem rdataFits_followCNAME {cname : Record} {cnames : List Record} (fits : resp.RDataFits)
    (slim : ∀ r ∈ cname :: cnames, ¬ Oversized r) :
    (h.followCNAME i resp owner cname cnames).1.RDataFits := by
  have appended := rdataFits_answers fits
    (sectionFits_appendSet (Message.rdataFits_iff.mp fits).1 slim : SectionFits
      (h.appendSet i resp.answers owner (cname :: cnames)))
  unfold followCNAME
  dsimp only
  split <;> exact appended

theorem rdataFits_answerANY (fits : resp.RDataFits) (slim : ∀ r ∈ m.records, ¬ Oversized r) :
    (h.answerANY i resp zone name owner m).RDataFits := by
  have appended : SectionFits (h.anyAnswers i resp zone name owner m) := by
    refine sectionFits_appendSet ((Message.rdataFits_iff.mp fits).1.append ?_) slim
    split
    · intro rr member
      cases encoded : soaRR zone with
      | error e =>
          rw [encoded] at member
          cases member
      | ok soa =>
          rw [encoded] at member
          rw [List.mem_singleton.mp member]
          exact length_soaRR encoded
    · exact nofun
  rw [answerANY_eq]
  dsimp only
  split
  · exact rdataFits_negative (rdataFits_answers fits appended)
  · exact rdataFits_answers fits appended

/-- A pass under neither a delegation nor a DNAME. -/
theorem rdataFits_answer (names : h.NamesFit) (fits : resp.RDataFits)
    (returned : ∀ r ∈ m.records, typeCode r.type ∈ shortTypes → ¬ Oversized r)
    (slim : ∀ r ∈ asked qtype zone name m, ¬ Oversized r) :
    (h.answer i resp zone name owner qtype m).1.RDataFits := by
  unfold answer
  dsimp only
  unfold asked at slim
  split
  · rename_i any
    rw [if_pos any] at slim
    exact rdataFits_answerANY fits slim
  · rename_i notANY
    rw [if_neg notANY] at slim
    split
    · split
      · exact fits
      · rename_i soa encoded
        exact rdataFits_answers fits ((Message.rdataFits_iff.mp fits).1.snoc (length_soaRR encoded))
    · rename_i notSOA
      rw [if_neg (by simpa using notSOA)] at slim
      split
      · rename_i r matched found
        rw [found] at slim
        exact rdataFits_addAdditional names
          (rdataFits_answers fits (sectionFits_appendSet (Message.rdataFits_iff.mp fits).1 slim))
      · split
        · rename_i cname cnames found
          refine rdataFits_followCNAME fits fun r member => ?_
          rw [← found] at member
          split at member
          · cases member
          · obtain ⟨stored, type⟩ := mem_filterType.mp member
            exact returned r stored (by rw [type]; decide)
        · exact rdataFits_negative fits

/-- **A pass keeps what can be sent, if what is asked for can be.** -/
theorem rdataFits_hop (names : h.NamesFit) (fits : resp.RDataFits)
    (slim : ∀ m, h.lookup zone name qtype = .ok m → m.cut = [] → m.dname = none →
      ∀ r ∈ asked qtype zone name m, ¬ Oversized r) :
    (h.hop i resp zone name owner qtype).1.RDataFits := by
  cases looked : h.lookup zone name qtype with
  | error e =>
      rw [hop, looked]
      exact fits
  | ok m =>
      have origin : m.From fun r => typeCode r.type ∈ shortTypes → ¬ Oversized r :=
        from_lookup names looked
      by_cases uncut : m.cut = []
      · cases found : m.dname with
        | some dname =>
            rw [hop_of_dname looked uncut found]
            obtain ⟨short, type⟩ := origin.dname dname found
            exact rdataFits_followDNAME fits (short (by rw [type]; decide))
        | none =>
            rw [hop_of_plain looked uncut found]
            exact rdataFits_answer names fits origin.records (slim m looked uncut found)
      · rw [hop_of_cut looked uncut]
        refine rdataFits_referral names fits fun r member => ?_
        obtain ⟨short, type⟩ := origin.cut r member
        exact short (by rw [type]; decide)

/-! ## Records that cannot be sent -/

theorem not_sectionFits_appendSet (member : r ∈ records) (oversized : Oversized r) :
    ¬ SectionFits (h.appendSet i rrs owner records) := by
  obtain ⟨rr, sent, long⟩ := oversized_iff_rrOf.mp oversized
  obtain ⟨start, appended⟩ := h.appendSet_eq i rrs owner records
  rw [appended]
  intro fits
  refine Nat.not_lt.mpr (fits rr (List.mem_append_right _ ?_)) long
  exact List.mem_filterMap.mpr ⟨r, List.mem_rotate.mpr member, sent⟩

/-- A record that is asked for and cannot be sent ends the loop. -/
theorem hop_of_oversized (looked : h.lookup zone name qtype = .ok m) (uncut : m.cut = [])
    (plain : m.dname = none) (member : r ∈ asked qtype zone name m) (oversized : Oversized r) :
    ∃ resp', h.hop i resp zone name owner qtype = (resp', .done) ∧ ¬ resp'.RDataFits := by
  rw [hop_of_plain looked uncut plain]
  unfold asked at member
  unfold answer
  dsimp only
  split at member
  · rename_i any
    rw [if_pos any]
    refine ⟨_, rfl, fun fits => ?_⟩
    have answers : (h.answerANY i resp zone name owner m).answers =
        h.anyAnswers i resp zone name owner m := by
      rw [answerANY_eq]
      dsimp only
      split
      · rw [answers_negative]
      · rfl
    have packs := (Message.rdataFits_iff.mp fits).1
    rw [answers, anyAnswers] at packs
    exact not_sectionFits_appendSet member oversized packs
  · rename_i notANY
    rw [if_neg notANY]
    split at member
    · cases member
    · rename_i notSOA
      rw [if_neg (by simpa using notSOA)]
      cases found : filterType m.records qtype with
      | nil =>
          rw [found] at member
          cases member
      | cons first matched =>
          rw [found] at member
          refine ⟨_, rfl, fun fits => ?_⟩
          have packs := (Message.rdataFits_iff.mp fits).1
          rw [answers_addAdditional] at packs
          exact not_sectionFits_appendSet member oversized packs

/-- The question leads, within the passes the loop makes, to a name where a record it asks
for cannot be sent. -/
def LeadsToOversized (h : Handler) (qtype : UInt16) (zone : Zone) (name : Bytes) : Prop :=
  ∃ (k : Nat) (last : Zone) (lastName : Bytes) (m : Match) (r : Record), k ≤ maxChain ∧
    Leads h qtype k zone name last lastName ∧ h.lookup last lastName qtype = .ok m ∧
    m.cut = [] ∧ m.dname = none ∧ r ∈ asked qtype last lastName m ∧ Oversized r

theorem rdataFits_newResponse (req : Message) : (Message.newResponse req).RDataFits := by
  obtain ⟨answers, authority, additional⟩ := Message.sections_newResponse req
  simp [Message.RDataFits, answers, authority, additional]

theorem rdataFits_serverFailure (resp : Message) : (serverFailure resp).RDataFits := by
  simp [Message.RDataFits, serverFailure, Message.clearAA, Message.setRcode]

/-- The loop that comes to such a name ends there, with a response that cannot be packed. -/
theorem resolve_of_oversized (leads : LeadsToOversized h qtype zone name) :
    ∃ resp', h.resolve resp zone name owner qtype = (resp', none) ∧ ¬ resp'.RDataFits := by
  obtain ⟨k, last, lastName, m, r, short, led, looked, uncut, plain, member, oversized⟩ := leads
  obtain ⟨added, lastOwner, -, loop⟩ := resolveLoop_of_leads led (maxChain - k + 1) resp owner
  have passes : maxChain - k + 1 + k = maxChain + 1 := by omega
  obtain ⟨resp', ends, unfit⟩ := hop_of_oversized looked uncut plain member oversized
  rw [passes, resolveLoop_of_done ends] at loop
  exact ⟨resp', loop, unfit⟩

/-- **A loop that does not makes a response that can be packed.** -/
theorem rdataFits_resolve (names : h.NamesFit) (fits : resp.RDataFits)
    (never : ¬ LeadsToOversized h qtype zone name) :
    (h.resolve resp zone name owner qtype).1.RDataFits := by
  refine resolveLoop_keeps (P := Message.RDataFits) (fun {k last lastName} short led i resp owner
    fits => rdataFits_hop names fits fun m looked uncut plain r member oversized => never ?_) fits
  exact ⟨k, last, lastName, m, r, Nat.lt_succ_iff.mp short, led, looked, uncut, plain, member,
    oversized⟩

/-- The question of a request is one that leads to a record that cannot be sent. -/
def AsksOversized (h : Handler) (req : Message) (q : Question) : Prop :=
  Reaches req q ∧ ∃ zone, h.resolver.findZone (questionName q.name) = .ok zone ∧
    LeadsToOversized h q.type zone (questionName q.name)

/-- **Every other question is answered with a message that can be packed.** -/
theorem rdataFits_handle_iff {req : Message} {q : Question} (names : h.NamesFit)
    (single : req.questions = [q]) : (h.handle req).RDataFits ↔ ¬ AsksOversized h req q := by
  by_cases reaches : Reaches req q
  · cases served : h.resolver.findZone (questionName q.name) with
    | error e =>
        have unserved : ¬ AsksOversized h req q := by
          rintro ⟨-, zone, found, -⟩
          rw [served] at found
          cases found
        refine iff_of_true ?_ unserved
        simp only [handle_eq_handleQuestion single reaches, handleQuestion, if_neg reaches.2.2.2,
          served]
        cases e <;> exact rdataFits_newResponse req
    | ok zone =>
        rw [handle_of_reaches single reaches served]
        by_cases leads : LeadsToOversized h q.type zone (questionName q.name)
        · obtain ⟨resp', resolved, unfit⟩ : ∃ resp', h.resolve (Message.newResponse req).setAA zone
              (questionName q.name) (trimSuffix q.name (ascii ".")) q.type =
                (resp', none) ∧ ¬ resp'.RDataFits := resolve_of_oversized leads
          rw [resolved]
          exact iff_of_false unfit (not_not.mpr ⟨reaches, zone, served, leads⟩)
        · have never : ¬ AsksOversized h req q := by
            rintro ⟨-, zone', found, leads'⟩
            rw [served] at found
            cases found
            exact leads leads'
          refine iff_of_true ?_ never
          have kept : (h.resolve (Message.newResponse req).setAA zone
              (questionName q.name) (trimSuffix q.name (ascii "."))
              q.type).1.RDataFits := rdataFits_resolve names (rdataFits_newResponse req) leads
          split
          · exact rdataFits_serverFailure _
          · rename_i resolved
            rwa [resolved] at kept
  · obtain ⟨answers, authority, additional⟩ := h.sections_handle_of_not_reaches
      (not_reaches_of_single single reaches)
    refine iff_of_true ?_ fun asks => reaches asks.1
    simp [Message.RDataFits, answers, authority, additional]

end Handler

end ShardDNS.DNS

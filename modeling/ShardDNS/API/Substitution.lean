import ShardDNS.API.Runs
import ShardDNS.DNS.Presentation
import ShardDNS.DNS.Redirection
import ShardDNS.DNS.Repetition

/-!
# Substitution by DNAME records

A DNAME record at `d` with the target `t` sends a name with the labels of `d` below it to
the same labels over those of `t`. `resolve` does this on the text of the names: it cuts
the text of `d` off, joins what is left to the text of `t`, and encodes the result.

On labels this is the substitution, up to case, exactly when `d` is the closest name above the
question that exists, is not the apex and does not delegate, the record is the first of its
DNAME records (`Redirects`), the target is not the root, and lower-casing and joining by dots
keep the labels they are given (`substitutes_iff`). The text of the root is a dot, so that the
joined text has an empty label, no CNAME record is made, and the question ends with the DNAME
record alone (`rootTarget_not_substituted`).
-/

set_option autoImplicit false

namespace ShardDNS.API

open Go DNS LabelTree Store

/-! ## The text that is joined -/

/-- Joined to a name that is not the root, a text keeps its labels in front of those of
the name, and the whole has no trailing dot. -/
theorem textLabels_joined {front target : Bytes} (fit : LabelsFit (textLabels target))
    (below : textLabels target ≠ []) :
    textLabels (toLower front ++ dot :: toLower (readBack target)) =
        (labels dot front ++ textLabels target).map toLower ∧
      wireLength (textLabels (toLower front ++ dot :: toLower (readBack target))) =
        (toLower front ++ dot :: toLower (readBack target)).length + 2 := by
  have named : trimSuffix target (ascii ".") ≠ [] := by
    intro root
    rw [textLabels, if_pos root] at below
    exact below rfl
  have back : readBack target = trimSuffix target (ascii ".") := if_neg named
  have parts : textLabels target = labels dot (trimSuffix target (ascii ".")) := if_neg named
  rw [parts] at fit
  rw [back, parts]
  generalize trimSuffix target (ascii ".") = text at fit
  have joined : labels dot (front ++ dot :: text) = labels dot front ++ labels dot text :=
    List.splitOn_append_cons_self _ _
  have unended : trimSuffix (front ++ dot :: text) (ascii ".") = front ++ dot :: text :=
    trimSuffix_eq_self (not_dot_suffix_of_fit joined (List.splitOn_ne_nil _ _) fit)
  have trimmed : trimSuffix (toLower (front ++ dot :: text)) (ascii ".") =
      toLower (front ++ dot :: text) :=
    (toLower_trimSuffix_dot _).symm.trans (congrArg toLower unended)
  rw [← toLower_append_dot]
  constructor
  · rw [textLabels_toLower, textLabels, unended, if_neg (by simp), joined]
  · rw [wireLength_textLabels (by rw [trimmed, Ne, toLower_eq_nil_iff]; simp), trimmed]

/-! ## The name asked for -/

theorem small_of_lowerByte : ∀ b : UInt8, lowerByte b < 0x80 → b < 0x80 := by decide +kernel

theorem dot_of_lowerByte : ∀ b : UInt8, lowerByte b = lowerByte dot → b = dot := by decide +kernel

/-- Labels that are those of a valid name up to case spell it in lower case. -/
theorem toLower_of_sameLabels {own : List Bytes} {name : Bytes} (valid : validateName name = .ok ())
    (same : own.map (List.map lowerByte) = labels dot name) :
    toLower ([dot].intercalate own) = name := by
  have lowered : own.map toLower = own.map (List.map lowerByte) := by
    refine List.map_congr_left fun label member => ?_
    have stored : label.map lowerByte ∈ labels dot name := by
      rw [← same]
      exact List.mem_map_of_mem member
    have plain : isASCII label = true := by
      rw [isASCII, List.all_eq_true]
      intro b occurs
      have byte := nameBytes_of_mem_labels valid stored _ (List.mem_map_of_mem occurs)
      exact decide_eq_true (small_of_lowerByte b (isNameByte_lower _ byte).1)
    rw [toLower, if_pos plain]
  rw [toLower_intercalate, lowered, same, labels, List.intercalate_splitOn]

theorem nameText_of_fit {names : List Bytes} (nonempty : names ≠ []) (fit : LabelsFit names) :
    nameText names = [dot].intercalate names := by
  obtain ⟨label, rest, rfl⟩ := List.exists_cons_of_ne_nil nonempty
  exact nameText_cons (List.length_pos_iff.mp (fit label List.mem_cons_self).1)

/-- In lower case a name below a stored one is that name, with the labels in front of it. -/
theorem toLower_below {front own : List Bytes} {name : Bytes} (valid : validateName name = .ok ())
    (same : own.map (List.map lowerByte) = labels dot name) (nonempty : front ≠ []) :
    toLower ([dot].intercalate (front ++ own)) =
      toLower ([dot].intercalate front) ++ dot :: name := by
  have below : own ≠ [] := by
    rintro rfl
    exact List.splitOn_ne_nil _ _ same.symm
  rw [intercalate_append_append nonempty below, toLower_append_dot,
    toLower_of_sameLabels valid same]

/-! ## Substitution -/

/-- Two lists of labels are the same but for the case of ASCII letters. -/
def SameLabels (first second : List Bytes) : Prop :=
  first.map (List.map lowerByte) = second.map (List.map lowerByte)

/-- A pass has put the labels of the target in place of the owner of a DNAME record: it has
appended the record, and a CNAME record of the question name with the TTL of the record and
with exactly the labels in front of the owner, up to case, and those of the target. The loop
goes on at the name with these labels. -/
def Substitutes (h : Handler) (resp : Message) (question : List Bytes) (row : RecordRow)
    (front : List Bytes) (result : Message × Handler.Step) : Prop :=
  ∃ (front' : List Bytes) (next : Bytes), SameLabels front' front ∧
    textLabels next = front' ++ textLabels row.rdata ∧
    result =
      ({ resp with
          answers := resp.answers ++
            [{ name := row.name, type := typeDNAME, cls := classIN, ttl := row.ttl.toUInt32
               rdata := encodeLabels (textLabels row.rdata) ++ [0] },
             { name := nameText question, type := typeCNAME, cls := classIN
               ttl := row.ttl.toUInt32
               rdata := encodeLabels (front' ++ textLabels row.rdata) ++ [0] }] },
        h.redirect next)

/-- Lower-casing and joining by dots keep the label, but for the case of ASCII letters. -/
def Kept (label : Bytes) : Prop :=
  dot ∉ label ∧ (toLower label).map lowerByte = label.map lowerByte

instance (label : Bytes) : Decidable (Kept label) := inferInstanceAs (Decidable (_ ∧ _))

theorem SameLabels.lengths {first second : List Bytes} (same : SameLabels first second) :
    first.map List.length = second.map List.length := by
  have both := congrArg (List.map List.length) same
  simpa [List.map_map, Function.comp_def] using both

theorem SameLabels.fit {first second : List Bytes} (same : SameLabels first second)
    (fit : LabelsFit second) : LabelsFit first := by
  have ofLengths : ∀ names : List Bytes, LabelsFit names ↔
      ∀ length ∈ names.map List.length, 0 < length ∧ length ≤ maxLabelLen := by
    simp [LabelsFit]
  rw [ofLengths, same.lengths, ← ofLengths]
  exact fit

theorem SameLabels.wireLength_append {first second : List Bytes} (same : SameLabels first second)
    (rest : List Bytes) : wireLength (first ++ rest) = wireLength (second ++ rest) := by
  have ofLengths : ∀ names : List Bytes, wireLength names =
      ((names.map List.length).map (1 + ·)).sum + 1 := by
    simp [wireLength, Function.comp_def]
  simp only [ofLengths, List.map_append, same.lengths]

/-- Kept labels are those that come out of the joined text. -/
theorem sameLabels_toLower_iff {front : List Bytes} (dotless : ∀ label ∈ front, dot ∉ label) :
    SameLabels (front.map toLower) front ↔ ∀ label ∈ front, Kept label := by
  rw [SameLabels, List.map_map, List.map_inj_left]
  exact ⟨fun same label member => ⟨dotless label member, same label member⟩,
    fun kept label member => (kept label member).2⟩

theorem SameLabels.dotless {first second : List Bytes} (same : SameLabels first second)
    (dotless : ∀ label ∈ first, dot ∉ label) : ∀ label ∈ second, dot ∉ label := by
  intro label member occurs
  have other : label.map lowerByte ∈ first.map (List.map lowerByte) := by
    rw [same]
    exact List.mem_map_of_mem member
  obtain ⟨label', member', spelled⟩ := List.mem_map.mp other
  have lowered : lowerByte dot ∈ label'.map lowerByte := by
    rw [spelled]
    exact List.mem_map_of_mem occurs
  obtain ⟨b, inside, is⟩ := List.mem_map.mp lowered
  rw [dot_of_lowerByte b is] at inside
  exact dotless label' member' inside

/-- If the joined text has the labels of the substitution, every label was kept. -/
theorem kept_of_parts {front front' target : List Bytes} (nonempty : front ≠ [])
    (same : SameLabels front' front) (dotless : ∀ label ∈ front', dot ∉ label)
    (parts : (labels dot ([dot].intercalate front) ++ target).map toLower = front' ++ target) :
    (∀ label ∈ front, Kept label) ∧ target.map toLower = target := by
  have clean := same.dotless dotless
  have lengths : (front.map toLower).length = front'.length := by
    simpa using (congrArg List.length same).symm
  rw [labels, List.splitOn_intercalate dot clean nonempty, List.map_append] at parts
  obtain ⟨first, second⟩ := List.append_inj parts lengths
  refine ⟨(sameLabels_toLower_iff clean).mp ?_, second⟩
  rw [first]
  exact same

/-- What `CreateRecord` has seen to for a DNAME record. -/
structure Redirecting (row : RecordRow) : Prop where
  owner : validateName row.name = .ok ()
  type : typeCode row.type = typeDNAME
  fit : LabelsFit (textLabels row.rdata)
  encodes : buildRData typeDNAME row.rdata = .ok (encodeLabels (textLabels row.rdata) ++ [0])
  named : rdataNames typeDNAME (encodeLabels (textLabels row.rdata) ++ [0]) = readBack row.rdata

theorem redirecting_of_accepted {md5 : Bytes → Bytes} {encode : Option Encoder} {db : Database}
    {now : Int} {request : CreateRecordRequest} {row : RecordRow}
    (accepted : Accepted md5 encode db now request)
    (type : typeCode request.record.type = typeDNAME) (stored : row.data = request.data) :
    Redirecting row := by
  obtain ⟨reply, done⟩ := accepted
  obtain ⟨valid, -, -⟩ := createRecord_eq_ok done
  obtain ⟨wire, built⟩ := valid.encodes
  have name : row.name = request.record.name := congrArg RecordData.name stored
  have sameType : row.type = request.record.type := congrArg RecordData.type stored
  have rdata : row.rdata = request.record.rdata := congrArg RecordData.rdata stored
  have trimmed : trimSpace request.record.rdata = request.record.rdata :=
    trimSpace_eq_self (not_startsWithSpace_trimSpace _) (not_endsWithSpace_trimSpace _)
  have single : buildRData typeDNAME request.record.rdata =
      buildSingleName typeDNAME (trimSpace request.record.rdata) := rfl
  rw [type] at built
  have packed : packNameRData [] request.record.rdata = .ok wire := by
    rw [single, trimmed, buildSingleName] at built
    exact (ite_eq_ok built).elim (fun fault => by cases fault.2) fun sent => sent.2
  obtain ⟨fit, -, written⟩ := packName_eq_ok_iff.mp (mapError_eq_ok.mp packed)
  obtain ⟨-, -, found⟩ := row_packNameRData packed
  rw [List.nil_append] at written
  subst written
  refine ⟨name ▸ valid.name, by rw [sameType, type], ?_, ?_, ?_⟩
  · rw [rdata]
    exact fit
  · rw [rdata]
    exact built
  · rw [rdata, rdataNames, if_pos (by decide)]
    exact found

section Rows

variable {enc : Option Encoder} {row : RecordRow} {front own : List Bytes} {h : Handler}
  {resp : Message}

theorem wireOf_redirecting (daemon : enc = none ∨ enc = some daemonEncoder)
    (row' : Redirecting row) :
    wireOf (scanRecord enc row) = some (encodeLabels (textLabels row.rdata) ++ [0]) := by
  rw [wireOf_scanRecord daemon, row'.type]
  exact sentRData_of_ok row'.encodes

theorem rrOf_redirecting (daemon : enc = none ∨ enc = some daemonEncoder) (row' : Redirecting row) :
    rrOf row.name (scanRecord enc row) =
      some { name := row.name, type := typeDNAME, cls := classIN, ttl := row.ttl.toUInt32
             rdata := encodeLabels (textLabels row.rdata) ++ [0] } := by
  simp only [rrOf, wireOf_redirecting daemon row', type_scanRecord, row'.type, ttl_scanRecord]
  rfl

/-- The name that the row redirects a question to. -/
theorem dnameTarget_redirecting_iff (daemon : enc = none ∨ enc = some daemonEncoder)
    (row' : Redirecting row) (nonempty : front ≠ [])
    (same : own.map (List.map lowerByte) = labels dot row.name) {next : Bytes} :
    Handler.dnameTarget (toLower ([dot].intercalate (front ++ own))) row.name (scanRecord enc row) =
        some next ↔
      next = toLower ([dot].intercalate front) ++ dot :: toLower (readBack row.rdata) ∧
        next.length ≤ 253 ∧ ∃ out, packName [] next = .ok out := by
  rw [Handler.dnameTarget_eq_some_iff, toLower_below row'.owner same nonempty,
    Handler.substitute_below, wireOf_redirecting daemon row', Option.getD_some, row'.named]
  exact and_iff_right (readBack_ne_nil row.rdata)

/-- The labels of that name. -/
theorem textLabels_of_dnameTarget (daemon : enc = none ∨ enc = some daemonEncoder)
    (row' : Redirecting row) (nonempty : front ≠ [])
    (same : own.map (List.map lowerByte) = labels dot row.name) {next : Bytes}
    (leads : Handler.dnameTarget (toLower ([dot].intercalate (front ++ own))) row.name
      (scanRecord enc row) = some next) :
    textLabels row.rdata ≠ [] ∧ LabelsFit (textLabels next) ∧
      textLabels next =
        (labels dot ([dot].intercalate front) ++ textLabels row.rdata).map toLower := by
  obtain ⟨rfl, -, out, packed⟩ := (dnameTarget_redirecting_iff daemon row' nonempty same).mp leads
  obtain ⟨fit, -, -⟩ := packName_eq_ok_iff.mp packed
  have below : textLabels row.rdata ≠ [] := by
    intro root
    have bare : toLower (readBack row.rdata) = ascii "." := by
      rw [← nameText_textLabels row'.fit, root]
      rfl
    rw [bare] at fit
    exact not_fit_joined_root _ fit
  exact ⟨below, fit, (textLabels_joined row'.fit below).1⟩

/-- Where every label is kept, the name has the labels of the substitution. -/
theorem dnameTarget_of_kept (daemon : enc = none ∨ enc = some daemonEncoder)
    (row' : Redirecting row) (nonempty : front ≠ []) (fit : LabelsFit front)
    (same : own.map (List.map lowerByte) = labels dot row.name)
    (short : wireLength (front ++ textLabels row.rdata) ≤ maxNameLen)
    (below : textLabels row.rdata ≠ []) (kept : ∀ label ∈ front, Kept label)
    (lower : (textLabels row.rdata).map toLower = textLabels row.rdata) :
    ∃ next, Handler.dnameTarget (toLower ([dot].intercalate (front ++ own))) row.name
        (scanRecord enc row) = some next ∧
      textLabels next = front.map toLower ++ textLabels row.rdata := by
  have dotless : ∀ label ∈ front, dot ∉ label := fun label member => (kept label member).1
  have spelled := (sameLabels_toLower_iff dotless).mpr kept
  obtain ⟨joined, length⟩ := @textLabels_joined ([dot].intercalate front) _ row'.fit below
  generalize text : toLower ([dot].intercalate front) ++ dot :: toLower (readBack row.rdata) = next
    at joined length
  have parts : textLabels next = front.map toLower ++ textLabels row.rdata := by
    rw [joined, labels, List.splitOn_intercalate dot dotless nonempty, List.map_append, lower]
  have fits : LabelsFit (textLabels next) := by
    rw [parts]
    exact (spelled.fit fit).append row'.fit
  have size : wireLength (textLabels next) ≤ maxNameLen := by
    rw [parts, spelled.wireLength_append]
    exact short
  have inText : next.length ≤ 253 := by
    rw [maxNameLen] at size
    omega
  exact ⟨next, (dnameTarget_redirecting_iff daemon row' nonempty same).mpr
    ⟨text.symm, inText, _, packName_eq_ok_iff.mpr ⟨fits, size, rfl⟩⟩, parts⟩

/-- Records that are sent alike are followed alike. -/
theorem followDNAME_of_sent {r r' : Record} {d : Bytes} {rr : RR} (sent : rrOf d r = some rr)
    (sent' : rrOf d r' = some rr) (name owner : Bytes) :
    h.followDNAME resp name owner d r = h.followDNAME resp name owner d r' := by
  obtain ⟨wire, wires, -, made⟩ := rrOf_eq_some_iff.mp sent
  obtain ⟨wire', wires', -, made'⟩ := rrOf_eq_some_iff.mp sent'
  have ttl : r.ttl.toUInt32 = r'.ttl.toUInt32 := congrArg RR.ttl (made.symm.trans made')
  have same : wire = wire' := congrArg RR.rdata (made.symm.trans made')
  simp only [Handler.followDNAME_eq, Handler.substitute, appendRR_eq, sent, sent', wires,
    wires', same, ttl]

/-- **When the text of the names gives the substitution**: the target is not the root, each label
in front is kept, and the target is in lower case. -/
theorem substitutes_followDNAME_iff (daemon : enc = none ∨ enc = some daemonEncoder)
    (row' : Redirecting row) (nonempty : front ≠ []) (fit : LabelsFit (front ++ own))
    (owner : own.map (List.map lowerByte) = labels dot row.name)
    (short : wireLength (front ++ textLabels row.rdata) ≤ maxNameLen) :
    Substitutes h resp (front ++ own) row front
        (h.followDNAME resp (toLower (nameText (front ++ own))) (nameText (front ++ own)) row.name
          (scanRecord enc row)) ↔
      textLabels row.rdata ≠ [] ∧ (∀ label ∈ front, Kept label) ∧
        (textLabels row.rdata).map toLower = textLabels row.rdata := by
  have frontFit : LabelsFit front := fun label member => fit label (List.mem_append_left _ member)
  have text : nameText (front ++ own) = [dot].intercalate (front ++ own) :=
    nameText_of_fit (by simp [nonempty]) fit
  have sent := rrOf_redirecting daemon row'
  rw [text]
  constructor
  · rintro ⟨front', next', same, parts', passed⟩
    cases leads : Handler.dnameTarget (toLower ([dot].intercalate (front ++ own))) row.name
        (scanRecord enc row) with
    | none =>
        -- the pass ends with the DNAME record alone
        obtain ⟨resp', followed, answers, -⟩ :=
          Handler.followDNAME_of_no_target h resp ([dot].intercalate (front ++ own)) leads
        rw [followed] at passed
        have both := congrArg (fun result => result.1.answers.length) passed
        simp [answers, sent] at both
    | some next =>
        obtain ⟨below, nextFit, parts⟩ := textLabels_of_dnameTarget daemon row' nonempty owner leads
        rw [Handler.followDNAME_of_target h resp ([dot].intercalate (front ++ own)) leads, sent]
          at passed
        have written : encodeLabels (textLabels next) ++ [0] =
            encodeLabels (front' ++ textLabels row.rdata) ++ [0] := by
          have both := List.append_cancel_left (congrArg (fun result => result.1.answers) passed)
          exact congrArg RR.rdata (List.cons.inj (List.cons.inj both).2).1
        have found := eq_of_encodeLabels_eq nextFit ((same.fit frontFit).append row'.fit) written
        have dotless : ∀ label ∈ front', dot ∉ label := by
          intro label member
          refine @dot_not_mem_of_mem_textLabels next label ?_
          rw [found]
          exact List.mem_append_left _ member
        exact ⟨below, kept_of_parts nonempty same dotless (parts.symm.trans found)⟩
  · rintro ⟨below, kept, lower⟩
    obtain ⟨next, leads, parts⟩ :=
      dnameTarget_of_kept daemon row' nonempty frontFit owner short below kept lower
    refine ⟨front.map toLower, next, ?_, parts, ?_⟩
    · exact (sameLabels_toLower_iff fun label member => (kept label member).1).mpr kept
    · rw [Handler.followDNAME_of_target h resp ([dot].intercalate (front ++ own)) leads,
        sent, parts, ttl_scanRecord, text]
      rfl

end Rows

/-- **The content sends the question to the row**: its owner is the closest name above the
question name that exists in the zone, is not the apex and delegates nothing, and the row is the
first DNAME record there, or is sent as that is. -/
structure Redirects (db : Database) (enc : Option Encoder) (zone qname : Bytes) (row : RecordRow) :
    Prop where
  missing : ¬ Encloses db zone qname
  closest : IsClosestEncloser db zone qname row.name
  below : row.name ≠ zone
  undelegated : ¬ OwnsType db zone row.name typeNS
  first : ∃ r, (typedAt db enc zone row.name typeDNAME).head? = some r ∧
    rrOf row.name r = rrOf row.name (scanRecord enc row)

/-- A DNAME record of an ancestor is answered only where a lookup finds it. -/
theorem found_of_answered {h : Handler} {zone : Zone} {owner : Bytes} {qtype : UInt16}
    {m : Handler.Match} {d : RR} {start : Nat}
    (looked : h.lookup zone (toLower owner) qtype = .ok m)
    (above : d.name ∈ ancestors dot (toLower owner)) (type : d.type = typeDNAME)
    (answered : d ∈ (Pass.mk qtype zone (toLower owner) owner m).group.rrs start) :
    ∃ r, m.dname = some r ∧ rrOf m.dnameAt r = some d := by
  have source : (Pass.mk qtype zone (toLower owner) owner m).Source d :=
    (Handler.mem_rrs_iff looked).mp (Group.mem_rrs.mpr (Group.mem_rrs.mp answered))
  cases source with
  | dname r found sent => exact ⟨r, found, sent⟩
  | synthesised r next found leads same =>
      rw [same] at type
      cases type
  | soa answers built =>
      rw [(Pass.owner_and_type_of_soaRR built).2] at type
      cases type
  | stored member =>
      obtain ⟨r, -, sent⟩ := List.mem_filterMap.mp member
      exact absurd (name_of_rrOf sent).symm (Handler.ne_of_mem_ancestors_toLower above)

/-- A pass for such a question follows the row. -/
theorem hop_of_redirects {content : Database} {enc : Option Encoder} {rotate : Nat → UInt32}
    {zone : Zone} {qname : Bytes} {row : RecordRow} {rr : RR}
    (redirects : Redirects content enc zone.name qname row)
    (sent : rrOf row.name (scanRecord enc row) = some rr) (i : Nat) (resp : Message) (owner : Bytes)
    (qtype : UInt16) :
    (Handler.serving content enc rotate).hop i resp zone qname owner qtype =
      (Handler.serving content enc rotate).followDNAME resp qname owner row.name
        (scanRecord enc row) := by
  obtain ⟨r, first, same⟩ := redirects.first
  have told : ZoneSays content enc zone.name qname qtype { dname := some r, dnameAt := row.name } :=
    .belowDNAME redirects.missing redirects.closest redirects.below redirects.undelegated first
  rw [Handler.hop_of_dname (Handler.lookup_of_zoneSays rotate told) rfl rfl]
  exact followDNAME_of_sent (same.trans sent) sent qname owner

/-- Only such a question is answered with the row. -/
theorem redirects_of_answered (rotate : Nat → UInt32) {content : Database} {enc : Option Encoder}
    {zone : Zone} {owner : Bytes} {qtype : UInt16} {row : RecordRow} {m : Handler.Match} {rr : RR}
    {start : Nat} (told : ZoneSays content enc zone.name (toLower owner) qtype m)
    (above : row.name ∈ ancestors dot (toLower owner)) (type : rr.type = typeDNAME)
    (sent : rrOf row.name (scanRecord enc row) = some rr)
    (answered : rr ∈ (Pass.mk qtype zone (toLower owner) owner m).group.rrs start) :
    Redirects content enc zone.name (toLower owner) row := by
  have name := name_of_rrOf sent
  obtain ⟨r, found, sent'⟩ := found_of_answered (Handler.lookup_of_zoneSays rotate told)
    (name.symm ▸ above) type answered
  have same : m.dnameAt = row.name := (name_of_rrOf sent').symm.trans name
  cases told with
  | belowDNAME missing closest below own first =>
      cases found
      cases same
      exact ⟨missing, closest, below, own, r, first, sent'.trans sent.symm⟩
  | delegated | existing | bare | belowCut | wildcard | nonexistent => cases found

/-- **When substitution is exact.** Let `CreateRecord` have accepted a DNAME record, let a row
hold it, and let the labels of a question be `front`, one or more, followed by those of its
owner up to case, so that the substituted name fits in 255 octets. Over any content a pass for
the question substitutes exactly when the content sends it to the row, the target is not the
root, each label in front is kept, and the target is in lower case. -/
theorem substitutes_iff (md5 : Bytes → Bytes) (encode enc : Option Encoder)
    (daemon : enc = none ∨ enc = some daemonEncoder) (db content : Database) (now : Int)
    (request : CreateRecordRequest) (row : RecordRow) (rotate : Nat → UInt32) (i : Nat)
    (resp : Message) (zone : Zone) (qtype : UInt16) (front own : List Bytes)
    (accepted : Accepted md5 encode db now request)
    (type : typeCode request.record.type = typeDNAME) (stored : row.data = request.data)
    (nonempty : front ≠ []) (fit : LabelsFit (front ++ own))
    (owner : own.map (List.map lowerByte) = labels dot row.name)
    (short : wireLength (front ++ textLabels row.rdata) ≤ maxNameLen) :
    Substitutes (Handler.serving content enc rotate) resp (front ++ own) row front
        ((Handler.serving content enc rotate).hop i resp zone (toLower (nameText (front ++ own)))
          (nameText (front ++ own)) qtype) ↔
      Redirects content enc zone.name (toLower (nameText (front ++ own))) row ∧
        textLabels row.rdata ≠ [] ∧ (∀ label ∈ front, Kept label) ∧
          (textLabels row.rdata).map toLower = textLabels row.rdata := by
  have row' := redirecting_of_accepted accepted type stored
  have sent := rrOf_redirecting daemon row'
  by_cases redirects : Redirects content enc zone.name (toLower (nameText (front ++ own))) row
  · rw [hop_of_redirects redirects sent, and_iff_right redirects]
    exact substitutes_followDNAME_iff daemon row' nonempty fit owner short
  · refine iff_of_false ?_ fun both => redirects both.1
    rintro ⟨front', next, -, -, passed⟩
    obtain ⟨m, told⟩ := exists_zoneSays content enc zone.name
      (toLower (nameText (front ++ own))) qtype
    have added := Handler.answers_hop_eq (Handler.serving content enc rotate) i resp
      (nameText (front ++ own)) (Handler.lookup_of_zoneSays rotate told)
    rw [passed] at added
    refine redirects (redirects_of_answered rotate told ?_ rfl sent
      (List.append_cancel_left added ▸ List.mem_cons_self))
    rw [nameText_of_fit (by simp [nonempty]) fit, toLower_below row'.owner owner nonempty]
    exact mem_ancestors.mpr ⟨_, rfl⟩

/-! ## A redirection to the root -/

/-- A call for a DNAME record at `old.b.org`. -/
def redirectingRequest (target : Bytes) : CreateRecordRequest :=
  { zone := ascii "b.org", name := ascii "old", type := ascii "DNAME", rdata := target }

/-- What is stored after a call for the zone. -/
def redirectingZones : Database := run id none [(1, .createZone { name := ascii "b.org" })]

/-- And after the one for the record. -/
def redirectingContent (target : Bytes) : Database :=
  after id none redirectingZones 2 (.createRecord (redirectingRequest target))

/-- The zone, its serial as the record has left it. -/
def redirectingZone : Zone := { Zone.plain (ascii "b.org") with serial := 2 }

def redirectingRow (target : Bytes) : RecordRow :=
  { id := 1, zone := ascii "b.org", name := ascii "old.b.org"
    nameRev := reverseName (ascii "old.b.org"), type := ascii "DNAME", ttl := 300
    rdata := target, reversed := rfl }

/-- The labels of `x.old.b.org`. -/
def redirectedName : List Bytes := [ascii "x"] ++ [ascii "old", ascii "b", ascii "org"]

theorem accepted_of_toBool {md5 : Bytes → Bytes} {encode : Option Encoder} {db : Database}
    {now : Int} {request : CreateRecordRequest}
    (done : (createRecord db md5 encode now request).toBool = true) :
    Accepted md5 encode db now request := by
  cases made : createRecord db md5 encode now request with
  | error e =>
      rw [made] at done
      cases done
  | ok reply => exact ⟨reply, made⟩

/-- A DNAME record with the root as its target is accepted, and the question for a name below
it is answered with that record alone. -/
theorem rootTarget_not_substituted :
    Accepted id none redirectingZones 2 (redirectingRequest (ascii ".")) ∧
      (redirectingContent (ascii ".")).records = [redirectingRow (ascii ".")] ∧
      (redirectingContent (ascii ".")).findZone (nameText redirectedName) = .ok redirectingZone ∧
      (Handler.serving (redirectingContent (ascii ".")) none fun _ => 0).lookup redirectingZone
          (toLower (nameText redirectedName)) typeA =
        .ok
          { dname := some (scanRecord none (redirectingRow (ascii ".")))
            dnameAt := ascii "old.b.org" } ∧
      wireLength ([ascii "x"] ++ textLabels (ascii ".")) ≤ maxNameLen ∧
      ∀ resp, ¬ Substitutes (Handler.serving (redirectingContent (ascii ".")) none fun _ => 0) resp
        redirectedName (redirectingRow (ascii ".")) [ascii "x"]
        ((Handler.serving (redirectingContent (ascii ".")) none fun _ => 0).hop 0 resp
          redirectingZone
          (toLower (nameText redirectedName)) (nameText redirectedName) typeA) := by
  have looked : (Handler.serving (redirectingContent (ascii ".")) none fun _ => 0).lookup
      redirectingZone (toLower (nameText redirectedName)) typeA =
        .ok { dname := some (scanRecord none (redirectingRow (ascii ".")))
              dnameAt := ascii "old.b.org" } := by decide +kernel
  refine ⟨accepted_of_toBool (by decide +kernel), by decide +kernel, by decide +kernel, looked,
    by decide +kernel, ?_⟩
  rintro resp ⟨front, next, -, -, passed⟩
  have stays : Handler.dnameTarget (toLower (nameText redirectedName)) (ascii "old.b.org")
      (scanRecord none (redirectingRow (ascii "."))) = none := by decide +kernel
  obtain ⟨resp', followed, answers, -⟩ := Handler.followDNAME_of_no_target
    (Handler.serving (redirectingContent (ascii ".")) none fun _ => 0) resp
    (nameText redirectedName) stays
  rw [Handler.hop_of_dname looked rfl rfl, followed] at passed
  have both := congrArg (fun result => result.1.answers.length) passed
  have one :
      ((rrOf (ascii "old.b.org") (scanRecord none (redirectingRow (ascii ".")))).toList).length =
      1 := by decide +kernel
  simp [answers, one] at both

/-- With another target the question is answered with the substituted name. -/
theorem substitutes_iff_new :
    Substitutes (Handler.serving (redirectingContent (ascii "new.org.")) none fun _ => 0) {}
      redirectedName (redirectingRow (ascii "new.org.")) [ascii "x"]
      ((Handler.serving (redirectingContent (ascii "new.org.")) none fun _ => 0).hop 0 {}
        redirectingZone (toLower (nameText redirectedName)) (nameText redirectedName) typeA) :=
  (substitutes_iff id none none (.inl rfl) redirectingZones
    (redirectingContent (ascii "new.org.")) 2
    (redirectingRequest (ascii "new.org.")) (redirectingRow (ascii "new.org.")) (fun _ => 0) 0 {}
    redirectingZone typeA [ascii "x"] [ascii "old", ascii "b", ascii "org"]
    (accepted_of_toBool (by decide +kernel)) (by decide +kernel) (by decide +kernel) (by decide)
    (by decide +kernel) (by decide +kernel) (by decide +kernel)).mpr
    ⟨⟨by decide +kernel, ⟨by decide +kernel, by decide +kernel, by decide +kernel⟩,
      by decide +kernel,
      by decide +kernel, scanRecord none (redirectingRow (ascii "new.org.")),
      by decide +kernel, rfl⟩,
      by decide +kernel, by decide +kernel, by decide +kernel⟩

end ShardDNS.API

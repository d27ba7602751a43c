import ShardDNS.DNS.Handler

/-!
# The passes of resolution

What a pass of the resolution loop does depends on what `lookup` found. A
delegation ends the loop with a referral (`hop_of_cut`). Otherwise either a
redirection applies, and `target` is the name it leads to: the pass appends at
least one record to the answers, changes nothing else, and goes on in the zone of
the target (`hop_of_target`). Or none does, and the loop ends with the AA bit as
it was (`hop_of_no_target`).

Answers are never taken back (`answers_resolveLoop`).
-/

set_option autoImplicit false

namespace ShardDNS.DNS

open Go Store

/-! ## Appending records -/

theorem appendRR_eq (rrs : List RR) (owner : Bytes) (r : Record) :
    appendRR rrs owner r = rrs ++ (rrOf owner r).toList := by
  unfold appendRR
  cases rrOf owner r <;> simp

/-- The servable records are appended in order. -/
theorem foldl_appendRR (rrs : List RR) (owner : Bytes) (records : List Record) :
    records.foldl (fun rrs r => appendRR rrs owner r) rrs =
      rrs ++ records.filterMap (rrOf owner) := by
  induction records generalizing rrs with
  | nil => simp
  | cons r records ih =>
      rw [List.foldl_cons, ih, appendRR_eq, List.filterMap_cons]
      cases rrOf owner r <;> simp

theorem Handler.appendSet_eq (h : Handler) (hop : Nat) (rrs : List RR) (owner : Bytes)
    (records : List Record) :
    ∃ start, h.appendSet hop rrs owner records =
      rrs ++ (records.rotate start).filterMap (rrOf owner) :=
  ⟨_, foldl_appendRR _ _ _⟩

/-- The record can be sent: its type is known, and there is RDATA to send. -/
def Servable (r : Record) : Prop := typeCode r.type ≠ 0 ∧ wireOf r ≠ none

instance (r : Record) : Decidable (Servable r) := inferInstanceAs (Decidable (_ ∧ _))

theorem rrOf_eq_none_iff (owner : Bytes) {r : Record} : rrOf owner r = none ↔ ¬ Servable r := by
  unfold rrOf Servable
  cases wireOf r with
  | none => simp
  | some wire => by_cases known : typeCode r.type = 0 <;> simp [known]

theorem name_of_rrOf {owner : Bytes} {r : Record} {rr : RR} (sent : rrOf owner r = some rr) :
    rr.name = owner := by
  unfold rrOf at sent
  dsimp only at sent
  split at sent
  · cases sent
  · split at sent
    · cases sent
    · cases sent
      rfl

/-- A set with a servable record is not lost. -/
theorem Handler.appendSet_ne_nil {h : Handler} {hop : Nat} {rrs : List RR} {owner : Bytes}
    {records : List Record} {r : Record} (member : r ∈ records) (servable : Servable r) :
    ∃ added, added ≠ [] ∧ h.appendSet hop rrs owner records = rrs ++ added := by
  obtain ⟨start, appended⟩ := h.appendSet_eq hop rrs owner records
  refine ⟨_, ?_, appended⟩
  obtain ⟨rr, sent⟩ := Option.ne_none_iff_exists'.mp fun unsent =>
    (rrOf_eq_none_iff owner).mp unsent servable
  exact List.ne_nil_of_mem (List.mem_filterMap.mpr ⟨r, List.mem_rotate.mpr member, sent⟩)

namespace Handler

/-! ## Where a redirection leads -/

/-- The name that a DNAME record of an ancestor puts in the place of a name. -/
def substitute (name dnameAt : Bytes) (dname : Record) : Bytes :=
  trimSuffix name (ascii "." ++ dnameAt) ++ ascii "." ++
    toLower (rdataNames typeDNAME ((wireOf dname).getD []))

theorem substitute_below (front dnameAt : Bytes) (dname : Record) :
    substitute (front ++ dot :: dnameAt) dnameAt dname =
      front ++ dot :: toLower (rdataNames typeDNAME ((wireOf dname).getD [])) := by
  have cut : trimSuffix (front ++ dot :: dnameAt) (ascii "." ++ dnameAt) = front :=
    trimSuffix_append front (ascii "." ++ dnameAt)
  rw [substitute, cut, List.append_assoc]
  rfl

/-- The name a DNAME record redirects to, when its RDATA holds a name and the new one fits. -/
def dnameTarget (name dnameAt : Bytes) (dname : Record) : Option Bytes :=
  if rdataNames typeDNAME ((wireOf dname).getD []) = [] ∨
      253 < (substitute name dnameAt dname).length then none
  else
    match packName [] (substitute name dnameAt dname) with
    | .ok _ => some (substitute name dnameAt dname)
    | .error _ => none

/-- The name a CNAME record redirects to, when its RDATA holds one. -/
def cnameTarget (cname : Record) : Option Bytes :=
  let target := toLower (rdataNames typeCNAME ((wireOf cname).getD []))
  if target = [] then none else some target

/-- The question is answered at this name, or asks for the redirection itself. -/
def AnswersHere (qtype : UInt16) (zone : Zone) (name : Bytes) (m : Match) : Prop :=
  qtype = typeANY ∨ qtype = typeCNAME ∨ (name = zone.name ∧ qtype = typeSOA) ∨
    filterType m.records qtype ≠ []

instance (qtype : UInt16) (zone : Zone) (name : Bytes) (m : Match) :
    Decidable (AnswersHere qtype zone name m) :=
  inferInstanceAs (Decidable (_ ∨ _))

/-- The name a pass goes on at. -/
def target (qtype : UInt16) (zone : Zone) (name : Bytes) (m : Match) : Option Bytes :=
  match m.dname with
  | some dname => dnameTarget name m.dnameAt dname
  | none =>
      if AnswersHere qtype zone name m then none
      else (filterType m.records typeCNAME).head?.bind cnameTarget

variable {h : Handler} {i : Nat} {resp : Message} {zone : Zone} {name owner : Bytes}
  {qtype : UInt16} {m : Match}

/-- At the apex a lookup finds neither a delegation nor a DNAME. -/
theorem lookup_apex (looked : h.lookup zone zone.name qtype = .ok m) :
    m.cut = [] ∧ m.dname = none := by
  unfold lookup at looked
  obtain ⟨set, -, looked⟩ := bind_eq_ok.mp looked
  split at looked
  · rw [if_neg fun cut => cut.1 rfl] at looked
    cases looked
    exact ⟨rfl, rfl⟩
  · rw [if_pos (.inr rfl)] at looked
    cases looked
    exact ⟨rfl, rfl⟩

/-- A delegation ends the loop with a referral. -/
theorem hop_of_cut (looked : h.lookup zone name qtype = .ok m) (cut : m.cut ≠ []) :
    h.hop i resp zone name owner qtype = (h.referral resp zone m, .done) := by
  simp only [hop, looked, if_pos (List.length_pos_iff.mpr cut)]

variable {dname : Record} {next dnameAt : Bytes}

theorem hop_of_dname (looked : h.lookup zone name qtype = .ok m) (uncut : m.cut = [])
    (found : m.dname = some dname) :
    h.hop i resp zone name owner qtype = h.followDNAME resp name owner m.dnameAt dname := by
  simp [hop, looked, uncut, found]

theorem hop_of_plain (looked : h.lookup zone name qtype = .ok m) (uncut : m.cut = [])
    (plain : m.dname = none) :
    h.hop i resp zone name owner qtype = h.answer i resp zone name owner qtype m := by
  simp [hop, looked, uncut, plain]

/-- A record that redirects is servable. -/
theorem servable_of_cnameTarget {cname : Record} (member : cname ∈ filterType m.records typeCNAME)
    (leads : cnameTarget cname = some next) : Servable cname := by
  have type : typeCode cname.type = typeCNAME := by simpa using (List.mem_filter.mp member).2
  refine ⟨by rw [type]; decide, fun unsent => ?_⟩
  have targetless : cnameTarget cname = none := by
    rw [cnameTarget, unsent]
    decide
  rw [targetless] at leads
  cases leads

/-- What `answer` does where the question is not answered. -/
theorem answer_of_elsewhere (elsewhere : ¬ AnswersHere qtype zone name m) :
    h.answer i resp zone name owner qtype m =
      match filterType m.records typeCNAME with
      | cname :: cnames => h.followCNAME i resp owner cname cnames
      | [] =>
          (negative resp zone (0 < m.records.length || m.found || decide (name = zone.name)),
            .done) := by
  simp only [AnswersHere, not_or, not_and, ne_eq, not_not] at elsewhere
  obtain ⟨notANY, notCNAME, notSOA, unmatched⟩ := elsewhere
  have apex : ¬ (decide (name = zone.name) = true ∧ qtype = typeSOA) := by
    simpa using notSOA
  cases cnames : filterType m.records typeCNAME with
  | nil => simp only [answer, if_neg notANY, if_neg apex, unmatched, if_neg notCNAME, cnames]
  | cons cname rest =>
      simp only [answer, if_neg notANY, if_neg apex, unmatched, if_neg notCNAME, cnames]

theorem dnameTarget_eq_some_iff :
    dnameTarget name dnameAt dname = some next ↔
      rdataNames typeDNAME ((wireOf dname).getD []) ≠ [] ∧ next = substitute name dnameAt dname ∧
        next.length ≤ 253 ∧ ∃ out, packName [] next = .ok out := by
  unfold dnameTarget
  generalize substitute name dnameAt dname = text
  constructor
  · intro leads
    split at leads
    · cases leads
    · rename_i fits
      rw [not_or, Nat.not_lt] at fits
      split at leads
      · rename_i out packed
        cases leads
        exact ⟨fits.1, rfl, fits.2, out, packed⟩
      · cases leads
  · rintro ⟨encoded, rfl, short, out, packed⟩
    rw [if_neg (not_or.mpr ⟨encoded, Nat.not_lt.mpr short⟩), packed]

theorem followDNAME_eq (dnameAt : Bytes) (dname : Record) :
    h.followDNAME resp name owner dnameAt dname =
      let resp := { resp with answers := appendRR resp.answers dnameAt dname }
      if rdataNames typeDNAME ((wireOf dname).getD []) = [] then (resp, .done)
      else if 253 < (substitute name dnameAt dname).length then
        (resp.setRcode rcodeServerFailure, .done)
      else
        match packName [] (substitute name dnameAt dname) with
        | .error _ => (resp, .done)
        | .ok cname =>
            ({ resp with
                answers := resp.answers ++
                  [{ name := owner, type := typeCNAME, cls := classIN
                     ttl := dname.ttl.toUInt32, rdata := cname }] },
              h.redirect (substitute name dnameAt dname)) := rfl

variable (h resp owner) in
/-- With a target, the DNAME record and a CNAME record that holds it are appended. -/
theorem followDNAME_of_target (leads : dnameTarget name dnameAt dname = some next) :
    h.followDNAME resp name owner dnameAt dname =
      ({ resp with
          answers := resp.answers ++ ((rrOf dnameAt dname).toList ++
            [{ name := owner, type := typeCNAME, cls := classIN, ttl := dname.ttl.toUInt32
               rdata := encodeLabels (textLabels next) ++ [0] }]) },
        h.redirect next) := by
  obtain ⟨encoded, text, short, out, packed⟩ := dnameTarget_eq_some_iff.mp leads
  obtain ⟨-, -, written⟩ := packName_eq_ok_iff.mp packed
  rw [List.nil_append] at written
  rw [followDNAME_eq, if_neg encoded, ← text, if_neg (Nat.not_lt.mpr short), packed]
  simp only [appendRR_eq, written, List.append_assoc resp.answers]

variable (h resp owner) in
/-- Without one, the DNAME record alone, and the loop ends. -/
theorem followDNAME_of_no_target (stays : dnameTarget name dnameAt dname = none) :
    ∃ resp', h.followDNAME resp name owner dnameAt dname = (resp', .done) ∧
      resp'.answers = resp.answers ++ (rrOf dnameAt dname).toList ∧ resp'.aa = resp.aa := by
  have targetless : ∀ next, dnameTarget name dnameAt dname ≠ some next := by simp [stays]
  rw [followDNAME_eq]
  dsimp only
  split
  · exact ⟨_, rfl, appendRR_eq _ _ _, rfl⟩
  · rename_i encoded
    split
    · exact ⟨_, rfl, appendRR_eq _ _ _, Message.aa_setRcode _ _⟩
    · rename_i fits
      split
      · exact ⟨_, rfl, appendRR_eq _ _ _, rfl⟩
      · rename_i cname packed
        exact absurd (dnameTarget_eq_some_iff.mpr ⟨encoded, rfl, Nat.le_of_not_lt fits,
          cname, packed⟩)
          (targetless _)

variable (h i resp owner) in
/-- **A redirection appends to the answers and goes on at its target.** -/
theorem hop_of_target (looked : h.lookup zone name qtype = .ok m) (uncut : m.cut = [])
    (leads : target qtype zone name m = some next) :
    ∃ added, added ≠ [] ∧ h.hop i resp zone name owner qtype =
      ({ resp with answers := resp.answers ++ added }, h.redirect next) := by
  unfold target at leads
  cases found : m.dname with
  | some dname =>
      rw [found] at leads
      rw [hop_of_dname looked uncut found, followDNAME_of_target h resp owner leads]
      exact ⟨_, by simp, rfl⟩
  | none =>
      rw [found] at leads
      dsimp only at leads
      split at leads
      · cases leads
      · rename_i elsewhere
        rw [hop_of_plain looked uncut found, answer_of_elsewhere elsewhere]
        cases cnames : filterType m.records typeCNAME with
        | nil => simp [cnames] at leads
        | cons cname cnames' =>
            rw [cnames, List.head?_cons, Option.bind_some] at leads
            have servable := servable_of_cnameTarget (m := m) (by simp [cnames]) leads
            obtain ⟨added, nonempty, appended⟩ : ∃ added, added ≠ [] ∧
                h.appendSet i resp.answers owner (cname :: cnames') = resp.answers ++ added :=
              appendSet_ne_nil List.mem_cons_self servable
            refine ⟨added, nonempty, ?_⟩
            simp only [cnameTarget] at leads
            split at leads
            · cases leads
            · rename_i encoded
              cases leads
              simp only [followCNAME, if_neg encoded, appended]

/-! ## Passes that end the loop -/

theorem answers_negative (resp : Message) (zone : Zone) (found : Bool) :
    (negative resp zone found).answers = resp.answers := by
  unfold negative
  cases found <;> cases soaRR zone <;> rfl

theorem aa_negative (resp : Message) (zone : Zone) (found : Bool) :
    (negative resp zone found).aa = resp.aa := by
  have sections : ∀ (base : Message) (rrs : List RR), { base with authority := rrs }.aa = base.aa :=
    fun _ _ => rfl
  unfold negative
  cases found <;> cases soaRR zone <;> simp [sections]

/-- The loop ended at a name under no delegation: the AA bit is as it was, and the
answers are those there were, or more. -/
structure EndsAuthoritative (resp : Message) (result : Message × Step) : Prop where
  aa : result.1.aa = resp.aa
  answers : resp.answers <+: result.1.answers
  ends : ∀ zone name owner, result.2 ≠ .next zone name owner

theorem ends_done {resp resp' : Message} (aa : resp'.aa = resp.aa)
    (answers : resp.answers <+: resp'.answers) : EndsAuthoritative resp (resp', .done) :=
  ⟨aa, answers, fun _ _ _ => by simp⟩

theorem ends_negative (resp : Message) (zone : Zone) (found : Bool) :
    EndsAuthoritative resp (negative resp zone found, .done) :=
  ends_done (aa_negative _ _ _) (by rw [answers_negative])

theorem ends_followDNAME (stays : dnameTarget name dnameAt dname = none) :
    EndsAuthoritative resp (h.followDNAME resp name owner dnameAt dname) := by
  obtain ⟨resp', followed, answers, aa⟩ := followDNAME_of_no_target h resp owner stays
  rw [followed]
  exact ends_done aa (answers ▸ List.prefix_append _ _)

theorem answers_prefix_appendSet (h : Handler) (i : Nat) (rrs : List RR) (owner : Bytes)
    (records : List Record) : rrs <+: h.appendSet i rrs owner records := by
  obtain ⟨start, appended⟩ := h.appendSet_eq i rrs owner records
  rw [appended]
  exact List.prefix_append _ _

/-- The answers of type ANY before the negative answer is considered: the SOA
record at the apex, and the records found. -/
def anyAnswers (h : Handler) (i : Nat) (resp : Message) (zone : Zone) (name owner : Bytes)
    (m : Match) : List RR :=
  h.appendSet i
    (resp.answers ++ if name = zone.name then (soaRR zone).toOption.toList else []) owner m.records

theorem answerANY_eq : h.answerANY i resp zone name owner m =
    let resp' := { resp with answers := h.anyAnswers i resp zone name owner m }
    if (h.anyAnswers i resp zone name owner m).length = 0 then
      negative resp' zone (m.found || decide (name = zone.name))
    else resp' := by
  unfold answerANY anyAnswers
  by_cases apex : name = zone.name
  · cases soaRR zone <;> simp [apex, Except.toOption]
  · simp [apex]

theorem ends_answerANY :
    EndsAuthoritative resp (h.answerANY i resp zone name owner m, .done) := by
  have more : resp.answers <+: h.anyAnswers i resp zone name owner m :=
    (List.prefix_append _ _).trans (h.answers_prefix_appendSet _ _ _ _)
  rw [answerANY_eq]
  dsimp only
  split
  · have negated := ends_negative { resp with answers := h.anyAnswers i resp zone name owner m }
      zone
      (m.found || decide (name = zone.name))
    exact ends_done negated.aa (more.trans negated.answers)
  · exact ends_done rfl more

theorem ends_followCNAME {cname : Record} {cnames : List Record}
    (stays : cnameTarget cname = none) :
    EndsAuthoritative resp (h.followCNAME i resp owner cname cnames) := by
  simp only [cnameTarget, ite_eq_left_iff, reduceCtorEq, imp_false, not_not] at stays
  simp only [followCNAME, if_pos stays]
  exact ends_done rfl (h.answers_prefix_appendSet _ _ _ _)

theorem aa_addAdditional (records : List Record) :
    (h.addAdditional resp zone qtype records).aa = resp.aa := by
  unfold addAdditional
  split <;> rfl

theorem answers_addAdditional (records : List Record) :
    (h.addAdditional resp zone qtype records).answers = resp.answers := by
  unfold addAdditional
  split <;> rfl

theorem ends_answer (stays : AnswersHere qtype zone name m ∨
      (filterType m.records typeCNAME).head?.bind cnameTarget = none) :
    EndsAuthoritative resp (h.answer i resp zone name owner qtype m) := by
  by_cases elsewhere : AnswersHere qtype zone name m
  · unfold answer
    dsimp only
    split
    · exact ends_answerANY
    · rename_i notANY
      split
      · split
        · exact ⟨rfl, List.prefix_rfl, fun _ _ _ => by simp⟩
        · exact ends_done rfl (List.prefix_append _ _)
      · rename_i notSOA
        split
        · refine ends_done (aa_addAdditional _) ?_
          rw [answers_addAdditional]
          exact h.answers_prefix_appendSet _ _ _ _
        · rename_i unmatched
          have type : qtype = typeCNAME := by
            rcases elsewhere with any | cname | soa | matched
            · exact absurd any notANY
            · exact cname
            · exact absurd (by simpa using soa) notSOA
            · exact absurd unmatched matched
          rw [if_pos type]
          exact ends_negative _ _ _
  · rw [answer_of_elsewhere elsewhere]
    cases cnames : filterType m.records typeCNAME with
    | nil => exact ends_negative _ _ _
    | cons cname cnames' =>
        have unfollowed := stays.resolve_left elsewhere
        rw [cnames, List.head?_cons, Option.bind_some] at unfollowed
        exact ends_followCNAME unfollowed

variable (h i resp owner) in
/-- **Without a redirection the loop ends, with the AA bit as it was.** -/
theorem hop_of_no_target (looked : h.lookup zone name qtype = .ok m) (uncut : m.cut = [])
    (stays : target qtype zone name m = none) :
    EndsAuthoritative resp (h.hop i resp zone name owner qtype) := by
  unfold target at stays
  cases found : m.dname with
  | some dname =>
      rw [found] at stays
      rw [hop_of_dname looked uncut found]
      exact ends_followDNAME stays
  | none =>
      rw [found] at stays
      rw [hop_of_plain looked uncut found]
      refine ends_answer ?_
      by_cases here : AnswersHere qtype zone name m
      · exact .inl here
      · exact .inr (by simpa [here] using stays)

/-! ## The whole loop -/

/-- A pass never takes an answer back. -/
theorem answers_hop (h : Handler) (i : Nat) (resp : Message) (zone : Zone) (name owner : Bytes)
    (qtype : UInt16) : resp.answers <+: (h.hop i resp zone name owner qtype).1.answers := by
  cases looked : h.lookup zone name qtype with
  | error e => simp [hop, looked]
  | ok m =>
      by_cases uncut : m.cut = []
      · cases leads : target qtype zone name m with
        | none => exact (hop_of_no_target h i resp owner looked uncut leads).answers
        | some next =>
            obtain ⟨added, -, passed⟩ := hop_of_target h i resp owner looked uncut leads
            rw [passed]
            exact List.prefix_append _ _
      · rw [hop_of_cut looked uncut]
        exact List.prefix_rfl

/-- Nor does the loop. -/
theorem answers_resolveLoop (h : Handler) (qtype : UInt16) (left : Nat) (resp : Message)
    (zone : Zone) (name owner : Bytes) :
    resp.answers <+: (h.resolveLoop qtype left resp zone name owner).1.answers := by
  induction left generalizing resp zone name owner with
  | zero => exact List.prefix_rfl
  | succ left ih =>
      have step := h.answers_hop (maxChain - left) resp zone name owner qtype
      unfold resolveLoop
      split
      · rename_i passed
        rwa [passed] at step
      · rename_i passed
        rwa [passed] at step
      · rename_i passed
        rw [passed] at step
        exact step.trans (ih _ _ _ _)

/-- The answers of the first pass are the first answers. -/
theorem answers_hop_resolve (h : Handler) (resp : Message) (zone : Zone) (name owner : Bytes)
    (qtype : UInt16) :
    (h.hop 0 resp zone name owner qtype).1.answers <+:
      (h.resolve resp zone name owner qtype).1.answers := by
  rw [resolve, resolveLoop, Nat.sub_self]
  cases h.hop 0 resp zone name owner qtype with
  | mk resp' step =>
      cases step with
      | failed e => exact List.prefix_rfl
      | done => exact List.prefix_rfl
      | next zone' name' owner' => exact h.answers_resolveLoop _ _ _ _ _ _

/-- A question under no delegation keeps the AA bit or gets answers. -/
theorem resolve_of_uncut {e : Option ResolveError} {resp' : Message}
    (looked : h.lookup zone name qtype = .ok m) (uncut : m.cut = [])
    (resolved : h.resolve resp zone name owner qtype = (resp', e)) :
    resp'.aa = resp.aa ∨ resp'.answers ≠ [] := by
  cases leads : target qtype zone name m with
  | none =>
      have ends := hop_of_no_target h (maxChain - maxChain) resp owner looked uncut leads
      left
      rw [resolve, resolveLoop] at resolved
      split at resolved <;> rename_i passed <;> rw [passed] at ends
      · cases resolved
        exact ends.aa
      · cases resolved
        exact ends.aa
      · exact absurd rfl (ends.ends _ _ _)
  | some next =>
      obtain ⟨added, nonempty, passed⟩ := hop_of_target h 0 resp owner looked uncut leads
      right
      have more := answers_hop_resolve h resp zone name owner qtype
      rw [passed, resolved] at more
      intro empty
      rw [empty, List.prefix_nil, List.append_eq_nil_iff] at more
      exact nonempty more.2

end Handler

end ShardDNS.DNS

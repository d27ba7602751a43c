import ShardDNS.DNS.Replies
import ShardDNS.DNS.Provenance

/-!
# What a query costs

Whatever the resolver answers, a query makes at most 2320 calls of it (`serve_calls_bounded`): no
name that is looked up has more than 253 dots, so a pass climbs at most that often, there are at
most nine passes, and addresses are looked up for at most sixteen names, in the last pass.
-/

set_option autoImplicit false

namespace ShardDNS.DNS

open Go Store Program LabelTree

/-! ## Dots -/

/-- A name with few enough dots to come from a message. -/
def FewDots (name : Bytes) : Prop := name.count dot ≤ 253

instance (name : Bytes) : Decidable (FewDots name) := inferInstanceAs (Decidable (_ ≤ _))

theorem count_dot_toLower (s : Bytes) : (toLower s).count dot = s.count dot := by
  induction size : s.length using Nat.strong_induction_on generalizing s with
  | _ n ih =>
      by_cases member : dot ∈ s
      · obtain ⟨a, b, rfl⟩ := List.append_of_mem member
        rw [List.length_append, List.length_cons] at size
        rw [toLower_append_dot, List.count_append, List.count_append, List.count_cons_self,
          List.count_cons_self, ih a.length (by omega) a rfl, ih b.length (by omega) b rfl]
      · rw [List.count_eq_zero_of_not_mem member,
          List.count_eq_zero_of_not_mem (dot_not_mem_toLower member)]

theorem length_intercalate_dot (label : Bytes) (names : List Bytes) :
    ([dot].intercalate (label :: names)).length + 2 = wireLength (label :: names) := by
  induction names generalizing label with
  | nil =>
      rw [List.intercalate_singleton, wireLength_cons, show wireLength [] = 1 from rfl]
      omega
  | cons next names ih =>
      rw [List.intercalate_cons_of_ne_nil (List.cons_ne_nil next names), wireLength_cons, ← ih]
      simp only [List.length_append, List.length_singleton]
      omega

theorem fewDots_nameText {names : List Bytes} (fit : LabelsFit names)
    (short : wireLength names ≤ maxNameLen) :
    FewDots (nameText names) := by
  cases names with
  | nil => exact (by decide : FewDots (nameText []))
  | cons label names =>
      have nonempty := List.length_pos_iff.mp (fit label List.mem_cons_self).1
      have size := length_intercalate_dot label names
      have count := @List.count_le_length _ _ dot ([dot].intercalate (label :: names))
      rw [maxNameLen] at short
      rw [FewDots, nameText_cons nonempty]
      omega

theorem fewDots_nameIn (rdata : Bytes) (off : Nat) : FewDots (nameIn rdata off) := by
  unfold nameIn
  split
  · rename_i name stop parsed
    obtain ⟨names, hops, nameAt, -, short, rfl⟩ := parseName_eq_ok_iff.mp parsed
    exact fewDots_nameText nameAt.label_length short
  · exact Nat.zero_le _

theorem fewDots_rdataNames (rtype : UInt16) (rdata : Bytes) : FewDots (rdataNames rtype rdata) := by
  have noDots : FewDots [] := Nat.zero_le _
  unfold rdataNames
  split
  · exact fewDots_nameIn _ _
  · split
    · split
      · exact fewDots_nameIn _ _
      · exact noDots
    · split
      · split
        · exact fewDots_nameIn _ _
        · exact noDots
      · exact noDots

theorem FewDots.toLower {name : Bytes} (few : FewDots name) : FewDots (toLower name) := by
  rw [FewDots, count_dot_toLower]
  exact few

theorem Above.count_lt {d name : Bytes} (above : Above d name) : d.count dot < name.count dot := by
  have le := above.sublist.count_le dot
  rw [List.count_cons_self] at le
  exact le

theorem fewDots_question {buf : Bytes} {m : Message} (parsed : parseMessage buf = .ok m)
    {q : Question} (member : q ∈ m.questions) : FewDots q.name := by
  obtain ⟨qs, -, questions, fits⟩ := questionSection_of_parseMessage parsed
  rw [questions] at member
  obtain ⟨w, inside, rfl⟩ := List.mem_map.mp member
  exact fewDots_nameText (fits w inside).1 (fits w inside).2

theorem FewDots.trimSuffix {name : Bytes} (few : FewDots name) (suffix : Bytes) :
    FewDots (trimSuffix name suffix) :=
  ((trimSuffix_isPrefix name suffix).sublist.count_le dot).trans few

namespace Calls

open Handler (Match Step ResolveError)

variable {h : Handler} {i : Nat} {resp : Message} {zone : Zone} {name owner : Bytes}
  {qtype : UInt16} {m : Match}

/-! ## A pass -/

theorem counts_lookupName (zone name : Bytes) : (lookupName zone name).Counts fun n _ => n = 1 :=
  Counts.call (q := Call.lookupName zone name) fun _ => rfl

theorem counts_lookupGlue (zone name : Bytes) : (lookupGlue zone name).Counts fun n _ => n = 1 :=
  Counts.call (q := Call.lookupGlue zone name) fun _ => rfl

theorem counts_findZone (name : Bytes) : (findZone name).Counts fun n _ => n = 1 :=
  Counts.call (q := Call.findZone name) fun _ => rfl

theorem counts_encloserLoop {fuel : Nat} {e : Bytes} :
    (encloserLoop zone fuel e).Counts fun n _ => n ≤ e.count dot := by
  induction fuel generalizing e with
  | zero => exact .pure (Nat.zero_le _)
  | succ fuel ih =>
      unfold encloserLoop
      split
      · exact .pure (Nat.zero_le _)
      · split
        · exact .pure (Nat.zero_le _)
        · rename_i i here
          have fewer := (above_of_indexByte here).count_lt
          refine (counts_lookupName zone.name _).bind fun n answer one => ?_
          subst one
          cases answer with
          | error err => exact .pure (by omega)
          | ok set =>
              dsimp only
              split
              · exact .pure (by omega)
              · split
                · split
                  · exact .pure (by omega)
                  · exact .pure (by omega)
                · split
                  · exact .pure (by omega)
                  · exact ih.mono fun n _ bound => by omega

/-- **A lookup climbs at most as often as the name has dots.** -/
theorem counts_lookup : (lookup zone name qtype).Counts fun n _ => n ≤ name.count dot + 2 := by
  refine (counts_lookupName zone.name name).bind fun n answer one => ?_
  subst one
  cases answer with
  | error e => exact .pure (by omega)
  | ok set =>
      dsimp only
      split
      · split
        · exact .pure (by omega)
        · exact .pure (by omega)
      · split
        · exact .pure (by omega)
        · refine counts_encloserLoop.bind fun n result bound => ?_
          cases result with
          | error e => exact .pure (by omega)
          | ok result =>
              cases result with
              | inl m => exact .pure (by omega)
              | inr e =>
                  refine (counts_lookupName zone.name _).bind fun k answer one => ?_
                  subst one
                  cases answer with
                  | error err => exact .pure (by omega)
                  | ok wild =>
                      dsimp only
                      split
                      · exact .pure (by omega)
                      · exact .pure (by omega)

theorem counts_addGlueLoop {records : List Record} {seen : List Bytes} {additional : List RR} :
    (addGlueLoop zone records seen additional).Counts fun n _ =>
      n ≤ maxAdditional - seen.length := by
  induction records generalizing seen additional with
  | nil => exact .pure (Nat.zero_le _)
  | cons r records ih =>
      unfold addGlueLoop
      dsimp only
      split
      · exact .pure (Nat.zero_le _)
      · rename_i room
        split
        · exact ih
        · split
          · exact ih
          · have onward : ∀ target additional,
                (addGlueLoop zone records (target :: seen) additional).Counts
                fun n _ => 1 + n ≤ maxAdditional - seen.length := by
              intro target additional
              refine ih.mono fun n _ bound => ?_
              rw [List.length_cons] at bound
              omega
            refine (counts_lookupGlue zone.name _).bind fun n answer one => ?_
            subst one
            cases answer with
            | error e => exact onward _ _
            | ok set => exact onward _ _

theorem counts_addGlue (records : List Record) :
    (addGlue resp zone records).Counts fun n _ => n ≤ maxAdditional :=
  counts_addGlueLoop.bind fun _ _ bound => .pure bound

/-- A step that goes on, does so with few dots. -/
def FewOnward (step : Step) : Prop := ∀ zone name owner, step = .next zone name owner → FewDots name

theorem counts_redirect {target : Bytes} (few : FewDots target) :
    (redirect target).Counts fun n step => n ≤ 1 ∧ FewOnward step := by
  have asked : (zoneFor target).Counts fun n _ => n = 1 := by
    refine (counts_findZone target).bind fun n answer one => ?_
    subst one
    cases answer with
    | error e => cases e <;> exact .pure rfl
    | ok zone => exact .pure rfl
  refine asked.bind fun n result one => ?_
  subst one
  cases result with
  | error e => exact .pure ⟨Nat.le_refl _, nofun⟩
  | ok result =>
      cases result with
      | none => exact .pure ⟨Nat.le_refl _, nofun⟩
      | some zone =>
          refine .pure ⟨Nat.le_refl _, fun zone' name owner eq => ?_⟩
          cases eq
          exact few

/-- What a pass costs after its lookup: sixteen calls at most, and one if another pass follows. -/
def Affordable (n : Nat) (result : Message × Step) : Prop :=
  n ≤ maxAdditional ∧ FewOnward result.2 ∧
    ((∃ zone name owner, result.2 = .next zone name owner) → n ≤ 1)

theorem affordable_done (n : Nat) (bound : n ≤ maxAdditional) : Affordable n (resp, .done) :=
  ⟨bound, nofun, nofun⟩

theorem affordable_redirected {n : Nat} {step : Step} (bound : n ≤ 1 ∧ FewOnward step) :
    Affordable n (resp, step) :=
  ⟨bound.1.trans (by decide), bound.2, fun _ => bound.1⟩

theorem counts_followDNAME {d : Bytes} {r : Record} :
    (followDNAME resp name owner d r).Counts Affordable := by
  unfold followDNAME
  dsimp only
  split
  · exact .pure (affordable_done 0 (Nat.zero_le _))
  · split
    · exact .pure (affordable_done 0 (Nat.zero_le _))
    · rename_i short
      split
      · exact .pure (affordable_done 0 (Nat.zero_le _))
      · have few : FewDots (trimSuffix name (ascii "." ++ d) ++ ascii "." ++
            toLower (rdataNames typeDNAME ((wireOf r).getD []))) :=
          List.count_le_length.trans (Nat.not_lt.mp short)
        exact (counts_redirect few).bind fun n step bound => .pure (affordable_redirected bound)

theorem counts_followCNAME {cname : Record} {cnames : List Record} :
    (followCNAME h i resp owner cname cnames).Counts Affordable := by
  unfold followCNAME
  dsimp only
  split
  · exact .pure (affordable_done 0 (Nat.zero_le _))
  · exact (counts_redirect (fewDots_rdataNames _ _).toLower).bind fun n step bound =>
      .pure (affordable_redirected bound)

theorem counts_answer : (answer h i resp zone name owner qtype m).Counts Affordable := by
  have done : ∀ resp, Affordable 0 (resp, .done) := fun resp => affordable_done 0 (Nat.zero_le _)
  unfold answer
  dsimp only
  split
  · exact .pure (done _)
  · split
    · split
      · exact .pure ⟨Nat.zero_le _, nofun, nofun⟩
      · exact .pure (done _)
    · split
      · refine Counts.bind (P := fun n _ => n ≤ maxAdditional) ?_ fun n _ bound =>
          .pure (affordable_done n bound)
        unfold addAdditional
        split
        · exact counts_addGlue _
        · exact .pure (Nat.zero_le _)
      · split
        · exact counts_followCNAME
        · exact .pure (done _)

/-- **A pass costs at most 271 calls, and at most 256 if another one follows.** -/
theorem counts_hop (few : FewDots name) :
    (hop h i resp zone name owner qtype).Counts fun n result =>
    n ≤ 271 ∧ FewOnward result.2 ∧
      ((∃ zone name owner, result.2 = .next zone name owner) → n ≤ 256) := by
  have few : name.count dot ≤ 253 := few
  have rest : ∀ {k : Nat} {p : Calling (Message × Step)}, k ≤ name.count dot + 2 →
      p.Counts Affordable →
      p.Counts fun n result => k + n ≤ 271 ∧ FewOnward result.2 ∧
        ((∃ zone name owner, result.2 = .next zone name owner) → k + n ≤ 256) := by
    intro k p climbed counts
    refine counts.mono fun n result bound => ⟨?_, bound.2.1, fun next => ?_⟩
    · have := bound.1
      rw [maxAdditional] at this
      omega
    · have := bound.2.2 next
      omega
  refine counts_lookup.bind fun n result climbed => ?_
  cases result with
  | error e => exact .pure ⟨by omega, nofun, nofun⟩
  | ok m =>
      dsimp only
      split
      · refine rest climbed ?_
        exact (counts_addGlue _).bind fun n _ bound => .pure (affordable_done n bound)
      · split
        · exact rest climbed counts_followDNAME
        · exact rest climbed counts_answer

theorem counts_resolveLoop (left : Nat) (few : FewDots name) :
    (resolveLoop h qtype left resp zone name owner).Counts fun n _ => n ≤ 256 * left + 15 := by
  induction left generalizing resp zone name owner with
  | zero => exact .pure (by omega)
  | succ left ih =>
      refine (counts_hop few).bind fun n result bound => ?_
      obtain ⟨resp', step⟩ := result
      cases step with
      | failed e => exact .pure (by omega)
      | done => exact .pure (by omega)
      | next zone' name' owner' =>
          have cheap := bound.2.2 ⟨zone', name', owner', rfl⟩
          exact (ih (bound.2.1 zone' name' owner' rfl)).mono fun k _ more => by omega

/-! ## Requests -/

theorem counts_handleQuestion {q : Question} (few : FewDots q.name) :
    (handleQuestion h resp q).Counts fun n _ => n ≤ 2320 := by
  unfold handleQuestion
  dsimp only
  split
  · exact .pure (Nat.zero_le _)
  · refine (counts_findZone _).bind fun n answer one => ?_
    subst one
    cases answer with
    | error e => cases e <;> exact .pure (by omega)
    | ok zone =>
        have short := (few.trimSuffix (ascii ".")).toLower
        refine (counts_resolveLoop (maxChain + 1) short).bind fun n result bound => ?_
        rw [maxChain] at bound
        obtain ⟨resp', error⟩ := result
        cases error with
        | some e => exact .pure (by omega)
        | none => exact .pure (by omega)

theorem counts_handle {req : Message} (few : ∀ q ∈ req.questions, FewDots q.name) :
    (handle h req).Counts fun n _ => n ≤ 2320 := by
  have refused : ∀ resp : Message, (pure resp : Calling Message).Counts fun n _ => n ≤ 2320 :=
    fun _ => .pure (Nat.zero_le _)
  unfold handle
  dsimp only
  split
  · exact refused _
  · split
    · rename_i q single
      split
      · exact refused _
      · split
        · exact refused _
        · split
          · exact refused _
          · exact counts_handleQuestion (few q (by rw [single]; exact List.mem_singleton_self q))
    · exact refused _

end Calls

/-- **No datagram and no message of a stream makes more than 2320 calls of the resolver**, whatever
it answers. -/
theorem serve_calls_bounded (h : Handler) (data : Bytes) :
    (Calls.serveUDP h data).Counts (fun n _ => n ≤ 2320) ∧
      (Calls.serveTCP h data).Counts (fun n _ => n ≤ 2320) := by
  have quiet : ∀ result : Option Bytes,
      (pure result : Calling (Option Bytes)).Counts fun n _ => n ≤ 2320 :=
    fun _ => .pure (Nat.zero_le _)
  constructor
  · unfold Calls.serveUDP
    cases parsed : parseMessage data with
    | error e =>
        dsimp only
        split <;> exact quiet _
    | ok req =>
        dsimp only
        split
        · exact quiet _
        · refine (Calls.counts_handle fun q => fewDots_question parsed).bind fun n resp bound => ?_
          cases resp.packUDP <;> exact .pure bound
  · unfold Calls.serveTCP
    split
    · exact quiet _
    · cases parsed : parseMessage data with
      | error e =>
          dsimp only
          split <;> exact quiet _
      | ok req =>
          dsimp only
          split
          · exact quiet _
          · refine (Calls.counts_handle fun q => fewDots_question parsed).bind
              fun n resp bound => ?_
            cases resp.pack with
            | error e => exact .pure bound
            | ok out =>
                dsimp only
                split <;> exact .pure bound

end ShardDNS.DNS

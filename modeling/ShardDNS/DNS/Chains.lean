import ShardDNS.DNS.Lookup
import ShardDNS.DNS.Resolution

/-!
# Chains of redirections

`Leads` says which names a question comes to by way of CNAME and DNAME records, for any
resolver. The loop of `resolve` passes through these names (`resolveLoop_of_leads`), and
what a pass at each of them keeps the loop keeps (`resolveLoop_keeps`). It fails exactly where
one of these names cannot be dealt with (`failed_resolveLoop_iff_leads`): over the database
itself only at an apex whose SOA record is asked for and cannot be encoded
(`failed_resolveLoop_iff`).

The AA bit is set before the loop, and a pass that ends at a delegation clears it. The loop
makes no difference between the name asked for and a name it has been led to, so the bit is
about the question exactly when no later name of the chain lies at or below a delegation
(`handle_aa_iff`).
-/

set_option autoImplicit false

namespace ShardDNS.DNS

open Go Store

namespace Handler

/-! ## Where a question leads -/

/-- A question of this type is led from a name, in its zone, to another in `k`
redirections. -/
inductive Leads (h : Handler) (qtype : UInt16) : Nat → Zone → Bytes → Zone → Bytes → Prop where
  | here (zone : Zone) (name : Bytes) : Leads h qtype 0 zone name zone name
  | next {k : Nat} {zone zone' last : Zone} {name next lastName : Bytes} {m : Match}
      (looked : h.lookup zone name qtype = .ok m) (uncut : m.cut = [])
      (leads : target qtype zone name m = some next) (served : h.resolver.findZone next = .ok zone')
      (rest : Leads h qtype k zone' next last lastName) :
      Leads h qtype (k + 1) zone name last lastName

variable {h : Handler} {qtype : UInt16} {zone last : Zone} {name lastName owner : Bytes} {k : Nat}

/-- A question is led to one name only in so many redirections. -/
theorem Leads.unique {last' : Zone} {lastName' : Bytes}
    (led : Leads h qtype k zone name last lastName)
    (led' : Leads h qtype k zone name last' lastName') : last = last' ∧ lastName = lastName' := by
  induction led with
  | here zone name =>
      cases led'
      exact ⟨rfl, rfl⟩
  | next looked _ leads served _ ih =>
      cases led' with
      | next looked' _ leads' served' rest =>
          rw [looked] at looked'
          cases looked'
          rw [leads] at leads'
          cases leads'
          rw [served] at served'
          cases served'
          exact ih rest

/-- The zone that a redirection leads to serves the name it leads to. -/
theorem Leads.served (led : Leads h qtype k zone name last lastName) (later : 0 < k) :
    h.resolver.findZone lastName = .ok last := by
  induction led with
  | here => exact absurd later (Nat.lt_irrefl 0)
  | next _ _ _ served rest ih =>
      cases rest with
      | here => exact served
      | next => exact ih (Nat.succ_pos _)

theorem redirect_eq_next_iff {next name' owner' : Bytes} {zone' : Zone} :
    h.redirect next = .next zone' name' owner' ↔
      h.resolver.findZone next = .ok zone' ∧ name' = next ∧ owner' = next := by
  unfold redirect zoneFor
  cases found : h.resolver.findZone next with
  | ok z =>
      simp only [Step.next.injEq, Except.ok.injEq]
      exact ⟨fun ⟨zone, name, owner⟩ => ⟨zone, name.symm, owner.symm⟩,
        fun ⟨zone, name, owner⟩ => ⟨zone, name.symm, owner.symm⟩⟩
  | error e => cases e <;> simp

/-- A pass that goes on has been redirected. -/
theorem leads_of_hop {i : Nat} {resp resp' : Message} {name' owner' : Bytes} {zone' : Zone}
    (passed : h.hop i resp zone name owner qtype = (resp', .next zone' name' owner')) :
    ∃ m, h.lookup zone name qtype = .ok m ∧ m.cut = [] ∧ target qtype zone name m = some name' ∧
      h.resolver.findZone name' = .ok zone' := by
  cases looked : h.lookup zone name qtype with
  | error e => simp [hop, looked] at passed
  | ok m =>
      by_cases uncut : m.cut = []
      · cases leads : target qtype zone name m with
        | none =>
            have ends := hop_of_no_target h i resp owner looked uncut leads
            rw [passed] at ends
            exact absurd rfl (ends.ends _ _ _)
        | some next =>
            obtain ⟨added, -, went⟩ := hop_of_target h i resp owner looked uncut leads
            rw [passed] at went
            obtain ⟨served, rfl, -⟩ := redirect_eq_next_iff.mp (congrArg Prod.snd went).symm
            exact ⟨m, rfl, uncut, leads, served⟩
      · rw [hop_of_cut looked uncut] at passed
        cases passed

/-- **The passes before the last touch only the answers**, and each adds to them. -/
theorem resolveLoop_of_leads (led : Leads h qtype k zone name last lastName) (left : Nat)
    (resp : Message) (owner : Bytes) :
    ∃ added lastOwner, (k = 0 ↔ added = []) ∧
      h.resolveLoop qtype (left + k) resp zone name owner =
        h.resolveLoop qtype left { resp with answers := resp.answers ++ added } last lastName
          lastOwner := by
  induction led generalizing resp owner with
  | here zone name => exact ⟨[], owner, by simp, by simp⟩
  | @next k zone zone' last name next lastName m looked uncut leads served _ ih =>
      obtain ⟨first, nonempty, passed⟩ := hop_of_target h (maxChain - (left + k)) resp owner looked
        uncut leads
      obtain ⟨added, lastOwner, -, rest⟩ := ih { resp with answers := resp.answers ++ first } next
      refine ⟨first ++ added, lastOwner, by simp [nonempty], ?_⟩
      have onward : h.redirect next = .next zone' next next :=
        redirect_eq_next_iff.mpr ⟨served, rfl, rfl⟩
      rw [← Nat.add_assoc, resolveLoop, passed, onward]
      dsimp only
      rw [rest, List.append_assoc]

/-- **What a pass keeps at every name of the chain, the loop keeps.** -/
theorem resolveLoop_keeps {P : Message → Prop} {left : Nat} {resp : Message}
    (kept : ∀ {k : Nat} {last : Zone} {lastName : Bytes}, k < left →
      Leads h qtype k zone name last lastName → ∀ i resp owner, P resp →
        P (h.hop i resp last lastName owner qtype).1)
    (start : P resp) : P (h.resolveLoop qtype left resp zone name owner).1 := by
  induction left generalizing zone name owner resp with
  | zero => exact start
  | succ left ih =>
      have first := kept (Nat.succ_pos left) (.here zone name) (maxChain - left) resp owner start
      unfold resolveLoop
      split
      · rename_i passed
        rwa [passed] at first
      · rename_i passed
        rwa [passed] at first
      · rename_i zone' name' owner' passed
        rw [passed] at first
        obtain ⟨m, looked, uncut, leads, served⟩ := leads_of_hop passed
        exact ih (fun short led =>
          kept (Nat.succ_lt_succ short) (.next looked uncut leads served led))
          first

/-! ## Errors -/

/-- The question asks for the SOA record of the zone, and it cannot be encoded. -/
def AsksUnsentSOA (qtype : UInt16) (zone : Zone) (name : Bytes) : Prop :=
  qtype = typeSOA ∧ name = zone.name ∧ ∃ e, soaRR zone = .error e

/-- A pass at the name fails: the name cannot be looked up, the SOA record asked for there cannot
be encoded, or the resolver cannot say in which zone the next name is. -/
inductive FailsAt (h : Handler) (qtype : UInt16) (zone : Zone) (name : Bytes) : Prop where
  | lookup {e : StoreError} (failed : h.lookup zone name qtype = .error e)
  | soa (asks : AsksUnsentSOA qtype zone name)
  | redirect {m : Match} {next : Bytes} {e : StoreError}
      (looked : h.lookup zone name qtype = .ok m) (uncut : m.cut = [])
      (leads : target qtype zone name m = some next)
      (failed : h.resolver.findZone next = .error e) (other : e ≠ .notFound)

/-- A pass fails at some name of the chain, within the passes the loop makes. -/
def LeadsToFailure (h : Handler) (qtype : UInt16) (left : Nat) (zone : Zone) (name : Bytes) :
    Prop :=
  ∃ (k : Nat) (last : Zone) (lastName : Bytes), k < left ∧
    Leads h qtype k zone name last lastName ∧ FailsAt h qtype last lastName

/-- A name of the chain, within the passes the loop makes, is an apex whose SOA record is asked
for and cannot be encoded. -/
def LeadsToUnsentSOA (h : Handler) (qtype : UInt16) (left : Nat) (zone : Zone) (name : Bytes) :
    Prop :=
  ∃ (k : Nat) (last : Zone) (lastName : Bytes), k < left ∧
    Leads h qtype k zone name last lastName ∧ AsksUnsentSOA qtype last lastName

theorem leadsToFailure_succ_iff {left : Nat} :
    LeadsToFailure h qtype (left + 1) zone name ↔
      FailsAt h qtype zone name ∨
        ∃ m next zone', h.lookup zone name qtype = .ok m ∧ m.cut = [] ∧
          target qtype zone name m = some next ∧ h.resolver.findZone next = .ok zone' ∧
          LeadsToFailure h qtype left zone' next := by
  constructor
  · rintro ⟨k, last, lastName, short, led, fails⟩
    cases led with
    | here => exact .inl fails
    | next looked uncut leads served rest =>
        exact .inr ⟨_, _, _, looked, uncut, leads, served, _, _, _, Nat.lt_of_succ_lt_succ short,
          rest, fails⟩
  · rintro (fails | ⟨m, next, zone', looked, uncut, leads, served, k, last, lastName, short, led,
      fails⟩)
    · exact ⟨0, zone, name, Nat.succ_pos left, .here zone name, fails⟩
    · exact ⟨k + 1, last, lastName, Nat.succ_lt_succ short, .next looked uncut leads served led,
        fails⟩

theorem failed_redirect_iff {next : Bytes} :
    (∃ e, h.redirect next = .failed e) ↔
      ∃ e, h.resolver.findZone next = .error e ∧ e ≠ .notFound := by
  unfold redirect zoneFor
  cases h.resolver.findZone next with
  | ok z => simp
  | error e => cases e <;> simp

section Pass

variable {i : Nat} {resp : Message} {m : Match}

/-- A pass that is not redirected fails for a SOA record only. -/
theorem failed_answer_iff (stays : AnswersHere qtype zone name m ∨
      (filterType m.records typeCNAME).head?.bind cnameTarget = none) :
    (∃ e, (h.answer i resp zone name owner qtype m).2 = .failed e) ↔
      AsksUnsentSOA qtype zone name := by
  unfold AsksUnsentSOA
  by_cases here : AnswersHere qtype zone name m
  · unfold answer
    dsimp only
    split
    · rename_i any
      simp [any, show typeANY ≠ typeSOA by decide]
    · rename_i notANY
      split
      · rename_i asked
        rw [decide_eq_true_eq] at asked
        cases soaRR zone <;> simp [asked]
      · rename_i other
        rw [decide_eq_true_eq] at other
        have never : ¬ (qtype = typeSOA ∧ name = zone.name ∧ ∃ e, soaRR zone = .error e) :=
          fun asks => other ⟨asks.2.1, asks.1⟩
        refine iff_of_false ?_ never
        rintro ⟨e, failed⟩
        split at failed
        · cases failed
        · rename_i unmatched
          have type : qtype = typeCNAME := by
            rcases here with any | cname | soa | matched
            · exact absurd any notANY
            · exact cname
            · exact absurd soa other
            · exact absurd unmatched matched
          rw [if_pos type] at failed
          cases failed
  · have never : ¬ (qtype = typeSOA ∧ name = zone.name ∧ ∃ e, soaRR zone = .error e) :=
      fun asks => here (.inr (.inr (.inl ⟨asks.2.1, asks.1⟩)))
    have unfollowed := stays.resolve_left here
    rw [answer_of_elsewhere here]
    refine iff_of_false ?_ never
    rintro ⟨e, failed⟩
    cases cnames : filterType m.records typeCNAME with
    | nil =>
        rw [cnames] at failed
        cases failed
    | cons cname rest =>
        rw [cnames, List.head?_cons, Option.bind_some] at unfollowed
        simp only [cnameTarget, ite_eq_left_iff, reduceCtorEq, imp_false, not_not] at unfollowed
        rw [cnames] at failed
        simp only [followCNAME, if_pos unfollowed, reduceCtorEq] at failed

/-- **When a pass fails.** -/
theorem failed_hop_iff :
    (∃ e, (h.hop i resp zone name owner qtype).2 = .failed e) ↔ FailsAt h qtype zone name := by
  cases looked : h.lookup zone name qtype with
  | error e =>
      refine iff_of_true ⟨.store e, ?_⟩ (.lookup looked)
      simp only [hop, looked]
  | ok m =>
      -- the SOA record is asked for at the apex only, where nothing redirects or delegates
      have atApex : AsksUnsentSOA qtype zone name → m.cut = [] ∧
          target qtype zone name m = none := by
        rintro ⟨type, rfl, -⟩
        obtain ⟨uncut, plain⟩ := lookup_apex looked
        refine ⟨uncut, ?_⟩
        rw [target, plain]
        exact if_pos (.inr (.inr (.inl ⟨rfl, type⟩)))
      have kinds : FailsAt h qtype zone name ↔ AsksUnsentSOA qtype zone name ∨
          (m.cut = [] ∧ ∃ next e, target qtype zone name m = some next ∧
            h.resolver.findZone next = .error e ∧ e ≠ .notFound) := by
        constructor
        · rintro (failed | asks | ⟨looked', uncut, leads, failed, other⟩)
          · rw [looked] at failed
            cases failed
          · exact .inl asks
          · rw [looked] at looked'
            cases looked'
            exact .inr ⟨uncut, _, _, leads, failed, other⟩
        · rintro (asks | ⟨uncut, next, e, leads, failed, other⟩)
          · exact .soa asks
          · exact .redirect looked uncut leads failed other
      rw [kinds]
      by_cases uncut : m.cut = []
      · cases leads : target qtype zone name m with
        | some next =>
            obtain ⟨added, -, passed⟩ := hop_of_target h i resp owner looked uncut leads
            rw [passed]
            dsimp only
            rw [failed_redirect_iff]
            constructor
            · rintro ⟨e, failed, other⟩
              exact .inr ⟨uncut, next, e, rfl, failed, other⟩
            · rintro (asks | ⟨-, _, e, same, failed, other⟩)
              · rw [(atApex asks).2] at leads
                cases leads
              · cases same
                exact ⟨e, failed, other⟩
        | none =>
            simp only [reduceCtorEq, false_and, exists_false, and_false, or_false]
            unfold target at leads
            cases found : m.dname with
            | some dname =>
                rw [found] at leads
                obtain ⟨resp', followed, -⟩ := followDNAME_of_no_target h resp owner leads
                rw [hop_of_dname looked uncut found, followed]
                refine iff_of_false (by simp) ?_
                rintro ⟨-, rfl, -⟩
                rw [(lookup_apex looked).2] at found
                cases found
            | none =>
                rw [found] at leads
                rw [hop_of_plain looked uncut found]
                refine failed_answer_iff ?_
                by_cases here : AnswersHere qtype zone name m
                · exact .inl here
                · exact .inr (by simpa [here] using leads)
      · rw [hop_of_cut looked uncut]
        refine iff_of_false (by simp) ?_
        rintro (asks | ⟨uncut', -⟩)
        · exact uncut (atApex asks).1
        · exact uncut uncut'

variable (resp owner) in
/-- **Resolution fails exactly when the question leads to a failure.** -/
theorem failed_resolveLoop_iff_leads {left : Nat} :
    (∃ e, (h.resolveLoop qtype left resp zone name owner).2 = some e) ↔
      LeadsToFailure h qtype left zone name := by
  induction left generalizing resp zone name owner with
  | zero => simp [resolveLoop, LeadsToFailure]
  | succ left ih =>
      have fails := @failed_hop_iff h qtype zone name owner (maxChain - left) resp
      rw [leadsToFailure_succ_iff, resolveLoop]
      cases passed : h.hop (maxChain - left) resp zone name owner qtype with
      | mk resp' step =>
          rw [passed] at fails
          cases step with
          | failed e => exact iff_of_true ⟨e, rfl⟩ (.inl (fails.mp ⟨e, rfl⟩))
          | done =>
              refine iff_of_false (by simp) ?_
              rintro (fails' | ⟨m, next, zone', looked, uncut, leads, served, -⟩)
              · obtain ⟨e, failed⟩ := fails.mpr fails'
                cases failed
              · obtain ⟨added, -, went⟩ := hop_of_target h (maxChain - left) resp owner looked uncut
                  leads
                rw [passed, redirect_eq_next_iff.mpr ⟨served, rfl, rfl⟩] at went
                cases congrArg Prod.snd went
          | next zone' name' owner' =>
              obtain ⟨m, looked, uncut, leads, served⟩ := leads_of_hop passed
              refine (ih _ _).trans
                ⟨fun led => .inr ⟨m, name', zone', looked, uncut, leads, served, led⟩, ?_⟩
              rintro (fails' | ⟨m', next', zone'', looked', -, leads', served', led⟩)
              · obtain ⟨e, failed⟩ := fails.mpr fails'
                cases failed
              · rw [looked] at looked'
                cases looked'
                rw [leads] at leads'
                cases leads'
                rw [served] at served'
                cases served'
                exact led

end Pass

section Serving

variable {db : Database} {encode : Option Encoder} {rotate : Nat → UInt32} {resp : Message}

/-- A pass over the database fails only for a SOA record. -/
theorem failsAt_serving_iff :
    FailsAt (serving db encode rotate) qtype zone name ↔ AsksUnsentSOA qtype zone name := by
  constructor
  · rintro (failed | asks | ⟨-, -, -, failed, other⟩)
    · obtain ⟨m, told⟩ := exists_zoneSays db encode zone.name name qtype
      rw [lookup_of_zoneSays rotate told] at failed
      cases failed
    · exact asks
    · rw [findZone_serving] at failed
      exact absurd (Database.eq_notFound_of_findZone failed) other
  · exact .soa

/-- **Resolution over the database fails exactly when the question leads to an unsent SOA
record.** -/
theorem failed_resolveLoop_iff {left : Nat} :
    (∃ e, ((serving db encode rotate).resolveLoop qtype left resp zone name owner).2 = some e) ↔
      LeadsToUnsentSOA (serving db encode rotate) qtype left zone name := by
  rw [failed_resolveLoop_iff_leads]
  unfold LeadsToFailure LeadsToUnsentSOA
  simp only [failsAt_serving_iff]

end Serving

/-! ## The AA bit -/

/-- A pass that does not end at a delegation keeps the AA bit. -/
theorem aa_hop {m : Match} (looked : h.lookup zone name qtype = .ok m)
    (uncut : m.cut = []) (i : Nat) (resp : Message) (owner : Bytes) :
    (h.hop i resp zone name owner qtype).1.aa = resp.aa := by
  cases leads : target qtype zone name m with
  | none => exact (hop_of_no_target h i resp owner looked uncut leads).aa
  | some next =>
      obtain ⟨added, -, passed⟩ := hop_of_target h i resp owner looked uncut leads
      rw [passed]
      rfl

theorem aa_referral (resp : Message) (zone : Zone) (m : Match) :
    (h.referral resp zone m).aa = false := Message.aa_clearAA resp

/-- A later name of the chain, within the passes the loop makes, lies at or below a
delegation. -/
def LeadsToCut (h : Handler) (qtype : UInt16) (zone : Zone) (name : Bytes) : Prop :=
  ∃ (k : Nat) (last : Zone) (lastName : Bytes) (m : Match), 1 ≤ k ∧ k ≤ maxChain ∧
    Leads h qtype k zone name last lastName ∧ h.lookup last lastName qtype = .ok m ∧ m.cut ≠ []

/-- The pass at the delegation clears the bit. -/
theorem LeadsToCut.aa_resolveLoop {h : Handler} {qtype : UInt16} {zone : Zone} {name : Bytes}
    (leads : LeadsToCut h qtype zone name) (resp : Message) (owner : Bytes) :
    (h.resolveLoop qtype (maxChain + 1) resp zone name owner).1.aa = false := by
  obtain ⟨k, last, lastName, m, -, short, led, looked, cut⟩ := leads
  obtain ⟨added, lastOwner, -, loop⟩ := resolveLoop_of_leads led (maxChain - k + 1) resp owner
  have passes : maxChain - k + 1 + k = maxChain + 1 := by omega
  rw [passes, resolveLoop_of_done (hop_of_cut looked cut)] at loop
  rw [loop, aa_referral]

/-- No pass clears the bit if neither the first nor a later one comes to a delegation. -/
theorem aa_resolveLoop_of_not_leadsToCut {h : Handler} {qtype : UInt16} {zone : Zone} {name : Bytes}
    {m : Match} {resp : Message} (looked : h.lookup zone name qtype = .ok m) (uncut : m.cut = [])
    (never : ¬ LeadsToCut h qtype zone name) (set : resp.aa = true) (owner : Bytes) :
    (h.resolveLoop qtype (maxChain + 1) resp zone name owner).1.aa = true := by
  refine resolveLoop_keeps (P := fun resp => resp.aa = true) (fun {k last lastName} short led i
    resp owner set => ?_) set
  cases looked' : h.lookup last lastName qtype with
  | error e => simpa [hop, looked'] using set
  | ok m' =>
      by_cases uncut' : m'.cut = []
      · rw [aa_hop looked' uncut']
        exact set
      · rcases Nat.eq_zero_or_pos k with rfl | positive
        · cases led
          rw [looked] at looked'
          cases looked'
          exact absurd uncut uncut'
        · exact absurd ⟨k, last, lastName, m', positive, Nat.lt_succ_iff.mp short, led, looked',
            uncut'⟩ never

/-- A name that is delegated itself leads nowhere. -/
theorem not_leadsToCut_of_cut {h : Handler} {qtype : UInt16} {zone : Zone} {name : Bytes}
    {m : Match} (looked : h.lookup zone name qtype = .ok m) (cut : m.cut ≠ []) :
    ¬ LeadsToCut h qtype zone name := by
  rintro ⟨k, last, lastName, m', positive, -, led, -⟩
  cases led with
  | here => exact absurd positive (by decide)
  | next first uncut =>
      rw [looked] at first
      cases first
      exact cut uncut

/-- **When the AA bit is about the name asked for.** -/
theorem handle_aa_iff (h : Handler) (req : Message) (q : Question) (zone : Zone) (m : Match)
    (resp : Message) (single : req.questions = [q]) (reaches : Reaches req q)
    (served : h.resolver.findZone (questionName q.name) = .ok zone)
    (looked : h.lookup zone (questionName q.name) q.type = .ok m)
    (resolved : h.resolve (Message.newResponse req).setAA zone
      (questionName q.name) (trimSuffix q.name (ascii ".")) q.type = (resp, none)) :
    ((h.handle req).aa = true ↔ m.cut = []) ↔
      ¬ LeadsToCut h q.type zone (questionName q.name) := by
  have handled : h.handle req = resp := by rw [handle_of_reaches single reaches served, resolved]
  rw [handled]
  have final : resp = (h.resolveLoop q.type (maxChain + 1) (Message.newResponse req).setAA zone
      (questionName q.name) (trimSuffix q.name (ascii "."))).1 := by
    rw [resolve] at resolved
    rw [resolved]
  generalize questionName q.name = qname at looked final
  by_cases uncut : m.cut = []
  · rw [iff_true_right uncut, final]
    constructor
    · intro set leads
      rw [leads.aa_resolveLoop] at set
      cases set
    · exact fun never => aa_resolveLoop_of_not_leadsToCut looked uncut never (Message.aa_setAA _) _
  · have cleared : resp.aa = false := by
      rw [final, resolveLoop_of_done (hop_of_cut looked uncut), aa_referral]
    rw [cleared]
    exact iff_of_true (by simp [uncut]) (not_leadsToCut_of_cut looked uncut)

/-! ## An alias into a delegation -/

/-- The zone delegates `lab.a.org`, and `www.a.org` is an alias for a name below it. -/
def aliasingContent : Database :=
  { bareContent with
    records :=
      [{ id := 1, zone := ascii "a.org", name := ascii "www.a.org"
         nameRev := reverseName (ascii "www.a.org"), type := ascii "CNAME", ttl := 300
         rdata := ascii "x.lab.a.org", reversed := rfl },
       { id := 2, zone := ascii "a.org", name := ascii "lab.a.org"
         nameRev := reverseName (ascii "lab.a.org"), type := ascii "NS", ttl := 300
         rdata := ascii "ns.b.org", reversed := rfl }]
    nextID := 3
    foreignKey := by decide
    idKey := by decide
    idBound := by decide }

def aliasQuery (qtype : UInt16) : Message :=
  { questions := [{ name := ascii "www.a.org", type := qtype, cls := classIN }] }

/-- **The alias is data of its zone, and the response with it has the AA bit clear.** -/
theorem aliasQuery_not_authoritative :
    aliasingContent.findZone (ascii "www.a.org") = .ok (Zone.plain (ascii "a.org")) ∧
      (∃ m, (serving aliasingContent none fun _ => 0).lookup (Zone.plain (ascii "a.org"))
        (ascii "www.a.org") typeA =
        .ok m ∧ m.cut = []) ∧
      ((serving aliasingContent none fun _ => 0).handle (aliasQuery typeA)).answers.map RR.type =
        [typeCNAME] ∧
      ((serving aliasingContent none fun _ => 0).handle (aliasQuery typeA)).rcode = rcodeNoError ∧
      ((serving aliasingContent none fun _ => 0).handle (aliasQuery typeA)).aa = false := by
  refine ⟨by decide +kernel, ⟨_, rfl, by decide +kernel⟩, by decide +kernel, by decide +kernel,
    by decide +kernel⟩

/-- Asked for itself, the alias leads nowhere, and the bit is set. -/
theorem handle_aa_iff_aliasItself :
    ∃ m resp, (serving aliasingContent none fun _ => 0).lookup (Zone.plain (ascii "a.org"))
        (questionName (ascii "www.a.org")) typeCNAME = .ok m ∧
      (serving aliasingContent none fun _ => 0).resolve
        (Message.newResponse (aliasQuery typeCNAME)).setAA (Zone.plain (ascii "a.org"))
        (questionName (ascii "www.a.org")) (trimSuffix (ascii "www.a.org") (ascii "."))
        typeCNAME = (resp, none) ∧
      ((((serving aliasingContent none fun _ => 0).handle (aliasQuery typeCNAME)).aa = true ↔
        m.cut = []) ↔
          ¬ LeadsToCut (serving aliasingContent none fun _ => 0) typeCNAME
            (Zone.plain (ascii "a.org"))
            (questionName (ascii "www.a.org"))) := by
  obtain ⟨m, looked⟩ : ∃ m,
      (serving aliasingContent none fun _ => 0).lookup (Zone.plain (ascii "a.org"))
      (questionName (ascii "www.a.org")) typeCNAME = .ok m := ⟨_, rfl⟩
  obtain ⟨resp, resolved⟩ : ∃ resp, (serving aliasingContent none fun _ => 0).resolve
      (Message.newResponse (aliasQuery typeCNAME)).setAA (Zone.plain (ascii "a.org"))
      (questionName (ascii "www.a.org")) (trimSuffix (ascii "www.a.org") (ascii "."))
      typeCNAME = (resp, none) := ⟨_, rfl⟩
  exact ⟨m, resp, looked, resolved, handle_aa_iff _ (aliasQuery typeCNAME)
    { name := ascii "www.a.org", type := typeCNAME, cls := classIN }
    (Zone.plain (ascii "a.org")) m resp rfl
    (by decide +kernel) (by decide +kernel) looked resolved⟩

end Handler

end ShardDNS.DNS

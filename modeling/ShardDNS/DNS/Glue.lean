import ShardDNS.DNS.Chains
import ShardDNS.DNS.Datagrams
import ShardDNS.DNS.Replies

/-!
# Glue in datagrams

A referral names the servers of a delegation. A server whose name lies at or below the
delegated name can be reached only with the addresses that the referral brings along
(`IsGlue`), so that a datagram without them has to say that it is not complete.

`addGlue` collects all of them when there are at most sixteen servers (`mem_addGlueLoop`).
`PackUDP` then takes them out again when the rest fits and they do not, and leaves the TC bit
clear. That is the one way in which addresses that can be written are lost
(`referral_glue_iff`, `longServer_loses_glue`).
-/

set_option autoImplicit false

namespace ShardDNS.DNS

open Go LabelTree Store

/-! ## Required addresses -/

/-- The name a record points to, as `addGlue` looks it up. -/
def glueTarget (r : Record) : Bytes := toLower (rdataNames (typeCode r.type) ((wireOf r).getD []))

/-- The servers that the records name. -/
def serverNames (records : List Record) : Finset Bytes :=
  ((records.map glueTarget).filter (· ≠ [])).toFinset

/-- The address records of a name. -/
def addressesAt (db : Database) (encode : Option Encoder) (zone name : Bytes) : List Record :=
  (db.recordsAt encode zone name).filter fun a => a.type = ascii "A" ∨ a.type = ascii "AAAA"

/-- A referral needs the address: it is one of a server at or below the delegated name, and
the zone holds it. -/
structure IsGlue (db : Database) (encode : Option Encoder) (zone : Bytes) (m : Handler.Match)
    (server : Bytes) (a : Record) : Prop where
  serves : server ∈ serverNames m.cut
  below : server = m.cutName ∨ m.cutName ∈ ancestors dot server
  inside : inZone server zone = true
  address : a ∈ addressesAt db encode zone server

/-- The message has the record in its additional section, under a name that is written. -/
def Message.Carries (m : Message) (name : Bytes) (a : Record) : Prop :=
  Packable name ∧ ∃ rr ∈ m.additional, rrOf name a = some rr

variable {records : List Record} {server : Bytes}

theorem mem_serverNames :
    server ∈ serverNames records ↔ server ≠ [] ∧ ∃ r ∈ records, glueTarget r = server := by
  simp only [serverNames, List.mem_toFinset, List.mem_filter, List.mem_map, decide_eq_true_eq]
  exact and_comm

namespace Handler

variable {db : Database} {encode : Option Encoder} {rotate : Nat → UInt32} {zone : Zone}

/-! ## What is collected -/

variable {seen : List Bytes}

theorem mem_addGlueLoop_of_mem {h : Handler} {additional : List RR} {rr : RR}
    (member : rr ∈ additional) : rr ∈ h.addGlueLoop zone records seen additional := by
  obtain ⟨more, appended, -⟩ :
      ∃ more, h.addGlueLoop zone records seen additional = additional ++ more ∧
      ∀ rr ∈ more, rr.type = typeA ∨ rr.type = typeAAAA := by
    rw [← Calls.answer_addGlueLoop]
    exact Calls.addresses_addGlueLoop.answer
  rw [appended]
  exact List.mem_append_left _ member

theorem serverNames_cons {r : Record} (serves : server ∈ serverNames (r :: records)) :
    glueTarget r = server ∨ server ∈ serverNames records := by
  obtain ⟨named, found, member, target⟩ := mem_serverNames.mp serves
  rcases List.mem_cons.mp member with rfl | later
  · exact .inl target
  · exact .inr (mem_serverNames.mpr ⟨named, found, later, target⟩)

theorem serverNames_subset_cons (r : Record) (records : List Record) :
    serverNames records ⊆ serverNames (r :: records) := by
  intro server serves
  obtain ⟨named, found, member, target⟩ := mem_serverNames.mp serves
  exact mem_serverNames.mpr ⟨named, found, List.mem_cons_of_mem _ member, target⟩

/-- While a server is still to come, there is room for it. -/
theorem length_seen_lt {servers : Finset Bytes} (distinct : seen.Nodup)
    (known : ∀ name ∈ seen, name ∈ servers) (member : server ∈ servers) (fresh : server ∉ seen) :
    seen.length < servers.card := by
  rw [← List.toFinset_card_of_nodup distinct]
  refine Finset.card_lt_card ⟨fun name inside => known name (List.mem_toFinset.mp inside), ?_⟩
  exact fun all => fresh (List.mem_toFinset.mp (all member))

/-- **All the addresses are collected** of each server still to come, when there are at most
sixteen servers. -/
theorem mem_addGlueLoop {servers : Finset Bytes} (few : servers.card ≤ maxAdditional)
    {additional : List RR} {rr : RR} (distinct : seen.Nodup) (known : ∀ name ∈ seen, name ∈ servers)
    (named : serverNames records ⊆ servers) (serves : server ∈ serverNames records)
    (fresh : server ∉ seen) (inside : inZone server zone.name = true)
    (sent : rr ∈ (addressesAt db encode zone.name server).filterMap (rrOf server)) :
    rr ∈ (serving db encode rotate).addGlueLoop zone records seen additional := by
  induction records generalizing seen additional with
  | nil => simp [serverNames] at serves
  | cons r records ih =>
      have room := length_seen_lt distinct known (named serves) fresh
      have nonempty := (mem_serverNames.mp serves).1
      have named' := (serverNames_subset_cons r records).trans named
      unfold addGlueLoop
      rw [if_neg (by omega)]
      dsimp only
      change rr ∈ if glueTarget r = [] ∨ ¬ inZone (glueTarget r) zone.name = true then _
        else if seen.contains (glueTarget r) = true then _ else _
      by_cases skip : glueTarget r = [] ∨ ¬ inZone (glueTarget r) zone.name = true
      · rw [if_pos skip]
        refine ih distinct known named' ((serverNames_cons serves).resolve_left ?_) fresh
        rintro rfl
        exact skip.elim nonempty fun outside => outside inside
      · rw [if_neg skip]
        rw [not_or, not_not] at skip
        by_cases again : seen.contains (glueTarget r) = true
        · rw [if_pos again]
          refine ih distinct known named' ((serverNames_cons serves).resolve_left ?_) fresh
          rintro rfl
          exact fresh (List.contains_iff_mem.mp again)
        · rw [if_neg again, lookupName_serving]
          have new : glueTarget r ∉ seen := fun member => again (List.contains_iff_mem.mpr member)
          dsimp only
          by_cases same : glueTarget r = server
          · subst same
            refine mem_addGlueLoop_of_mem ?_
            rw [foldl_appendRR, Database.records_lookupName]
            exact List.mem_append_right _ sent
          · refine ih (List.nodup_cons.mpr ⟨new, distinct⟩) ?_ named'
              ((serverNames_cons serves).resolve_left same) ?_
            · refine List.forall_mem_cons.mpr ⟨named ?_, known⟩
              exact mem_serverNames.mpr ⟨skip.1, r, List.mem_cons_self, rfl⟩
            · exact List.not_mem_cons_of_ne_of_not_mem (Ne.symm same) fresh

/-! ## The referral that is sent -/

/-- What a question that leads to a delegation gets. -/
theorem handle_of_leads {h : Handler} {req : Message} {q : Question} {last : Zone}
    {lastName : Bytes} {k : Nat} {m : Match} (single : req.questions = [q])
    (reaches : Reaches req q)
    (served : h.resolver.findZone (questionName q.name) = .ok zone)
    (led : Leads h q.type k zone (questionName q.name) last lastName)
    (short : k ≤ maxChain) (looked : h.lookup last lastName q.type = .ok m) (cuts : m.cut ≠ []) :
    ∃ added, h.handle req =
      h.referral { (Message.newResponse req).setAA with answers := added } last m := by
  obtain ⟨added, lastOwner, -, loop⟩ := resolveLoop_of_leads led (maxChain - k + 1)
    (Message.newResponse req).setAA (trimSuffix q.name (ascii "."))
  have passes : maxChain - k + 1 + k = maxChain + 1 := by omega
  rw [passes, resolveLoop_of_done (hop_of_cut looked cuts)] at loop
  exact ⟨_, by rw [handle_of_reaches single reaches served, resolve, loop]⟩

/-- A referral carries the glue, if it can be written. -/
theorem carries_referral {resp : Message} {m : Match} {a : Record}
    (few : (serverNames m.cut).card ≤ maxAdditional)
    (glue : IsGlue db encode zone.name m server a) :
    ((serving db encode rotate).referral resp zone m).Carries server a ↔
      Packable server ∧ Servable a := by
  refine and_congr_right fun _ => ⟨?_, fun servable => ?_⟩
  · rintro ⟨rr, -, sent⟩
    by_contra unservable
    rw [(rrOf_eq_none_iff server).mpr unservable] at sent
    cases sent
  · obtain ⟨rr, sent⟩ := Option.ne_none_iff_exists'.mp fun unsent =>
      (rrOf_eq_none_iff server).mp unsent servable
    refine ⟨rr, ?_, sent⟩
    exact mem_addGlueLoop few List.nodup_nil (by simp) (Finset.Subset.refl _) glue.serves (by simp)
      glue.inside (List.mem_filterMap.mpr ⟨a, glue.address, sent⟩)

/-- A datagram keeps the addresses needed, or says that it was cut, unless it is the additional
section that made the response too long. -/
theorem carries_or_truncated_iff {resp : Message} {needed good : Bytes → Record → Prop}
    (untruncated : resp.flags &&& flagTC = 0) (needs : ∃ server a, needed server a)
    (carries : ∀ server a, needed server a → (resp.Carries server a ↔ good server a)) :
    ((∀ server a, needed server a → resp.datagram.Carries server a) ∨
        resp.datagram.flags &&& flagTC ≠ 0) ↔
      (resp.udpSize < resp.encode.length → resp.udpSize < resp.trimmed.encode.length) ∧
      (resp.encode.length ≤ resp.udpSize → ∀ server a, needed server a → good server a) := by
  by_cases whole : resp.encode.length ≤ resp.udpSize
  · rw [Message.datagram_of_short whole]
    constructor
    · rintro (all | truncated)
      · refine ⟨fun long => absurd whole (Nat.not_le.mpr long), fun _ server a glue => ?_⟩
        exact (carries server a glue).mp (all server a glue)
      · exact absurd untruncated truncated
    · rintro ⟨-, written⟩
      exact .inl fun server a glue => (carries server a glue).mpr (written whole server a glue)
  · rw [Nat.not_le] at whole
    by_cases rest : resp.trimmed.encode.length ≤ resp.udpSize
    · -- the additional section is left out, and the TC bit stays clear
      have present : resp.additional ≠ [] := by
        intro empty
        have same : resp.trimmed = resp := by rw [Message.trimmed, ← empty]
        rw [same] at rest
        omega
      rw [Message.datagram_of_trimmed whole present rest]
      refine iff_of_false ?_ fun keeps => absurd rest (Nat.not_le.mpr (keeps.1 whole))
      rintro (all | truncated)
      · obtain ⟨server, a, glue⟩ := needs
        obtain ⟨-, rr, member, -⟩ := all server a glue
        cases member
      · exact truncated untruncated
    · rw [Nat.not_le] at rest
      rw [Message.datagram_of_long whole (.inr rest)]
      exact iff_of_true (.inr resp.flags_truncated)
        ⟨fun _ => rest, fun fitting => absurd fitting (Nat.not_le.mpr whole)⟩

/-- **When a referral keeps its glue.** Let a question lead, at once or by way of redirections, to
a delegation with at most sixteen servers, one of which needs its addresses from here, and let
`PackUDP` produce a datagram for the response. Every address needed is in it, or it has the TC
bit, exactly when the additional section is not what makes the response too long, and every
address can be written if the response fits as it is. -/
theorem referral_glue_iff (db : Database) (encode : Option Encoder) (rotate : Nat → UInt32)
    (req : Message) (q : Question) (zone last : Zone) (lastName : Bytes) (k : Nat) (m : Match)
    (resp : Message) (out : Bytes) (single : req.questions = [q]) (reaches : Reaches req q)
    (served : db.findZone (questionName q.name) = .ok zone)
    (led : Leads (serving db encode rotate) q.type k zone (questionName q.name)
      last lastName)
    (short : k ≤ maxChain) (looked : (serving db encode rotate).lookup last lastName q.type = .ok m)
    (cuts : m.cut ≠ []) (few : (serverNames m.cut).card ≤ maxAdditional)
    (needs : ∃ server a, IsGlue db encode last.name m server a)
    (handled : (serving db encode rotate).handle req = resp) (packed : resp.packUDP = .ok out) :
    out = resp.datagram.encode ∧
      (((∀ server a, IsGlue db encode last.name m server a → resp.datagram.Carries server a) ∨
          resp.datagram.flags &&& flagTC ≠ 0) ↔
        (resp.udpSize < resp.encode.length → resp.udpSize < resp.trimmed.encode.length) ∧
        (resp.encode.length ≤ resp.udpSize →
          ∀ server a, IsGlue db encode last.name m server a → Packable server ∧ Servable a)) := by
  have fits : resp.RDataFits := by
    by_contra unfit
    rw [Message.packUDP_of_not_rdataFits unfit] at packed
    cases packed
  rw [Message.packUDP_of_fits fits] at packed
  refine ⟨(Except.ok.inj packed).symm, ?_⟩
  have untruncated : resp.flags &&& flagTC = 0 := by
    rw [← handled]
    exact untruncated_of_envelope (envelope_handle _ req)
  have carries : ∀ server a, IsGlue db encode last.name m server a →
      (resp.Carries server a ↔ Packable server ∧ Servable a) := by
    intro server a glue
    obtain ⟨added, referred⟩ := handle_of_leads single reaches
      (by rw [findZone_serving, served]) led short looked cuts
    rw [← handled, referred]
    exact carries_referral few glue
  exact carries_or_truncated_iff untruncated needs carries

/-! ## A server with a long name -/

/-- A name of 201 bytes below `sub.d.org`. -/
def longServer : Bytes :=
  [dot].intercalate (List.replicate 3 (List.replicate 63 97) ++
    [ascii "sub", ascii "d", ascii "org"])

/-- The zone delegates `sub.d.org` to that server and holds two addresses of it. -/
def longServerContent : Database :=
  { zones := [Zone.plain (ascii "d.org")]
    records :=
      [{ id := 1, zone := ascii "d.org", name := ascii "sub.d.org"
         nameRev := reverseName (ascii "sub.d.org"), type := ascii "NS", ttl := 300
         rdata := longServer, reversed := rfl },
       { id := 2, zone := ascii "d.org", name := longServer, nameRev := reverseName longServer
         type := ascii "A", ttl := 300, rdata := ascii "192.0.2.1", reversed := rfl },
       { id := 3, zone := ascii "d.org", name := longServer, nameRev := reverseName longServer
         type := ascii "A", ttl := 300, rdata := ascii "192.0.2.2", reversed := rfl }]
    nextID := 4
    zoneKey := by decide
    foreignKey := by decide
    idKey := by decide
    idBound := by decide }

def longServerHandler : Handler := serving longServerContent none fun _ => 0

def delegatedQuestion : Question := { name := ascii "x.sub.d.org", type := typeA, cls := classIN }

/-- A query, with EDNS0 or without. -/
def delegatedQuery (edns0 : Bool) : Message := { questions := [delegatedQuestion], edns0 := edns0 }

/-- What the zone says about the question. -/
def delegatedMatch : Match :=
  { cutName := ascii "sub.d.org"
    cut := typedAt longServerContent none (ascii "d.org") (ascii "sub.d.org") typeNS }

theorem lookup_delegated : longServerHandler.lookup (Zone.plain (ascii "d.org"))
    (questionName delegatedQuestion.name) typeA = .ok delegatedMatch := by
  decide +kernel

theorem isGlue_longServer :
    IsGlue longServerContent none (Zone.plain (ascii "d.org")).name delegatedMatch longServer
    { id := 2, zone := ascii "d.org", name := longServer, type := ascii "A", ttl := 300
      rdata := ascii "192.0.2.1" } :=
  ⟨by decide +kernel, by decide +kernel, by decide +kernel, by decide +kernel⟩

/-- Without EDNS0 the addresses do not fit, and the datagram has neither them nor the TC bit. -/
theorem longServer_loses_glue :
    Reaches (delegatedQuery false) delegatedQuestion ∧
      longServerContent.findZone (questionName delegatedQuestion.name) =
        .ok (Zone.plain (ascii "d.org")) ∧
      longServerHandler.lookup (Zone.plain (ascii "d.org"))
        (questionName delegatedQuestion.name) typeA = .ok delegatedMatch ∧
      (serverNames delegatedMatch.cut).card ≤ maxAdditional ∧
      (∃ a, IsGlue longServerContent none (Zone.plain (ascii "d.org")).name delegatedMatch
        longServer a) ∧
      ∃ out read, (longServerHandler.handle (delegatedQuery false)).packUDP = .ok out ∧
        parseMessage out = .ok read ∧ read.additional = [] ∧ read.flags &&& flagTC = 0 := by
  refine ⟨by decide +kernel, by decide +kernel, lookup_delegated, by decide +kernel,
    ⟨_, isGlue_longServer⟩, ?_⟩
  have sent : ((longServerHandler.handle (delegatedQuery false)).packUDP.toOption.bind fun out =>
      (parseMessage out).toOption.map fun read => (read.additional, read.flags &&& flagTC)) =
        some ([], 0) := by decide +kernel
  obtain ⟨out, packed, sent⟩ := Option.bind_eq_some_iff.mp sent
  obtain ⟨read, parsed, same⟩ := Option.map_eq_some_iff.mp sent
  exact ⟨out, read, toOption_eq_some_iff.mp packed, toOption_eq_some_iff.mp parsed,
    (Prod.mk.inj same).1, (Prod.mk.inj same).2⟩

/-- With EDNS0 everything fits. -/
theorem referral_glue_iff_edns0 :
    (∀ server a, IsGlue longServerContent none (Zone.plain (ascii "d.org")).name
      delegatedMatch server a →
        (longServerHandler.handle (delegatedQuery true)).datagram.Carries server a) ∨
      (longServerHandler.handle (delegatedQuery true)).datagram.flags &&& flagTC ≠ 0 := by
  have only : serverNames delegatedMatch.cut = {longServer} := by decide +kernel
  have addresses :
      ∀ a ∈ addressesAt longServerContent none (Zone.plain (ascii "d.org")).name longServer,
      Servable a := by decide +kernel
  have packable : Packable longServer := packable_iff.mpr (by decide +kernel)
  have short : (longServerHandler.handle (delegatedQuery true)).encode.length ≤
      (longServerHandler.handle (delegatedQuery true)).udpSize := by decide +kernel
  have fits : (longServerHandler.handle (delegatedQuery true)).RDataFits := by
    unfold Message.RDataFits
    decide +kernel
  have packed := Message.packUDP_of_fits fits
  generalize handled : longServerHandler.handle (delegatedQuery true) = resp at short packed ⊢
  refine (referral_glue_iff longServerContent none (fun _ => 0) (delegatedQuery true)
    delegatedQuestion (Zone.plain (ascii "d.org")) (Zone.plain (ascii "d.org")) _ 0 delegatedMatch
      resp _ rfl (by decide +kernel)
    (by decide +kernel) (.here _ _) (Nat.zero_le _) lookup_delegated (by decide +kernel)
    (by decide +kernel) ⟨_, _, isGlue_longServer⟩ handled packed).2.mpr
    ⟨fun long => absurd short (Nat.not_le.mpr long), fun _ server a glue => ?_⟩
  have server' : server = longServer := by
    have serves := glue.serves
    rwa [only, Finset.mem_singleton] at serves
  subst server'
  exact ⟨packable, addresses a glue.address⟩

end Handler

end ShardDNS.DNS

import ShardDNS.API.Service
import ShardDNS.DNS.Negative
import ShardDNS.DNS.RoundTrip

/-!
# The SOA record of an accepted zone

`validateSOA` packs the lower-cased names of the primary server and of the mailbox;
`soaRR` packs the names as they are stored. Lower-casing keeps the number of labels and
which of them are empty, but not how many bytes they have: the Kelvin sign takes three
bytes and its lower-case form `k` one. So a zone may be accepted whose SOA record cannot be
encoded, and it is served exactly when the names fit before they are lower-cased
(`soaServed_iff`).
-/

set_option autoImplicit false

namespace ShardDNS.API

open Go DNS Store Handler

/-! ## The two checks -/

/-- The name of the mailbox in the SOA record. -/
def adminName (z : Zone) : Bytes := replaceFirst z.adminEmail atSign dot

/-- The labels of the name, as it is given, have at most 63 bytes, and the name at most 255
octets. -/
def ShortName (name : Bytes) : Prop :=
  (∀ label ∈ textLabels name, label.length ≤ maxLabelLen) ∧
    wireLength (textLabels name) ≤ maxNameLen

/-- A name that can be packed in lower case can be packed if it is short enough. -/
theorem packable_iff_shortName {name : Bytes} (accepted : Packable (toLower name)) :
    Packable name ↔ ShortName name := by
  have lowered := (packable_iff.mp accepted).1
  rw [textLabels_toLower] at lowered
  rw [packable_iff]
  constructor
  · rintro ⟨fit, short⟩
    exact ⟨fun label member => (fit label member).2, short⟩
  · rintro ⟨fit, short⟩
    refine ⟨fun label member => ⟨?_, fit label member⟩, short⟩
    have nonempty := (lowered (toLower label) (List.mem_map_of_mem member)).1
    rw [List.length_pos_iff, ne_eq, toLower_eq_nil_iff] at nonempty
    exact List.length_pos_iff.mpr nonempty

theorem packable_of_validateSOA {z : Zone} (valid : validateSOA z = .ok ()) :
    Packable (toLower z.primaryNS) ∧ Packable (toLower (adminName z)) := by
  simp only [validateSOA, bind_eq_ok, mapError_eq_ok] at valid
  obtain ⟨primary, packed, admin, packed', -⟩ := valid
  exact ⟨⟨primary, packed⟩, ⟨admin, packed'⟩⟩

/-- `packName` writes behind what is there. -/
theorem packName_append {buf name : Bytes} :
    (∃ out, packName buf name = .ok out) ↔ Packable name := by
  rw [packable_iff]
  constructor
  · rintro ⟨out, packed⟩
    obtain ⟨fit, short, -⟩ := packName_eq_ok_iff.mp packed
    exact ⟨fit, short⟩
  · rintro ⟨fit, short⟩
    exact ⟨_, packName_eq_ok_iff.mpr ⟨fit, short, rfl⟩⟩

theorem exists_soaRR_iff {z : Zone} :
    (∃ soa, soaRR z = .ok soa) ↔ Packable z.primaryNS ∧ Packable (adminName z) := by
  simp only [soaRR, buildSOA, bind_eq_ok]
  constructor
  · rintro ⟨soa, rdata, ⟨first, packed, second, packed', -⟩, -⟩
    exact ⟨⟨first, packed⟩, packName_append.mp ⟨second, packed'⟩⟩
  · rintro ⟨⟨first, packed⟩, admin⟩
    obtain ⟨second, packed'⟩ := packName_append.mpr admin
    exact ⟨_, _, ⟨first, packed, second, packed', rfl⟩, rfl⟩

/-! ## Accepted zones -/

/-- The check does not look at the name of the zone and its serial. -/
theorem validateSOA_row (z : Zone) (name : Bytes) (serial : Int) :
    validateSOA { z with name := name, serial := serial } = validateSOA z := rfl

theorem validateSOA_settingsOf (z old : Zone) (now : Int) :
    validateSOA (Database.settingsOf z now old) = validateSOA z := rfl

/-- What is stored for an accepted request has passed the check. -/
theorem validateSOA_of_createZone {db : Database} {now : Int} {m : ZoneRequest}
    {reply : Reply Zone} (done : createZone db now m = .ok reply) :
    validateSOA reply.effect.value = .ok () ∧ reply.effect.value ∈ reply.effect.db.zones := by
  simp only [createZone, bind_eq_ok, mapError_eq_ok] at done
  obtain ⟨⟨⟩, -, ⟨⟩, valid, effect, created, same⟩ := done
  cases same
  unfold Database.createZone at created
  dsimp only at created
  split at created
  · cases created
  · split at created
    · cases created
    · cases created
      exact ⟨(validateSOA_row _ _ _).trans valid, by simp [Database.insertZone]⟩

theorem validateSOA_of_updateZone {seen db : Database} {now : Int} {m : ZoneRequest}
    {reply : Reply Zone} (done : updateZone seen db now m = .ok reply) :
    validateSOA reply.effect.value = .ok () ∧ reply.effect.value ∈ reply.effect.db.zones := by
  simp only [updateZone, bind_eq_ok, mapError_eq_ok] at done
  obtain ⟨z, -, ⟨⟩, valid, effect, updated, same⟩ := done
  cases same
  unfold Database.updateZone at updated
  split at updated
  · cases updated
  · rename_i old found
    cases updated
    refine ⟨(validateSOA_settingsOf _ _ _).trans valid,
      List.mem_map.mpr ⟨old, List.mem_of_find?_eq_some found, ?_⟩⟩
    exact if_pos (by simpa using List.find?_some found)

/-! ## What is served -/

/-- A question for the SOA record of the zone that is put to the resolver, which finds the zone
and answers for its apex. -/
structure AsksSOA (h : Handler) (zone : Zone) (req : Message) (q : Question) : Prop where
  single : req.questions = [q]
  reaches : Reaches req q
  type : q.type = typeSOA
  name : questionName q.name = zone.name
  served : h.resolver.findZone zone.name = .ok zone
  looked : ∃ m, h.lookup zone zone.name typeSOA = .ok m

/-- The SOA record of the zone can be encoded, answers the questions for it, and stands in
every negative answer. -/
structure SOAServed (zone : Zone) : Prop where
  encoded : ∃ soa, soaRR zone = .ok soa
  answered : ∀ h req q, AsksSOA h zone req q →
    (h.handle req).rcode ≠ rcodeServerFailure ∧
      ∃ soa, soaRR zone = .ok soa ∧ (h.handle req).answers = [soa]
  denied : ∀ resp found, ∃ soa, soaRR zone = .ok soa ∧
    (negative resp zone found).authority = resp.authority ++ [soa]

/-- A question for the SOA record is answered with it, or fails because it cannot be encoded. -/
theorem handle_of_asksSOA {h : Handler} {zone : Zone} {req : Message} {q : Question}
    (asks : AsksSOA h zone req q) :
    h.handle req =
      match soaRR zone with
      | .ok soa => { (Message.newResponse req).setAA with
          answers := (Message.newResponse req).setAA.answers ++ [soa] }
      | .error _ => serverFailure (Message.newResponse req).setAA := by
  obtain ⟨m, looked⟩ := asks.looked
  obtain ⟨uncut, plain⟩ := Handler.lookup_apex looked
  have served := asks.served
  rw [← asks.name] at served
  rw [handle_of_reaches asks.single asks.reaches served, asks.name, asks.type]
  have passed : h.hop 0 (Message.newResponse req).setAA zone zone.name
      (trimSuffix q.name (ascii ".")) typeSOA =
      h.answer 0 (Message.newResponse req).setAA zone zone.name (trimSuffix q.name (ascii "."))
        typeSOA m := hop_of_plain looked uncut plain
  have notANY : typeSOA ≠ typeANY := by decide
  simp only [resolve, resolveLoop, Nat.sub_self, passed, answer, if_neg notANY, decide_true,
    true_and, if_true]
  cases soaRR zone <;> rfl

/-- A zone's SOA record is served as soon as it can be encoded. -/
theorem soaServed_of_encoded {zone : Zone} {soa : RR} (encoded : soaRR zone = .ok soa) :
    SOAServed zone := by
  refine ⟨⟨soa, encoded⟩, fun h req q asks => ?_, fun resp found => ⟨soa, encoded, ?_⟩⟩
  · have empty : (Message.newResponse req).setAA.answers = [] :=
      (Message.sections_newResponse req).1
    rw [handle_of_asksSOA asks, encoded]
    refine ⟨?_, soa, rfl, by simp only [empty, List.nil_append]⟩
    change (Message.newResponse req).setAA.rcode ≠ rcodeServerFailure
    rw [Message.rcode_setAA, Message.rcode_newResponse]
    decide
  · have denied : Denies soa (found = false) resp (negative resp zone found, .done) :=
      denies_negative encoded (by simp) resp
    exact denied.authority

/-- **The SOA record of an accepted zone is served exactly when its names are short enough as
they are given.** -/
theorem soaServed_iff {seen db : Database} {now : Int} {m : ZoneRequest} {reply : Reply Zone}
    (accepted : createZone db now m = .ok reply ∨ updateZone seen db now m = .ok reply) :
    reply.effect.value ∈ reply.effect.db.zones ∧
      (SOAServed reply.effect.value ↔
        ShortName reply.effect.value.primaryNS ∧ ShortName (adminName reply.effect.value)) := by
  have stored : validateSOA reply.effect.value = .ok () ∧
      reply.effect.value ∈ reply.effect.db.zones := by
    rcases accepted with created | updated
    · exact validateSOA_of_createZone created
    · exact validateSOA_of_updateZone updated
  obtain ⟨primary, admin⟩ := packable_of_validateSOA stored.1
  refine ⟨stored.2, ?_⟩
  rw [← packable_iff_shortName primary, ← packable_iff_shortName admin, ← exists_soaRR_iff]
  constructor
  · intro served
    exact served.encoded
  · rintro ⟨soa, encoded⟩
    exact soaServed_of_encoded encoded

/-- A primary server named by 22 Kelvin signs: 66 bytes, and 22 in lower case. -/
def kelvinRequest : ZoneRequest :=
  { name := ascii "a", primaryNS := encode (List.replicate 22 '\u212a') }

/-- The names an accepted request stores. -/
def storedNames (m : ZoneRequest) : Option (Bytes × Bytes) :=
  (createZone .empty 0 m).toOption.map fun reply =>
    (reply.effect.value.primaryNS, adminName reply.effect.value)

theorem exists_of_storedNames {m : ZoneRequest} {primary admin : Bytes}
    (stored : storedNames m = some (primary, admin)) :
    ∃ reply, createZone .empty 0 m = .ok reply ∧ reply.effect.value.primaryNS = primary ∧
      adminName reply.effect.value = admin := by
  obtain ⟨reply, made, names⟩ := Option.map_eq_some_iff.mp stored
  exact ⟨reply, toOption_eq_some_iff.mp made, (Prod.mk.inj names).1, (Prod.mk.inj names).2⟩

/-- The request is accepted, and the SOA record of its zone cannot be encoded. -/
theorem kelvinRequest_not_served :
    ∃ reply, createZone .empty 0 kelvinRequest = .ok reply ∧
      (∀ soa, soaRR reply.effect.value ≠ .ok soa) ∧ ¬ SOAServed reply.effect.value := by
  have stored : storedNames kelvinRequest =
      some (kelvinRequest.primaryNS, ascii "hostmaster.a.") := by decide +kernel
  obtain ⟨reply, created, primary, -⟩ := exists_of_storedNames stored
  have unpackable : ¬ Packable kelvinRequest.primaryNS := by
    rw [packable_iff]
    decide +kernel
  have unencodable : ¬ ∃ soa, soaRR reply.effect.value = .ok soa := by
    rw [exists_soaRR_iff, primary]
    exact fun packable => unpackable packable.1
  exact ⟨reply, created, fun soa encoded => unencodable ⟨soa, encoded⟩,
    fun served => unencodable served.encoded⟩

/-- A zone with the names the service chooses has its SOA record served. -/
theorem soaServed_iff_defaults :
    ∃ reply, createZone .empty 0 { name := ascii "a" } = .ok reply ∧
      SOAServed reply.effect.value := by
  have stored : storedNames { name := ascii "a" } =
      some (ascii "ns1.a.", ascii "hostmaster.a.") := by decide +kernel
  obtain ⟨reply, created, primary, admin⟩ := exists_of_storedNames stored
  have served := @soaServed_iff .empty _ _ _ _ (.inl created)
  rw [primary, admin] at served
  refine ⟨reply, created, served.2.mpr ⟨?_, ?_⟩⟩
  · unfold ShortName
    decide +kernel
  · unfold ShortName
    decide +kernel

end ShardDNS.API

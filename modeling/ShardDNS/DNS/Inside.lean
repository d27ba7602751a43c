import ShardDNS.DNS.Calls
import ShardDNS.Store.Cached

/-!
# Lookups stay inside the zone

The cache files what it is asked under a key, and its invalidation climbs from a name to the name
of its zone. Both rest on the names being inside the zones they are looked up in. The handler
starts with the zone that was found for a name, climbs no higher than that zone, and asks for
addresses in it only. So as long as `FindZone` returns zones that enclose the names it is asked
for, every call has a key (`guided_handle`).
-/

set_option autoImplicit false

namespace ShardDNS.DNS

open Go Store Program LabelTree

/-- The key under which the cached resolver files a call. A lookup outside of the zone has none. -/
def Call.key : Call → Option Key
  | .findZone name => some (.zone name)
  | .lookupName zone name | .lookupGlue zone name =>
      if inside : 0 ∉ zone ∧ inZone name zone =
        true then some (.name ⟨zone, name, inside.1, inside.2⟩) else none

/-- A zone that is returned encloses the name it was found for, and its name has no zero byte. -/
def ZoneAbove : Event Call.Answer → Prop
  | ⟨.findZone name, answer⟩ => ∀ z : Zone, answer = .ok z → 0 ∉ z.name ∧ inZone name z.name = true
  | _ => True

/-- A name in a zone as the cache can file it. -/
def Filed (zone name : Bytes) : Prop := 0 ∉ zone ∧ inZone name zone = true

theorem Filed.key {zone name : Bytes} (filed : Filed zone name) :
    (Call.lookupName zone name).key = some (.name ⟨zone, name, filed.1, filed.2⟩) :=
  dif_pos filed

theorem Filed.key_glue {zone name : Bytes} (filed : Filed zone name) :
    (Call.lookupGlue zone name).key = some (.name ⟨zone, name, filed.1, filed.2⟩) :=
  dif_pos filed

/-- Below the zone's own name, the parent of a name is in the zone. -/
theorem Filed.parent {zone name : Bytes} (filed : Filed zone name) (below : name ≠ zone) {i : Nat}
    (cut : indexByte name dot = some i) : Filed zone (name.drop (i + 1)) := by
  refine ⟨filed.1, ?_⟩
  rcases inZone_iff.mp filed.2 with same | above
  · exact absurd same below
  · rw [ancestors_of_indexByte_some cut] at above
    rcases List.mem_cons.mp above with same | above
    · exact inZone_iff.mpr (.inl same.symm)
    · exact inZone_iff.mpr (.inr above)

/-- So is a wildcard. -/
theorem Filed.wildcard {zone name : Bytes} (filed : Filed zone name) :
    Filed zone (ascii "*." ++ name) := by
  have parent : name ∈ ancestors dot (ascii "*." ++ name) := mem_ancestors.mpr ⟨ascii "*", rfl⟩
  refine ⟨filed.1, inZone_iff.mpr (.inr ?_)⟩
  rcases inZone_iff.mp filed.2 with same | above
  · rw [← same]
    exact parent
  · exact ancestors_trans above parent

namespace Calls

open Handler (Match ResolveError)

/-- The program only makes calls that have keys. -/
abbrev Keyed {α : Type} (P : α → Prop) (p : Calling α) : Prop :=
  Guided ZoneAbove (fun q => q.key ≠ none) P p

variable {h : Handler} {i : Nat} {resp : Message} {zone : Zone} {name owner : Bytes}
  {qtype : UInt16} {m : Match}

/-! ## A pass -/

theorem keyed_lookupName (filed : Filed zone.name name) :
    Keyed (fun _ => True) (lookupName zone.name name) := by
  apply Guided.call (q := Call.lookupName zone.name name)
  · rw [filed.key]
    exact Option.some_ne_none _
  · exact fun _ _ => trivial

theorem keyed_lookupGlue (filed : Filed zone.name name) :
    Keyed (fun _ => True) (lookupGlue zone.name name) := by
  apply Guided.call (q := Call.lookupGlue zone.name name)
  · rw [filed.key_glue]
    exact Option.some_ne_none _
  · exact fun _ _ => trivial

/-- A zone that is found encloses the name. -/
theorem keyed_findZone (name : Bytes) :
    Keyed (fun answer => ∀ z : Zone, answer = .ok z → Filed z.name name) (findZone name) :=
  Guided.call (q := Call.findZone name) (Option.some_ne_none _) fun _ above => above

/-- The climb ends inside the zone. -/
theorem keyed_encloserLoop {fuel : Nat} {e : Bytes} (filed : Filed zone.name e) :
    Keyed (fun result => ∀ e', result = .ok (.inr e') → Filed zone.name e')
      (encloserLoop zone fuel e) := by
  have stopped : ∀ e, Filed zone.name e →
      Keyed (fun result => ∀ e', result = .ok (.inr e') → Filed zone.name e')
      (return .ok (.inr e) : Calling (Except StoreError (Match ⊕ Bytes))) := by
    intro e filed
    apply Guided.pure
    rintro e' ⟨⟩
    exact filed
  have matched : ∀ m, Keyed (fun result => ∀ e', result = .ok (.inr e') → Filed zone.name e')
      (return .ok (.inl m) : Calling (Except StoreError (Match ⊕ Bytes))) := by
    intro m
    apply Guided.pure
    intro e' never
    cases never
  induction fuel generalizing e with
  | zero => exact stopped e filed
  | succ fuel ih =>
      unfold encloserLoop
      split
      · exact stopped e filed
      · rename_i below
        split
        · exact stopped e filed
        · rename_i i cut
          have higher := filed.parent below cut
          refine (keyed_lookupName higher).bind fun answer _ => ?_
          cases answer with
          | error err =>
              apply Guided.pure
              intro e' never
              cases never
          | ok set =>
              dsimp only
              split
              · exact matched _
              · split
                · split
                  · exact matched _
                  · exact stopped _ higher
                · split
                  · exact stopped _ higher
                  · exact ih higher

/-- **A lookup asks only inside the zone.** -/
theorem keyed_lookup (filed : Filed zone.name name) :
    Keyed (fun _ => True) (lookup zone name qtype) := by
  have returned : ∀ result : Except StoreError Match, Keyed (fun _ => True)
      (return result : Calling _) :=
    fun _ => .pure trivial
  refine (keyed_lookupName filed).bind fun answer _ => ?_
  cases answer with
  | error e => exact returned _
  | ok set =>
      dsimp only
      split
      · split <;> exact returned _
      · split
        · exact returned _
        · refine (keyed_encloserLoop filed).bind fun result inside => ?_
          cases result with
          | error e => exact returned _
          | ok result =>
              cases result with
              | inl m => exact returned _
              | inr e =>
                  refine (keyed_lookupName (inside e rfl).wildcard).bind fun answer _ => ?_
                  cases answer with
                  | error err => exact returned _
                  | ok wild =>
                      dsimp only
                      split <;> exact returned _

theorem keyed_addGlueLoop (clean : 0 ∉ zone.name) {records : List Record} {seen : List Bytes}
    {additional : List RR} :
    Keyed (fun _ => True) (addGlueLoop zone records seen additional) := by
  induction records generalizing seen additional with
  | nil => exact .pure trivial
  | cons r records ih =>
      unfold addGlueLoop
      dsimp only
      split
      · exact .pure trivial
      · split
        · exact ih
        · rename_i proper
          split
          · exact ih
          · simp only [not_or, not_not] at proper
            refine (keyed_lookupGlue ⟨clean, proper.2⟩).bind fun answer _ => ?_
            cases answer with
            | error e => exact ih
            | ok set => exact ih

theorem keyed_addGlue (clean : 0 ∉ zone.name) (records : List Record) :
    Keyed (fun _ => True) (addGlue resp zone records) :=
  (keyed_addGlueLoop clean).bind fun _ _ => .pure trivial

/-- A step that goes on, does so with a name inside the zone found for it. -/
def FiledOnward (step : Handler.Step) : Prop :=
  ∀ zone name owner, step = .next zone name owner → Filed zone.name name

theorem keyed_redirect (target : Bytes) : Keyed FiledOnward (redirect target) := by
  have found : Keyed (fun result => ∀ z, result = .ok (some z) → Filed z.name target)
      (zoneFor target) := by
    refine (keyed_findZone target).bind fun answer above => ?_
    cases answer with
    | error e => cases e <;> exact .pure nofun
    | ok z =>
        apply Guided.pure
        rintro z' ⟨⟩
        exact above z rfl
  refine found.bind fun result above => ?_
  cases result with
  | error e => exact .pure nofun
  | ok result =>
      cases result with
      | none => exact .pure nofun
      | some z =>
          apply Guided.pure
          rintro zone' name' owner' ⟨⟩
          exact above z rfl

theorem keyed_followDNAME {d : Bytes} {r : Record} :
    Keyed (fun result => FiledOnward result.2) (followDNAME resp name owner d r) := by
  unfold followDNAME
  dsimp only
  split
  · exact .pure nofun
  · split
    · exact .pure nofun
    · split
      · exact .pure nofun
      · exact (keyed_redirect _).bind fun step onward => .pure onward

theorem keyed_followCNAME {cname : Record} {cnames : List Record} :
    Keyed (fun result => FiledOnward result.2) (followCNAME h i resp owner cname cnames) := by
  unfold followCNAME
  dsimp only
  split
  · exact .pure nofun
  · exact (keyed_redirect _).bind fun step onward => .pure onward

theorem keyed_answer (clean : 0 ∉ zone.name) :
    Keyed (fun result => FiledOnward result.2) (answer h i resp zone name owner qtype m) := by
  unfold answer
  dsimp only
  split
  · exact .pure nofun
  · split
    · split <;> exact .pure nofun
    · split
      · refine Guided.bind (P := fun _ => True) ?_ fun _ _ => .pure nofun
        unfold addAdditional
        split
        · exact keyed_addGlue clean _
        · exact .pure trivial
      · split
        · exact keyed_followCNAME
        · exact .pure nofun

theorem keyed_hop (filed : Filed zone.name name) :
    Keyed (fun result => FiledOnward result.2) (hop h i resp zone name owner qtype) := by
  refine (keyed_lookup filed).bind fun result _ => ?_
  cases result with
  | error e => exact .pure nofun
  | ok m =>
      dsimp only
      split
      · exact (keyed_addGlue filed.1 _).bind fun _ _ => .pure nofun
      · split
        · exact keyed_followDNAME
        · exact keyed_answer filed.1

theorem keyed_resolveLoop (left : Nat) (filed : Filed zone.name name) :
    Keyed (fun _ => True) (resolveLoop h qtype left resp zone name owner) := by
  induction left generalizing resp zone name owner with
  | zero => exact .pure trivial
  | succ left ih =>
      refine (keyed_hop filed).bind fun result onward => ?_
      obtain ⟨resp', step⟩ := result
      cases step with
      | failed e => exact .pure trivial
      | done => exact .pure trivial
      | next zone' name' owner' => exact ih (onward zone' name' owner' rfl)

/-! ## Requests -/

theorem keyed_handleQuestion (q : Question) : Keyed (fun _ => True) (handleQuestion h resp q) := by
  unfold handleQuestion
  dsimp only
  split
  · exact .pure trivial
  · refine (keyed_findZone _).bind fun answer above => ?_
    cases answer with
    | error e => cases e <;> exact .pure trivial
    | ok zone =>
        refine (keyed_resolveLoop (maxChain + 1) (above zone rfl)).bind fun result _ => ?_
        obtain ⟨resp', error⟩ := result
        cases error <;> exact .pure trivial

/-- **Every call of a request has a key**, as long as the zones that are found enclose the names
they are found for. -/
theorem guided_handle (h : Handler) (req : Message) : Keyed (fun _ => True) (handle h req) := by
  have refused : ∀ resp : Message, Keyed (fun _ => True) (return resp : Calling Message) :=
    fun _ => .pure trivial
  unfold handle
  dsimp only
  split
  · exact refused _
  · split
    · split
      · exact refused _
      · split
        · exact refused _
        · split
          · exact refused _
          · exact keyed_handleQuestion _
    · exact refused _

end Calls

end ShardDNS.DNS

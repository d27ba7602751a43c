import ShardDNS.Go.Encoding
import ShardDNS.Library.LabelTree

/-!
# Zone and owner names

Names are stored in lower case and without a trailing dot; a name given relative
to its zone is completed with it (`normalizeZone`, `normalizeName`). Names are
compared label by label from the right through their reversed form
(`reverseName`), which the database keeps in a column of its own.

The in-zone names are the zone's name and those that have it as an ancestor
(`inZone_iff`).

The store normalises what the API has normalised before. The two passes agree except
where the first leaves a dot or white space at the end for the second to trim
(`normalize_twice_iff`).
-/

set_option autoImplicit false

namespace ShardDNS.Store

open Go LabelTree

/-! ## Normal forms -/

def normalizeZone (name : Bytes) : Bytes := trimSuffix (toLower (trimSpace name)) (ascii ".")

def normalizeName (zone name : Bytes) : Bytes :=
  let name := trimSuffix (toLower (trimSpace name)) (ascii ".")
  if name = [] ∨ name = ascii "@" ∨ name = zone then zone
  else if hasSuffix name (ascii "." ++ zone) then name
  else name ++ ascii "." ++ zone

def normalizeType (t : Bytes) : Bytes := toUpper (trimSpace t)

/-- The labels of a name in reverse order. -/
def reverseName (name : Bytes) : Bytes := reverseLabels dot name

/-! ## Normalising twice -/

theorem lowered_normalizeZone (name : Bytes) : Lowered (normalizeZone name) :=
  (lowered_toLower _).trimSuffix_dot

theorem not_startsWithSpace_normalizeZone (name : Bytes) :
    ¬ StartsWithSpace (normalizeZone name) := by
  rintro ⟨front, member, leads⟩
  have lowered : StartsWithSpace (toLower (trimSpace name)) :=
    ⟨front, member, leads.trans (trimSuffix_isPrefix _ _)⟩
  exact not_startsWithSpace_trimSpace name lowered.of_toLower

/-- The string ends neither in a dot nor in white space. -/
def Settled (s : Bytes) : Prop := ¬ ascii "." <:+ s ∧ ¬ EndsWithSpace s

instance (s : Bytes) : Decidable (Settled s) := inferInstanceAs (Decidable (_ ∧ _))

variable {s name zone : Bytes}

/-- Lower-case text that is trimmed is its own normal form. -/
theorem normalizeZone_eq_self (lowered : Lowered s) (leading : ¬ StartsWithSpace s)
    (settled : Settled s) : normalizeZone s = s := by
  rw [normalizeZone, trimSpace_eq_self leading settled.2, lowered.toLower_eq,
    trimSuffix_eq_self settled.1]

/-- **A normalised zone is normal when nothing is left to trim at its end.** One trailing
dot is removed after white space is, so what was before the dot may need trimming
again. -/
theorem normalizeZone_normalizeZone_iff :
    normalizeZone (normalizeZone name) = normalizeZone name ↔ Settled (normalizeZone name) := by
  have lowered := lowered_normalizeZone name
  have leading := not_startsWithSpace_normalizeZone name
  refine ⟨fun same => ?_, normalizeZone_eq_self lowered leading⟩
  generalize normalizeZone name = s at same lowered leading
  rw [normalizeZone, lowered.trimSpace.toLower_eq] at same
  -- trimming only shortens, so neither step took anything
  have whole : trimSpace s = s := by
    have front : trimLeft spaceEncodings s = s :=
      trimLeft_eq_self fun front member leads => leading ⟨front, member, leads⟩
    have short := trimSpace_isPrefix s
    rw [front] at short
    refine short.eq_of_length (Nat.le_antisymm short.length_le ?_)
    calc s.length = (trimSuffix (trimSpace s) (ascii ".")).length := by rw [same]
      _ ≤ (trimSpace s).length := length_trimSuffix_le _ _
  rw [whole] at same
  refine ⟨fun ends => ?_, fun ends => ends.trimSpace_ne whole⟩
  obtain ⟨front, rfl⟩ := ends
  rw [trimSuffix_append] at same
  have shorter := congrArg List.length same
  rw [List.length_append] at shorter
  exact absurd shorter (by simp [ascii])

/-- No white-space rune has a dot in its encoding. -/
theorem dot_not_mem_spaceEncodings : ∀ space ∈ spaceEncodings, dot ∉ space := by
  decide +kernel

/-- What follows a dot decides whether the whole is settled. -/
theorem Settled.of_suffix (settled : Settled zone) (nonempty : zone ≠ [])
    (ends : ascii "." ++ zone <:+ s) : Settled s := by
  have tail : zone <:+ s := (List.suffix_append _ _).trans ends
  refine ⟨fun dotted => settled.1 ?_, ?_⟩
  · refine List.suffix_of_suffix_length_le dotted tail ?_
    exact List.length_pos_iff.mpr nonempty
  · rintro ⟨space, member, spaced⟩
    rcases Nat.lt_or_ge zone.length space.length with longer | shorter
    · -- the encoding would reach over the dot
      have reach : ascii "." ++ zone <:+ space :=
        List.suffix_of_suffix_length_le ends spaced
          (by simpa [ascii, Nat.add_comm, Nat.succ_le_iff] using longer)
      exact dot_not_mem_spaceEncodings space member (reach.subset (by simp [ascii, dot]))
    · exact settled.2 ⟨space, member, List.suffix_of_suffix_length_le spaced tail shorter⟩

/-- A dot and more after a string puts no white space at its front. -/
theorem not_startsWithSpace_append (leading : ¬ StartsWithSpace s) (tail : Bytes) :
    ¬ StartsWithSpace (s ++ ascii "." ++ tail) := by
  rintro ⟨space, member, leads⟩
  rw [List.append_assoc] at leads
  rcases Nat.lt_or_ge s.length space.length with longer | shorter
  · have reach : s ++ ascii "." <+: space := by
      refine List.prefix_of_prefix_length_le ?_ leads
        (by simpa [ascii, Nat.succ_le_iff] using longer)
      rw [← List.append_assoc]
      exact List.prefix_append _ _
    exact dot_not_mem_spaceEncodings space member (reach.subset (by simp [ascii, dot]))
  · exact leading ⟨space, member,
      List.prefix_of_prefix_length_le leads (List.prefix_append _ _) shorter⟩

/-- A string that ends in a dot does not end in white space. -/
theorem not_endsWithSpace_of_dot (ends : ascii "." <:+ s) : ¬ EndsWithSpace s := by
  rintro ⟨space, member, spaced⟩
  have reach : ascii "." <:+ space := List.suffix_of_suffix_length_le ends spaced
    (List.length_pos_iff.mpr (spaceEncodings_ne_nil space member))
  exact dot_not_mem_spaceEncodings space member (reach.subset (by simp [ascii, dot]))

/-- The completion of a trimmed name with its zone. -/
def complete (zone t : Bytes) : Bytes :=
  if t = [] ∨ t = ascii "@" ∨ t = zone then zone
  else if hasSuffix t (ascii "." ++ zone) then t
  else t ++ ascii "." ++ zone

theorem normalizeName_eq (zone name : Bytes) :
    normalizeName zone name = complete zone (normalizeZone name) := rfl

theorem complete_cases (zone t : Bytes) :
    complete zone t = zone ∨
      (ascii "." ++ zone <:+ t ∧ complete zone t = t) ∨
      (t ≠ [] ∧ complete zone t = t ++ ascii "." ++ zone) := by
  unfold complete
  split_ifs with whole ends
  · exact .inl rfl
  · exact .inr (.inl ⟨hasSuffix_iff.mp ends, rfl⟩)
  · exact .inr (.inr ⟨fun empty => whole (.inl empty), rfl⟩)

/-- A completed name ends in its zone. -/
theorem suffix_normalizeName (zone name : Bytes) : zone <:+ normalizeName zone name := by
  rw [normalizeName_eq]
  rcases complete_cases zone (normalizeZone name) with apex | ⟨ends, same⟩ | ⟨-, appended⟩
  · rw [apex]
  · rw [same]
    exact (List.suffix_append _ _).trans ends
  · rw [appended]
    exact List.suffix_append _ _

/-- A name of a zone with a name is complete. -/
theorem complete_of_suffix {t : Bytes} (nonempty : zone ≠ []) (ends : ascii "." ++ zone <:+ t) :
    complete zone t = t := by
  have length : zone.length + 1 ≤ t.length := by
    have := ends.length_le
    simpa [ascii, Nat.add_comm] using this
  have positive := List.length_pos_iff.mpr nonempty
  unfold complete
  rw [if_neg, if_pos (hasSuffix_iff.mpr ends)]
  rintro (rfl | rfl | rfl)
  · simp at length
  · have short : zone.length + 1 ≤ 1 := length
    omega
  · omega

/-- In a normal zone with a name, a normalised name is normal. -/
theorem normalizeName_normalizeName (nonempty : zone ≠ []) (normal : normalizeZone zone = zone)
    (settled : Settled zone) (name : Bytes) :
    normalizeName zone (normalizeName zone name) = normalizeName zone name := by
  simp only [normalizeName_eq]
  have lowered := lowered_normalizeZone name
  have leading := not_startsWithSpace_normalizeZone name
  rcases complete_cases zone (normalizeZone name) with apex | ⟨ends, same⟩ | ⟨-, appended⟩
  · rw [apex, normal, complete, if_pos (.inr (.inr rfl))]
  · rw [same, normalizeZone_eq_self lowered leading (settled.of_suffix nonempty ends), same]
  · have zoneLowered : Lowered zone := normal ▸ lowered_normalizeZone zone
    have dotLowered : Lowered (ascii ".") := lowered_dot
    have ends : ascii "." ++ zone <:+ normalizeZone name ++ ascii "." ++ zone := by
      rw [List.append_assoc]
      exact List.suffix_append _ _
    rw [appended, normalizeZone_eq_self ((lowered.append dotLowered).append zoneLowered)
      (not_startsWithSpace_append leading zone) (settled.of_suffix nonempty ends),
      complete_of_suffix nonempty ends]

theorem normalizeZone_append_dot {u : Bytes} (lowered : Lowered (u ++ ascii "."))
    (leading : ¬ StartsWithSpace (u ++ ascii ".")) : normalizeZone (u ++ ascii ".") = u := by
  rw [normalizeZone,
    trimSpace_eq_self leading (not_endsWithSpace_of_dot (List.suffix_append _ _)),
    lowered.toLower_eq, trimSuffix_append]

theorem complete_nil (t : Bytes) :
    complete [] t =
      if t = [] ∨ t = ascii "@" then [] else if ascii "." <:+ t then t else t ++ ascii "." := by
  simp only [complete, List.append_nil, hasSuffix_iff]
  exact if_congr (by tauto) rfl rfl

/-- In the zone without a name, the second pass removes one more dot. -/
theorem complete_nil_normalizeZone_iff {t : Bytes} (lowered : Lowered t)
    (leading : ¬ StartsWithSpace t) :
    complete [] (normalizeZone (complete [] t)) = complete [] t ↔
      t ≠ ascii "." ∧ t ≠ ascii "@." ∧ ¬ ascii ".." <:+ t := by
  by_cases whole : t = [] ∨ t = ascii "@"
  · rw [complete_nil t, if_pos whole]
    refine iff_of_true (by decide +kernel) ?_
    rcases whole with rfl | rfl <;> decide
  · by_cases ends : ascii "." <:+ t
    · obtain ⟨u, rfl⟩ := ends
      rw [complete_nil (u ++ ascii "."), if_neg whole, if_pos (List.suffix_append _ _),
        normalizeZone_append_dot lowered leading, complete_nil u]
      split_ifs with short dotted
      · refine iff_of_false (by simp [ascii]) fun kept => ?_
        rcases short with rfl | rfl
        · exact kept.1 rfl
        · exact kept.2.1 rfl
      · refine iff_of_false (by simp [ascii]) fun kept => kept.2.2 ?_
        obtain ⟨front, rfl⟩ := dotted
        exact ⟨front, by simp [ascii]⟩
      · refine iff_of_true rfl ⟨fun same => short (.inl ?_), fun same => short (.inr ?_), ?_⟩
        · simpa [ascii] using same
        · exact (List.append_inj' (same.trans (rfl : ascii "@." = ascii "@" ++ ascii ".")) rfl).1
        · rintro ⟨front, split⟩
          have cut : front ++ ascii "." ++ ascii "." = u ++ ascii "." := by
            rw [← split]
            simp [ascii]
          exact dotted ⟨front, (List.append_inj' cut rfl).1⟩
    · have dotLowered : Lowered (ascii ".") := lowered_dot
      have leading' : ¬ StartsWithSpace (t ++ ascii ".") := by
        simpa using not_startsWithSpace_append leading []
      rw [complete_nil t, if_neg whole, if_neg ends,
        normalizeZone_append_dot (lowered.append dotLowered) leading', complete_nil t,
        if_neg whole, if_neg ends]
      refine iff_of_true rfl ⟨?_, ?_, ?_⟩
      · rintro rfl
        exact ends (List.suffix_refl _)
      · rintro rfl
        exact ends ⟨ascii "@", rfl⟩
      · rintro ⟨front, rfl⟩
        exact ends ⟨front ++ ascii ".", by simp [ascii]⟩

/-- The zone, normalised, has nothing left to trim; and in the zone without a name, the
name has no dot left that a second pass would remove. -/
def Stable (zone name : Bytes) : Prop :=
  Settled (normalizeZone zone) ∧
    (normalizeZone zone = [] →
      normalizeZone name ≠ ascii "." ∧ normalizeZone name ≠ ascii "@." ∧
        ¬ ascii ".." <:+ normalizeZone name)

instance (zone name : Bytes) : Decidable (Stable zone name) := inferInstanceAs (Decidable (_ ∧ _))

/-- **Normalising a zone and a name twice gives the same exactly when they are
stable.** -/
theorem normalize_twice_iff :
    (normalizeZone (normalizeZone zone) = normalizeZone zone ∧
      normalizeName (normalizeZone (normalizeZone zone)) (normalizeName (normalizeZone zone) name) =
        normalizeName (normalizeZone zone) name) ↔ Stable zone name := by
  rw [normalizeZone_normalizeZone_iff]
  refine and_congr_right fun settled => ?_
  have normal := normalizeZone_normalizeZone_iff.mpr settled
  rw [normal]
  by_cases nonempty : normalizeZone zone = []
  · rw [nonempty, forall_prop_of_true rfl]
    exact complete_nil_normalizeZone_iff (lowered_normalizeZone name)
      (not_startsWithSpace_normalizeZone name)
  · exact iff_of_true (normalizeName_normalizeName nonempty normal settled name)
      fun empty => absurd empty nonempty

/-! ## Names in a zone -/

/-- `inZone`: the name is the zone's own or lies under it. -/
def inZone (name zone : Bytes) : Bool := name = zone || hasSuffix name (ascii "." ++ zone)

theorem mem_ancestors_iff_suffix : zone ∈ ancestors dot name ↔ ascii "." ++ zone <:+ name := by
  rw [mem_ancestors]
  exact ⟨fun ⟨front, split⟩ => ⟨front, split.symm⟩, fun ⟨front, split⟩ => ⟨front, split.symm⟩⟩

theorem inZone_iff : inZone name zone = true ↔ name = zone ∨ zone ∈ ancestors dot name := by
  rw [mem_ancestors_iff_suffix, inZone, Bool.or_eq_true, decide_eq_true_eq, hasSuffix_iff]

/-- The loop `for i := strings.IndexByte(name, '.'); …; name = name[i+1:]` goes through
the ancestors of a name. -/
theorem ancestors_of_indexByte_none (last : indexByte name dot = none) :
    ancestors dot name = [] := by
  rw [ancestors_eq_cut]
  rw [indexByte] at last
  simp only [last]

theorem ancestors_of_indexByte_some {i : Nat} (cut : indexByte name dot = some i) :
    ancestors dot name = name.drop (i + 1) :: ancestors dot (name.drop (i + 1)) := by
  rw [ancestors_eq_cut]
  rw [indexByte] at cut
  simp only [cut]

end ShardDNS.Store

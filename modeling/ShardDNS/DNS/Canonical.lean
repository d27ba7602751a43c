import ShardDNS.DNS.Quoting
import ShardDNS.Go.Spellings

/-!
# One text for each RDATA

`buildRData` makes one RDATA of many texts: a name with or without its final dot, a number
with zeros in front, data in either case or in pieces, an address in any of its forms, strings
with and without quotes and escapes, fields with any white space between them.

A text is canonical (`Canonical`) if none of this is left open: names have their final dot,
numbers no zeros in front, hexadecimal data is in lower case and base64 has zeros where there
is no data, both in one piece; an IPv6 address is written in eight groups; strings are in
quotes, with a quote or backslash written by its number and every other byte as it is; and
there is one space between fields. Two canonical texts of a type with one RDATA are one text
(`eq_of_canonical`).
-/

set_option autoImplicit false

namespace ShardDNS.DNS

open Go

/-! ## Names -/

/-- The name is written with its final dot. -/
def FinalDot (s : Bytes) : Prop := s.getLast? = some dot

instance (s : Bytes) : Decidable (FinalDot s) := inferInstanceAs (Decidable (_ = _))

variable {s out rest : Bytes} {rtype : UInt16}

/-- **A name with its final dot is told by its labels.** -/
theorem FinalDot.eq_of_textLabels {t : Bytes} (dotted : FinalDot s) (dotted' : FinalDot t)
    (same : textLabels s = textLabels t) : s = t := by
  obtain ⟨u, rfl⟩ := List.getLast?_eq_some_iff.mp dotted
  obtain ⟨v, rfl⟩ := List.getLast?_eq_some_iff.mp dotted'
  have trimmed : ∀ w : Bytes, trimSuffix (w ++ [dot]) (ascii ".") = w :=
    fun w => trimSuffix_append w (ascii ".")
  have nonempty : ∀ w : Bytes, LabelTree.labels dot w ≠ [] := fun w => List.splitOn_ne_nil _ _
  rw [textLabels, textLabels, trimmed, trimmed] at same
  split at same
  · split at same
    · simp_all
    · exact absurd same.symm (nonempty v)
  · split at same
    · exact absurd same (nonempty u)
    · have joined := congrArg ([dot].intercalate ·) same
      simp only [LabelTree.labels, List.intercalate_splitOn] at joined
      rw [joined]

/-! ## Fields between spaces -/

/-- What a field between spaces is. -/
inductive Spelling where
  | number
  | name
  | hex
  | base64
  deriving DecidableEq

/-- The field is spelled in the one way of its kind. -/
def Spelling.Plain : Spelling → Bytes → Prop
  | .number, s => PlainNumber s
  | .name, s => FinalDot s
  | .hex, s => s.map lowerByte = s
  | .base64, s => zeroPadded s = true

instance (kind : Spelling) (s : Bytes) : Decidable (kind.Plain s) := by
  cases kind <;> unfold Spelling.Plain <;> infer_instance

/-- What a field stands for. -/
inductive Spelling.Means : Spelling → Bytes → FieldValue → Prop where
  | number {s : Bytes} {n : Nat} (decimal : Decimal s n) : Means .number s (.number n)
  | name {s : Bytes} : Means .name s (.name (textLabels s))
  | hex {s data : Bytes} (decoded : hexDecode s = some data) : Means .hex s (.data data)
  | base64 {s data : Bytes} (decoded : base64Decode s = some data) : Means .base64 s (.data data)

theorem Decimal.unique {t : Bytes} {n : Nat} (decimal : Decimal s n) (decimal' : Decimal t n)
    (plain : PlainNumber s) (plain' : PlainNumber t) : s = t :=
  plain.eq_of_decimalValue plain' (decimal.2.2.trans decimal'.2.2.symm)

/-- **A plain field is told by what it stands for.** -/
theorem Spelling.Means.unique {kind : Spelling} {t : Bytes} {v : FieldValue}
    (means : kind.Means s v) (means' : kind.Means t v) (plain : kind.Plain s)
    (plain' : kind.Plain t) : s = t := by
  cases means with
  | number decimal =>
      cases means' with
      | number decimal' => exact decimal.unique decimal' plain plain'
  | name =>
      generalize same : FieldValue.name (textLabels s) = v at means'
      cases means' with
      | name => exact FinalDot.eq_of_textLabels plain plain' (FieldValue.name.inj same)
  | hex decoded =>
      cases means' with
      | hex decoded' => exact (eq_hexEncode plain decoded).trans (eq_hexEncode plain' decoded').symm
  | base64 decoded =>
      cases means' with
      | base64 decoded' =>
          exact (eq_base64Encode plain decoded).trans (eq_base64Encode plain' decoded').symm

/-- The fields of the types whose text is split at white space. -/
def spellings (rtype : UInt16) : Option (List Spelling) :=
  [(typeMX, [.number, .name]), (typeSRV, [.number, .number, .number, .name]),
    (typeSSHFP, [.number, .number, .hex]), (typeTLSA, [.number, .number, .number, .hex]),
    (typeDS, [.number, .number, .number, .hex]),
    (typeDNSKEY, [.number, .number, .number, .base64])].lookup rtype

/-- The fields are plain, and there is one space between them. -/
structure PlainFields (kinds : List Spelling) (text : Bytes) : Prop where
  spaced : [32].intercalate (fields text) = text
  plain : List.Forall₂ Spelling.Plain kinds (fields text)

/-- The fields stand for the values. -/
inductive MeansAll : List Spelling → List Bytes → List FieldValue → Prop where
  | nil : MeansAll [] [] []
  | cons {kind : Spelling} {kinds : List Spelling} {s : Bytes} {ss : List Bytes} {v : FieldValue}
      {vs : List FieldValue} (first : kind.Means s v) (more : MeansAll kinds ss vs) :
      MeansAll (kind :: kinds) (s :: ss) (v :: vs)

variable {kinds : List Spelling}

theorem MeansAll.unique {ss ts : List Bytes} {vs : List FieldValue} (means : MeansAll kinds ss vs)
    (means' : MeansAll kinds ts vs) (plain : List.Forall₂ Spelling.Plain kinds ss)
    (plain' : List.Forall₂ Spelling.Plain kinds ts) : ss = ts := by
  induction means generalizing ts with
  | nil =>
      cases means'
      rfl
  | cons first more ih =>
      cases means' with
      | cons first' more' =>
          cases plain with
          | cons here later =>
              cases plain' with
              | cons here' later' => rw [first.unique first' here here', ih more' later later']

theorem spellings_nameTypes (member : rtype ∈ nameTypes) : spellings rtype = none := by
  have named : rtype = typeNS ∨ rtype = typeCNAME ∨ rtype = typeDNAME ∨ rtype = typePTR := by
    simpa [nameTypes] using member
  rcases named with rfl | rfl | rfl | rfl <;> rfl

/-- Data in one piece. -/
theorem exists_singleton_of_count {α : Type} (front : List α) {pieces whole : List α}
    (split : whole = front ++ pieces) (count : whole.length = front.length + 1) :
    ∃ piece, pieces = [piece] := by
  rw [split, List.length_append] at count
  exact List.length_eq_one_iff.mp (Nat.add_left_cancel count)

/-- **The fields of a text stand for what it presents.** -/
theorem Presents.meansAll {text : Bytes} {values : List FieldValue}
    (presents : Presents rtype text values) (listed : spellings rtype = some kinds)
    (count : (fields text).length = kinds.length) : MeansAll kinds (fields text) values := by
  cases presents with
  | mx split number =>
      cases listed
      rw [split]
      exact .cons (.number number) (.cons .name .nil)
  | srv split first second third =>
      cases listed
      rw [split]
      exact .cons (.number first)
        (.cons (.number second) (.cons (.number third) (.cons .name .nil)))
  | @sshfp _ alg fp _ digest _ _ split first second decoded =>
      cases listed
      obtain ⟨piece, rfl⟩ := exists_singleton_of_count [alg, fp] split count
      rw [List.flatten_singleton] at decoded
      rw [split]
      exact .cons (.number first) (.cons (.number second) (.cons (.hex decoded) .nil))
  | @tlsa _ usage selector matching _ digest _ _ _ split first second third decoded =>
      cases listed
      obtain ⟨piece, rfl⟩ := exists_singleton_of_count [usage, selector, matching] split count
      rw [List.flatten_singleton] at decoded
      rw [split]
      exact .cons (.number first) (.cons (.number second) (.cons (.number third)
        (.cons (.hex decoded) .nil)))
  | @ds _ tag alg dt _ digest _ _ _ split first second third decoded =>
      cases listed
      obtain ⟨piece, rfl⟩ := exists_singleton_of_count [tag, alg, dt] split count
      rw [List.flatten_singleton] at decoded
      rw [split]
      exact .cons (.number first) (.cons (.number second) (.cons (.number third)
        (.cons (.hex decoded) .nil)))
  | @dnskey _ flags proto alg _ key _ _ _ split first second third decoded =>
      cases listed
      obtain ⟨piece, rfl⟩ := exists_singleton_of_count [flags, proto, alg] split count
      rw [List.flatten_singleton] at decoded
      rw [split]
      exact .cons (.number first) (.cons (.number second) (.cons (.number third)
        (.cons (.base64 decoded) .nil)))
  | name member =>
      rw [spellings_nameTypes member] at listed
      cases listed
  | a | aaaa | txt | caa | naptr | hinfo => cases listed

/-- **Plain fields with one RDATA are one text.** -/
theorem PlainFields.unique {a b : Bytes} (listed : spellings rtype = some kinds)
    (plain : PlainFields kinds (trimSpace a)) (plain' : PlainFields kinds (trimSpace b))
    (built : buildRData rtype a = .ok out) (built' : buildRData rtype b = .ok out) :
    trimSpace a = trimSpace b := by
  have other : rtype ≠ typeAAAA := by
    rintro rfl
    cases listed
  obtain ⟨values, exact⟩ := exists_exact other built
  obtain ⟨values', exact'⟩ := exists_exact other built'
  obtain rfl : values = values' := Option.some.inj (exact.decoded.symm.trans exact'.decoded)
  have means := exact.presented.meansAll listed plain.plain.length_eq.symm
  have means' := exact'.presented.meansAll listed plain'.plain.length_eq.symm
  rw [← plain.spaced, means.unique means' plain.plain plain'.plain, plain'.spaced]

/-! ## Strings in quotes -/

/-- The string in quotes: a quote and a backslash by their numbers, other bytes as they are. -/
def inQuotes (s : Bytes) : Bytes := writeQuoted (s.map fun b => (b, false))

theorem value_map (s : Bytes) : Chosen.value (s.map fun b => (b, false)) = s := by
  rw [Chosen.value, List.map_map]
  exact List.map_id s

theorem readQuoted_inQuotes (s rest : Bytes) : readQuoted (inQuotes s ++ rest) = .ok (s, rest) := by
  rw [inQuotes, readQuoted_writeQuoted, value_map]

theorem head?_inQuotes (s rest : Bytes) : (inQuotes s ++ rest).head? = some quote := rfl

theorem getLast?_inQuotes (s : Bytes) : (inQuotes s).getLast? = some quote :=
  List.getLast?_concat (l := quote :: Chosen.body _)

/-- No white space ends in a quote or a dot, or starts with a quote or a digit. -/
theorem spaceEncodings_ends : ∀ space ∈ spaceEncodings,
    space.getLast? ≠ some quote ∧ space.getLast? ≠ some dot ∧ space.head? ≠ some quote ∧
      space.head?.all (fun b => !isDigit b) = true := by
  decide +kernel

/-- A text that starts with a quote or a digit and ends in a quote or a dot is trimmed. -/
theorem trimSpace_of_ends {first last : UInt8} (starts : s.head? = some first)
    (ends : s.getLast? = some last) (opening : first = quote ∨ isDigit first = true)
    (closing : last = quote ∨ last = dot) : trimSpace s = s := by
  refine trimSpace_eq_self ?_ ?_
  · rintro ⟨space, listed, leads⟩
    obtain ⟨b, rest, rfl⟩ := List.exists_cons_of_ne_nil (spaceEncodings_ne_nil space listed)
    obtain ⟨-, -, other, digit⟩ := spaceEncodings_ends _ listed
    obtain ⟨c, tail, rfl⟩ : ∃ c tail, s = c :: tail := by
      cases s with
      | nil => cases starts
      | cons c tail => exact ⟨c, tail, rfl⟩
    obtain rfl := (List.cons_prefix_cons.mp leads).1
    cases starts
    rcases opening with rfl | number
    · exact other rfl
    · simp [number] at digit
  · rintro ⟨space, listed, tail⟩
    obtain ⟨b, lastOf⟩ : ∃ b, space.getLast? = some b :=
      ⟨_, List.getLast?_eq_some_getLast (spaceEncodings_ne_nil space listed)⟩
    obtain ⟨notQuote, notDot, -, -⟩ := spaceEncodings_ends space listed
    obtain ⟨front, rfl⟩ := tail
    rw [List.getLast?_append, lastOf] at ends
    cases ends
    rcases closing with rfl | rfl
    · exact notQuote lastOf
    · exact notDot lastOf

theorem trimSpace_space (s : Bytes) : trimSpace (32 :: s) = trimSpace s := by
  have blank : Blank [32] := by simp [Blank]
  rw [trimSpace, trimSpace,
    ← trimLeft_blank_append spaceEncodings_ne_nil spaceEncodings_alone blank s]
  rfl

theorem trimSpace_inQuotes (s : Bytes) : trimSpace (inQuotes s) = inQuotes s := by
  have starts := head?_inQuotes s []
  rw [List.append_nil] at starts
  exact trimSpace_of_ends starts (getLast?_inQuotes s) (.inl rfl) (.inl rfl)

theorem hasPrefix_quote (starts : s.head? = some quote) : hasPrefix s [quote] = true := by
  obtain ⟨rest, rfl⟩ := List.head?_eq_some_iff.mp starts
  rw [hasPrefix, List.isPrefixOf_cons_cons]
  simp

/-- A string in quotes is taken from the front of a text. -/
theorem takeQuotedLoop_inQuotes (text s rest : Bytes) (n : Nat) :
    takeQuotedLoop text (n + 1) (inQuotes s ++ rest) =
      (takeQuotedLoop text n (trimSpace rest)).bind fun found => .ok (s :: found.1, found.2) := by
  rw [takeQuotedLoop, if_pos (hasPrefix_quote (head?_inQuotes s rest)), readQuoted_inQuotes]
  rfl

/-- Strings in quotes with a space between them. -/
theorem spaced_inQuotes (s : Bytes) (more : List Bytes) :
    [32].intercalate ((s :: more).map inQuotes) =
      writeStrings (([], s.map fun b => (b, false)) ::
        more.map fun t => ([32], t.map fun b => (b, false))) := by
  induction more generalizing s with
  | nil => simp [writeStrings, inQuotes]
  | cons t more ih =>
      rw [List.map_cons, List.map_cons, List.intercalate_cons_cons, ← List.map_cons, ih t]
      simp [writeStrings, inQuotes]

/-- **They are read back.** -/
theorem parseQuotedStrings_spaced {strings : List Bytes} (nonempty : strings ≠ []) :
    parseQuotedStrings ([32].intercalate (strings.map inQuotes)) = .ok strings := by
  obtain ⟨s, more, rfl⟩ := List.exists_cons_of_ne_nil nonempty
  have read := @parseQuotedStrings_writeStrings (([], s.map fun b => (b, false)) ::
    more.map fun t => ([32], t.map fun b => (b, false))) (by simp [Blank]) [] (by simp [Blank])
  rw [List.append_nil] at read
  rw [spaced_inQuotes, read]
  simp [value_map, Function.comp_def]

theorem head?_spaced {strings : List Bytes} (nonempty : strings ≠ []) :
    ([32].intercalate (strings.map inQuotes)).head? = some quote := by
  obtain ⟨s, more, rfl⟩ := List.exists_cons_of_ne_nil nonempty
  cases more with
  | nil => rw [List.map_singleton, List.intercalate_singleton, ← List.append_nil (inQuotes s),
      head?_inQuotes]
  | cons t more =>
      rw [List.map_cons, List.map_cons, List.intercalate_cons_cons, List.append_assoc,
        head?_inQuotes]

/-- **The RDATA of strings of at most 255 bytes.** -/
theorem buildTXT_spaced {strings : List Bytes} (nonempty : strings ≠ [])
    (short : ∀ s ∈ strings, s.length ≤ 255) :
    buildTXT ([32].intercalate (strings.map inQuotes)) = .ok (encodeStrings strings) := by
  have chunks : strings.flatMap (fun p => txtChunks p.length p) = encodeStrings strings := by
    rw [encodeStrings]
    refine List.flatMap_congr fun s member => ?_
    have fits := Nat.not_lt.mpr (short s member)
    unfold txtChunks
    split
    · rfl
    · rw [if_neg fits]
  unfold buildTXT
  rw [if_pos (hasPrefix_quote (head?_spaced nonempty)), parseQuotedStrings_spaced nonempty]
  simp only [Bind.bind, Except.bind, chunks]
  rw [if_neg (length_encodeStrings_pos nonempty)]

/-! ## Texts with numbers, strings and names -/

theorem findIdx?_append_cons {p : UInt8 → Bool} {front : Bytes} {b : UInt8}
    (before : ∀ c ∈ front, p c = false) (here : p b = true) :
    (front ++ b :: rest).findIdx? p = some front.length := by
  rw [List.findIdx?_append, List.findIdx?_eq_none_iff.mpr before, Option.none_or,
    List.findIdx?_cons, here]
  simp

theorem indexByte_append {front : Bytes} {b : UInt8} (clean : b ∉ front) :
    indexByte (front ++ b :: rest) b = some front.length := by
  refine findIdx?_append_cons (fun c member => ?_) (by simp)
  simp only [decide_eq_false_iff_not]
  rintro rfl
  exact clean member

theorem splitN_append {front : Bytes} {sep : UInt8} {n : Nat} (clean : sep ∉ front) :
    splitN (front ++ sep :: rest) sep (n + 2) = front :: splitN rest sep (n + 1) := by
  simp [splitN, indexByte_append clean]

/-- The text of a CAA record. -/
def textCAA (flags tag value : Bytes) : Bytes := flags ++ 32 :: (tag ++ 32 :: inQuotes value)

theorem decode_textCAA {flags tag value : Bytes} (clean : 32 ∉ flags) (clean' : 32 ∉ tag)
    (built : buildCAA (textCAA flags tag value) = .ok out) :
    ∃ n, Decimal flags n ∧
      decodeRData typeCAA out = some [.number n, .string tag, .data value] := by
  have split : splitN (textCAA flags tag value) 32 3 = [flags, tag, inQuotes value] := by
    rw [textCAA, splitN_append clean, splitN_append clean']
    rfl
  have starts := @head?_spaced [value] (by simp)
  have read := @parseQuotedStrings_spaced [value] (by simp)
  rw [List.map_singleton, List.intercalate_singleton] at starts read
  have contents : caaValue (trimSpace (inQuotes value)) = .ok value := by
    rw [trimSpace_inQuotes, caaValue, if_pos (hasPrefix_quote starts), read]
  unfold buildCAA at built
  rw [split] at built
  dsimp only at built
  obtain ⟨n, number, small, built⟩ := number_of_bind built
  split at built
  · cases built
  · rename_i fit
    rw [contents] at built
    cases built
    exact ⟨n, number, (row_CAA small fit value).decode⟩

/-- A text ends as its last field does. -/
theorem getLast?_spaced (front : Bytes) {b : UInt8} (ends : rest.getLast? = some b) :
    (front ++ 32 :: rest).getLast? = some b := by
  rw [List.getLast?_append, List.getLast?_cons, ends]
  rfl

/-- The text of a HINFO record. -/
def textHINFO (cpu os : Bytes) : Bytes := inQuotes cpu ++ 32 :: inQuotes os

theorem decode_textHINFO {cpu os : Bytes} (built : buildHINFO (textHINFO cpu os) = .ok out) :
    decodeRData typeHINFO out = some [.string cpu, .string os] := by
  have trimmed : trimSpace (textHINFO cpu os) = textHINFO cpu os :=
    trimSpace_of_ends (head?_inQuotes cpu _) (getLast?_spaced _ (getLast?_inQuotes os)) (.inl rfl)
      (.inl rfl)
  have taken : takeQuoted (textHINFO cpu os) 2 = .ok ([cpu, os], []) := by
    have last := takeQuotedLoop_inQuotes (textHINFO cpu os) os [] 0
    rw [List.append_nil] at last
    rw [takeQuoted, trimmed]
    nth_rewrite 2 [textHINFO]
    rw [takeQuotedLoop_inQuotes, trimSpace_space, trimSpace_inQuotes, last]
    rfl
  unfold buildHINFO at built
  rw [taken] at built
  exact (row_HINFO built).decode

/-- The first field of a text. -/
theorem cutField_append {field : Bytes} (clean : containsAny field (ascii " \t") = false)
    (trimmed : trimSpace (field ++ 32 :: rest) = field ++ 32 :: rest) :
    cutField (field ++ 32 :: rest) = (field, trimSpace rest) := by
  have found : (field ++ 32 :: rest).findIdx? (fun b => (ascii " \t").contains b) =
      some field.length :=
    findIdx?_append_cons (fun b member =>
      Bool.eq_false_iff.mpr (List.any_eq_false.mp clean b member))
      rfl
  unfold cutField
  rw [trimmed]
  dsimp only
  rw [found]
  simp [trimSpace_space]

theorem containsAny_of_plainNumber (number : PlainNumber s) :
    containsAny s (ascii " \t") = false := by
  have digits : ∀ b : UInt8, isDigit b = true → (ascii " \t").contains b = false := by
    decide +kernel
  rw [containsAny, List.any_eq_false]
  intro b member
  rw [digits b (List.all_eq_true.mp number.1 b member)]
  decide

/-- The text of a NAPTR record. -/
def textNAPTR (order pref flags services regexp name : Bytes) : Bytes :=
  order ++ 32 :: (pref ++ 32 :: (inQuotes flags ++ 32 :: (inQuotes services ++
    32 :: (inQuotes regexp ++ 32 :: name))))

theorem decode_textNAPTR {order pref flags services regexp name : Bytes}
    (number : PlainNumber order) (number' : PlainNumber pref) (dotted : FinalDot name)
    (trimmed : trimSpace name = name)
    (built : buildNAPTR (textNAPTR order pref flags services regexp name) = .ok out) :
    ∃ n m, Decimal order n ∧ Decimal pref m ∧
      decodeRData typeNAPTR out = some [.number n, .number m, .string flags, .string services,
        .string regexp, .name (textLabels name)] := by
  -- what follows a field starts with a quote or a digit, and ends with the dot of the name
  have quoted : ∀ {s rest : Bytes}, rest.getLast? = some dot →
      trimSpace (inQuotes s ++ 32 :: rest) = inQuotes s ++ 32 :: rest := fun ends =>
    trimSpace_of_ends (head?_inQuotes _ _) (getLast?_spaced _ ends) (.inl rfl) (.inr rfl)
  have numbered : ∀ {s rest : Bytes}, PlainNumber s → rest.getLast? = some dot →
      trimSpace (s ++ 32 :: rest) = s ++ 32 :: rest := by
    intro s rest number ends
    obtain ⟨c, tail, rfl⟩ := List.exists_cons_of_ne_nil number.2.1
    have digit := List.all_eq_true.mp number.1 c List.mem_cons_self
    exact trimSpace_of_ends rfl (getLast?_spaced _ ends) (.inr digit) (.inr rfl)
  have fourth := getLast?_spaced (inQuotes regexp) dotted
  have third := getLast?_spaced (inQuotes services) fourth
  have second := getLast?_spaced (inQuotes flags) third
  have first := getLast?_spaced pref second
  have cut := cutField_append (containsAny_of_plainNumber number) (numbered number first)
  have cut' := cutField_append (containsAny_of_plainNumber number') (numbered number' second)
  rw [numbered number' second] at cut
  rw [quoted third] at cut'
  unfold buildNAPTR at built
  rw [textNAPTR, cut] at built
  dsimp only at built
  rw [cut'] at built
  dsimp only at built
  obtain ⟨n, decimal, small, built⟩ := number_of_bind built
  obtain ⟨m, decimal', small', built⟩ := number_of_bind built
  have taken : takeQuoted (inQuotes flags ++ 32 :: (inQuotes services ++
      32 :: (inQuotes regexp ++ 32 :: name))) 3 = .ok ([flags, services, regexp], name) := by
    rw [takeQuoted, quoted third, takeQuotedLoop_inQuotes, trimSpace_space, quoted fourth,
      takeQuotedLoop_inQuotes, trimSpace_space, quoted dotted, takeQuotedLoop_inQuotes,
      trimSpace_space, trimmed]
    rfl
  obtain ⟨found, same, built⟩ := bind_eq_ok.mp built
  rw [taken] at same
  cases same
  dsimp only at built
  rw [trimmed] at built
  obtain ⟨-, fault⟩ | ⟨-, built⟩ := ite_eq_ok built
  · cases fault
  obtain ⟨buf, written, packed⟩ := bind_eq_ok.mp built
  exact ⟨n, m, decimal, decimal', (row_NAPTR small small' written packed).decode⟩

/-! ## Canonical texts -/

/-- **The text is written in the one way of its type.** An IPv4 address has only one. -/
structure Canonical (rtype : UInt16) (text : Bytes) : Prop where
  address : rtype = typeAAAA → ∃ groups : List Bytes, groups.length = 8 ∧
    (∀ g ∈ groups, HexGroup g) ∧ text = [58].intercalate groups
  name : rtype ∈ nameTypes → FinalDot text
  fields : ∀ kinds, spellings rtype = some kinds → PlainFields kinds text
  strings : rtype = typeTXT → ∃ strings : List Bytes, strings ≠ [] ∧
    (∀ s ∈ strings, s.length ≤ 255) ∧ text = [32].intercalate (strings.map inQuotes)
  caa : rtype = typeCAA → ∃ flags tag value, PlainNumber flags ∧ 32 ∉ tag ∧
    text = textCAA flags tag value
  hinfo : rtype = typeHINFO → ∃ cpu os, text = textHINFO cpu os
  naptr : rtype = typeNAPTR → ∃ order pref flags services regexp name, PlainNumber order ∧
    PlainNumber pref ∧ FinalDot name ∧ trimSpace name = name ∧
    text = textNAPTR order pref flags services regexp name

/-- A name is canonical with its final dot. -/
theorem canonical_of_name {text : Bytes} (member : rtype ∈ nameTypes) (dotted : FinalDot text) :
    Canonical rtype text := by
  have other : ∀ t ∉ nameTypes, rtype ≠ t := fun t outside is => outside (is ▸ member)
  refine ⟨fun is => absurd is (other _ (by decide)), fun _ => dotted, fun kinds listed => ?_,
    fun is => absurd is (other _ (by decide)), fun is => absurd is (other _ (by decide)),
    fun is => absurd is (other _ (by decide)), fun is => absurd is (other _ (by decide))⟩
  rw [spellings_nameTypes member] at listed
  cases listed

theorem eq_of_buildA {a b : Bytes} (built : buildA a = .ok out) (built' : buildA b = .ok out) :
    a = b := by
  have parsed : ∀ {text : Bytes}, buildA text = .ok out → parseIPv4 text = some out := by
    intro text built
    unfold buildA at built
    split at built
    · rename_i octets parsed
      cases built
      obtain ⟨_, read, ⟨⟩⟩ | ⟨_, -, ⟨⟩⟩ := parseAddr_cases parsed
      exact read
    · cases built
  exact parseIPv4_inj (parsed built) (parsed built')

theorem parseAddr_of_buildAAAA {text : Bytes} (built : buildAAAA text = .ok out) :
    parseAddr text = some (.v6 out) := by
  unfold buildAAAA at built
  split at built
  · rename_i octets parsed
    split at built
    · cases built
    · cases built
      exact parsed
  · cases built

section Types

variable {rtype : UInt16} {a b out : Bytes} (canonical : Canonical rtype a)
  (canonical' : Canonical rtype b)

include canonical canonical'

theorem eq_of_buildAAAA (is : rtype = typeAAAA) (built : buildAAAA a = .ok out)
    (built' : buildAAAA b = .ok out) : a = b := by
  obtain ⟨groups, eight, plain, rfl⟩ := canonical.address is
  obtain ⟨groups', eight', plain', rfl⟩ := canonical'.address is
  rw [eq_of_parseAddr_groups plain plain' eight eight' (parseAddr_of_buildAAAA built)
    (parseAddr_of_buildAAAA built')]

theorem eq_of_buildSingleName (member : rtype ∈ nameTypes)
    (built : buildSingleName rtype a = .ok out) (built' : buildSingleName rtype b = .ok out) :
    a = b := by
  have same := (exact_singleName member built).decoded.symm.trans
    (exact_singleName member built').decoded
  simp only [Option.some.injEq, List.cons.injEq, FieldValue.name.injEq, and_true] at same
  exact (canonical.name member).eq_of_textLabels (canonical'.name member) same

theorem eq_of_buildTXT (is : rtype = typeTXT) (built : buildTXT a = .ok out)
    (built' : buildTXT b = .ok out) : a = b := by
  obtain ⟨strings, nonempty, short, rfl⟩ := canonical.strings is
  obtain ⟨strings', nonempty', short', rfl⟩ := canonical'.strings is
  rw [buildTXT_spaced nonempty short] at built
  rw [buildTXT_spaced nonempty' short'] at built'
  have same : encodeStrings strings = encodeStrings strings' :=
    Except.ok.inj (built.trans built'.symm)
  have read := readStrings_encode short (Nat.le_refl _)
  rw [same, readStrings_encode short' (Nat.le_refl _)] at read
  rw [Option.some.inj read]

theorem eq_of_buildCAA (is : rtype = typeCAA) (built : buildCAA a = .ok out)
    (built' : buildCAA b = .ok out) : a = b := by
  have blank : ∀ {s : Bytes}, PlainNumber s → 32 ∉ s := fun number member =>
    absurd (List.all_eq_true.mp number.1 32 member) (by decide)
  obtain ⟨flags, tag, value, number, clean, rfl⟩ := canonical.caa is
  obtain ⟨flags', tag', value', number', clean', rfl⟩ := canonical'.caa is
  obtain ⟨n, decimal, decoded⟩ := decode_textCAA (blank number) clean built
  obtain ⟨n', decimal', decoded'⟩ := decode_textCAA (blank number') clean' built'
  have same := decoded.symm.trans decoded'
  simp only [Option.some.injEq, List.cons.injEq, FieldValue.number.injEq, FieldValue.string.injEq,
    FieldValue.data.injEq, and_true] at same
  obtain ⟨rfl, rfl, rfl⟩ := same
  rw [decimal.unique decimal' number number']

theorem eq_of_buildNAPTR (is : rtype = typeNAPTR) (built : buildNAPTR a = .ok out)
    (built' : buildNAPTR b = .ok out) : a = b := by
  obtain ⟨order, pref, flags, services, regexp, name, number, number', dotted, trimmed, rfl⟩ :=
    canonical.naptr is
  obtain ⟨order', pref', flags', services', regexp', name', second, second', dotted',
      trimmed', rfl⟩ :=
    canonical'.naptr is
  obtain ⟨n, m, first, first', decoded⟩ := decode_textNAPTR number number' dotted trimmed built
  obtain ⟨n', m', other, other', decoded'⟩ :=
    decode_textNAPTR second second' dotted' trimmed' built'
  have same := decoded.symm.trans decoded'
  simp only [Option.some.injEq, List.cons.injEq, FieldValue.number.injEq, FieldValue.string.injEq,
    FieldValue.name.injEq, and_true] at same
  obtain ⟨rfl, rfl, rfl, rfl, rfl, labels⟩ := same
  rw [first.unique other number second, first'.unique other' number' second',
    dotted.eq_of_textLabels dotted' labels]

theorem eq_of_buildHINFO (is : rtype = typeHINFO) (built : buildHINFO a = .ok out)
    (built' : buildHINFO b = .ok out) : a = b := by
  obtain ⟨cpu, os, rfl⟩ := canonical.hinfo is
  obtain ⟨cpu', os', rfl⟩ := canonical'.hinfo is
  have same := (decode_textHINFO built).symm.trans (decode_textHINFO built')
  simp only [Option.some.injEq, List.cons.injEq, FieldValue.string.injEq, and_true] at same
  rw [same.1, same.2]

/-- **A canonical text is told by its RDATA.** -/
theorem eq_of_canonical (trimmed : trimSpace a = a) (trimmed' : trimSpace b = b)
    (built : buildRData rtype a = .ok out) (built' : buildRData rtype b = .ok out) : a = b := by
  cases listed : spellings rtype with
  | some kinds =>
      have same := PlainFields.unique listed (trimmed.symm ▸ canonical.fields kinds listed)
        (trimmed'.symm ▸ canonical'.fields kinds listed) built built'
      rwa [trimmed, trimmed'] at same
  | none =>
      -- the other cases of the switch, in its order
      have other : ∀ t, spellings t ≠ none → rtype ≠ t := fun t some is => some (is ▸ listed)
      unfold buildRData at built built'
      dsimp only at built built'
      rw [trimmed] at built
      rw [trimmed'] at built'
      by_cases is : rtype = typeA
      · rw [if_pos is] at built built'
        exact eq_of_buildA built built'
      rw [if_neg is] at built built'
      by_cases is : rtype = typeAAAA
      · rw [if_pos is] at built built'
        exact eq_of_buildAAAA canonical canonical' is built built'
      rw [if_neg is] at built built'
      by_cases is : rtype = typeNS ∨ rtype = typeCNAME ∨ rtype = typeDNAME ∨ rtype = typePTR
      · rw [if_pos is] at built built'
        exact eq_of_buildSingleName canonical canonical' (by simpa [nameTypes] using is)
          built built'
      rw [if_neg is, if_neg (other typeMX (by decide))] at built built'
      by_cases is : rtype = typeTXT
      · rw [if_pos is] at built built'
        exact eq_of_buildTXT canonical canonical' is built built'
      rw [if_neg is, if_neg (other typeSRV (by decide))] at built built'
      by_cases is : rtype = typeCAA
      · rw [if_pos is] at built built'
        exact eq_of_buildCAA canonical canonical' is built built'
      rw [if_neg is] at built built'
      by_cases is : rtype = typeNAPTR
      · rw [if_pos is] at built built'
        exact eq_of_buildNAPTR canonical canonical' is built built'
      rw [if_neg is] at built built'
      by_cases is : rtype = typeHINFO
      · rw [if_pos is] at built built'
        exact eq_of_buildHINFO canonical canonical' is built built'
      rw [if_neg is, if_neg (other typeSSHFP (by decide)), if_neg (other typeTLSA (by decide)),
        if_neg (other typeDS (by decide)), if_neg (other typeDNSKEY (by decide))] at built
      cases built

end Types

end ShardDNS.DNS

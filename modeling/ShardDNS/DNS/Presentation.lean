import ShardDNS.DNS.RDataLayout
import ShardDNS.DNS.RDataSizes

/-!
# RDATA says what the text says

What the text of a record consists of (`Presents`), type by type: decimal numbers, names,
quoted strings with their escapes, and data in hexadecimal or base64. The RDATA that
`buildRData` makes of a text decodes under the layout of its type to the fields of the
text, with one exception: the zone of an IPv6 address is accepted in the text of an AAAA
record and lost (`buildRData_exact_iff`).

The parsers of numbers, addresses, hexadecimal and base64 are those of the standard library
and are taken as they are. So is the splitting at white space.
-/

set_option autoImplicit false

namespace ShardDNS.DNS

open Go

/-! ## Quoted strings -/

/-- The text starts with three decimal digits. -/
def startsWithNumber : Bytes → Bool
  | x :: y :: z :: _ => isDigit x && isDigit y && isDigit z
  | _ => false

/-- What a text between quotes stands for. -/
inductive Quoted : Bytes → Bytes → Prop where
  | nil : Quoted [] []
  | byte {c : UInt8} {body value : Bytes} (notQuote : c ≠ quote) (notBackslash : c ≠ backslash)
      (more : Quoted body value) : Quoted (c :: body) (c :: value)
  | number {x y z : UInt8} {body value : Bytes} (digits : startsWithNumber [x, y, z] = true)
      (small : decimalValue [x, y, z] ≤ 255) (more : Quoted body value) :
      Quoted (backslash :: x :: y :: z :: body) (UInt8.ofNat (decimalValue [x, y, z]) :: value)
  | escaped {x : UInt8} {body value : Bytes} (plain : startsWithNumber (x :: body) = false)
      (more : Quoted body value) : Quoted (backslash :: x :: body) (x :: value)

/-- Quoted strings with white space between them, and what follows. -/
inductive QuotedStrings : Bytes → List Bytes → Bytes → Prop where
  | nil {rest : Bytes} : QuotedStrings rest [] rest
  | cons {body value rest back : Bytes} {values : List Bytes} (quoted : Quoted body value)
      (more : QuotedStrings (trimSpace rest) values back) :
      QuotedStrings (quote :: (body ++ quote :: rest)) (value :: values) back

/-- Digits behind the end of a quoted text do not count for an escape in it. -/
theorem startsWithNumber_append (x : UInt8) (body rest : Bytes) :
    startsWithNumber (x :: (body ++ quote :: rest)) = startsWithNumber (x :: body) := by
  have notDigit : isDigit quote = false := by decide
  match body with
  | [] => cases rest <;> simp [startsWithNumber, notDigit]
  | [y] => simp [startsWithNumber, notDigit]
  | y :: z :: body => rfl

variable {s out rest text : Bytes} {parts : List Bytes} {n : Nat} {rtype : UInt16}
  {values : List FieldValue}

/-- **The loop reads a quoted text up to its closing quote.** -/
theorem quoted_of_readQuotedLoop {sb value : Bytes}
    (read : readQuotedLoop sb s = .ok (value, rest)) :
    ∃ body more, s = body ++ quote :: rest ∧ Quoted body more ∧ value = sb ++ more := by
  fun_induction readQuotedLoop sb s with
  | case1 => cases read
  | case2 sb s =>
      cases read
      exact ⟨[], [], rfl, .nil, (List.append_nil _).symm⟩
  | case3 sb notQuote ih =>
      obtain ⟨body, more, shape, -, -⟩ := ih read
      simp at shape
  | case4 sb x notQuote ih =>
      obtain ⟨body, more, shape, -, -⟩ := ih read
      simp at shape
  | case5 sb x y notQuote ih =>
      obtain ⟨body, more, shape, quoted, rfl⟩ := ih read
      refine ⟨backslash :: x :: body, x :: more, by simp [shape], .escaped ?_ quoted, by simp⟩
      rw [← startsWithNumber_append x body rest, ← shape]
      rfl
  | case6 => cases read
  | case7 sb x y z s digits small notQuote ih =>
      obtain ⟨body, more, rfl, quoted, rfl⟩ := ih read
      refine ⟨backslash :: x :: y :: z :: body, _ :: more, by simp,
        .number ?_ (Nat.le_of_not_lt small) quoted, by simp⟩
      simp [startsWithNumber, digits]
  | case8 sb x y z s other notQuote ih =>
      obtain ⟨body, more, shape, quoted, rfl⟩ := ih read
      refine ⟨backslash :: x :: body, x :: more, by simp [shape], .escaped ?_ quoted, by simp⟩
      rw [← startsWithNumber_append x body rest, ← shape, Bool.eq_false_iff]
      intro digits
      simp only [startsWithNumber, Bool.and_eq_true] at digits
      exact other ⟨digits.1.1, digits.1.2, digits.2⟩
  | case9 sb c s notQuote notBackslash ih =>
      obtain ⟨body, more, rfl, quoted, rfl⟩ := ih read
      exact ⟨c :: body, c :: more, rfl, .byte notQuote notBackslash quoted, by simp⟩

theorem quoted_of_readQuoted {value : Bytes} (read : readQuoted s = .ok (value, rest)) :
    ∃ body, s = quote :: (body ++ quote :: rest) ∧ Quoted body value := by
  unfold readQuoted at read
  split at read
  · cases read
  · split at read
    · cases read
    · rename_i c s opening
      obtain ⟨body, more, rfl, quoted, rfl⟩ := quoted_of_readQuotedLoop read
      rw [not_not] at opening
      exact ⟨body, by rw [opening], quoted⟩

theorem quotedStrings_of_parseQuotedLoop {fuel : Nat} (read : parseQuotedLoop fuel s = .ok parts) :
    QuotedStrings s parts [] := by
  induction fuel generalizing s parts with
  | zero => cases read
  | succ fuel ih =>
      unfold parseQuotedLoop at read
      split at read
      · rename_i empty
        cases read
        rw [empty]
        exact .nil
      · obtain ⟨⟨value, rest⟩, first, read⟩ := bind_eq_ok.mp read
        obtain ⟨more, later, same⟩ := bind_eq_ok.mp read
        cases same
        obtain ⟨body, rfl, quoted⟩ := quoted_of_readQuoted first
        exact .cons quoted (ih later)

theorem quotedStrings_of_takeQuotedLoop (read : takeQuotedLoop text n s = .ok (parts, rest)) :
    QuotedStrings s parts rest ∧ parts.length = n := by
  induction n generalizing s parts with
  | zero =>
      cases read
      exact ⟨.nil, rfl⟩
  | succ n ih =>
      unfold takeQuotedLoop at read
      split at read
      · obtain ⟨⟨value, after⟩, first, read⟩ := bind_eq_ok.mp read
        obtain ⟨⟨more, back⟩, later, same⟩ := bind_eq_ok.mp read
        cases same
        obtain ⟨body, rfl, quoted⟩ := quoted_of_readQuoted first
        obtain ⟨strings, size⟩ := ih later
        exact ⟨.cons quoted strings, by rw [List.length_cons, size]⟩
      · cases read

theorem quotedStrings_of_parseQuotedStrings (read : parseQuotedStrings text = .ok parts) :
    QuotedStrings (trimSpace text) parts [] :=
  quotedStrings_of_parseQuotedLoop read

theorem quotedStrings_of_takeQuoted (read : takeQuoted text n = .ok (parts, rest)) :
    QuotedStrings (trimSpace text) parts rest ∧ parts.length = n :=
  quotedStrings_of_takeQuotedLoop read

/-! ## Fields of a text -/

/-- The text is a decimal number. -/
def Decimal (s : Bytes) (n : Nat) : Prop := s ≠ [] ∧ s.all isDigit = true ∧ decimalValue s = n

theorem decimal_of_parseNumber {bits : Nat} {what : String}
    (parsed : parseNumber s bits what = .ok n) : Decimal s n ∧ n < 2 ^ bits := by
  unfold parseNumber parseUint at parsed
  split at parsed
  · rename_i v found
    cases parsed
    rw [Option.ite_none_right_eq_some, Option.some.injEq] at found
    obtain ⟨⟨nonempty, digits, small⟩, rfl⟩ := found
    exact ⟨⟨nonempty, digits, rfl⟩, small⟩
  · cases parsed

/-- A number that is parsed on the way is one in decimal, in range. -/
theorem number_of_bind {bits : Nat} {what : String} {rest : Nat → Except RDataError Bytes}
    (built : parseNumber s bits what >>= rest = .ok out) :
    ∃ n, Decimal s n ∧ n < 2 ^ bits ∧ rest n = .ok out := by
  obtain ⟨n, parsed, built⟩ := bind_eq_ok.mp built
  obtain ⟨decimal, small⟩ := decimal_of_parseNumber parsed
  exact ⟨n, decimal, small, built⟩

/-- The first field of a text goes up to a blank or the end; the rest is trimmed. -/
def FirstField (s field rest : Bytes) : Prop :=
  ∃ more, trimSpace s = field ++ more ∧ containsAny field (ascii " \t") = false ∧
    (∀ b ∈ more.head?, (ascii " \t").contains b = true) ∧ rest = trimSpace more

theorem firstField_cutField (s : Bytes) : FirstField s (cutField s).1 (cutField s).2 := by
  unfold cutField
  dsimp only
  cases found : (trimSpace s).findIdx? fun b => (ascii " \t").contains b with
  | none =>
      refine ⟨[], (List.append_nil _).symm, ?_, by simp, rfl⟩
      simpa [containsAny] using found
  | some i =>
      obtain ⟨inside, blank, before⟩ := List.findIdx?_eq_some_iff_getElem.mp found
      refine ⟨(trimSpace s).drop i, (List.take_append_drop i _).symm, ?_, ?_, rfl⟩
      · rw [containsAny, List.any_eq_false]
        intro b member
        obtain ⟨j, small, rfl⟩ := List.mem_take_iff_getElem.mp member
        exact before j (by omega)
      · rw [List.head?_drop, List.getElem?_eq_getElem inside]
        intro b same
        cases same
        exact blank

/-- The parts of the text of a TXT record: quoted strings, or the text as it is. -/
inductive TextParts : Bytes → List Bytes → Prop where
  | quoted {text : Bytes} {parts : List Bytes} (opening : hasPrefix text [quote] = true)
      (strings : QuotedStrings (trimSpace text) parts []) : TextParts text parts
  | plain {text : Bytes} (other : hasPrefix text [quote] = false) : TextParts text [text]

/-- The value of a CAA record: one quoted string, or the text as it is. -/
inductive CAAText : Bytes → Bytes → Prop where
  | quoted {text value : Bytes} (opening : hasPrefix text [quote] = true)
      (string : QuotedStrings (trimSpace text) [value] []) : CAAText text value
  | plain {text : Bytes} (other : hasPrefix text [quote] = false) : CAAText text text

/-- The byte `%`. -/
def percent : UInt8 := 37

/-- The zone of an address in a text. -/
def zoneOf (text : Bytes) : Bytes :=
  match indexByte text percent with
  | some i => text.drop (i + 1)
  | none => []

/-- The types of RDATA that is one name. -/
def nameTypes : List UInt16 := [typeNS, typeCNAME, typeDNAME, typePTR]

/-- The fields of the text of a record. The strings of a TXT record are its parts, each of
them possibly in several pieces. -/
inductive Presents : UInt16 → Bytes → List FieldValue → Prop where
  | a {text octets : Bytes} (parsed : parseAddr text = some (.v4 octets)) :
      Presents typeA text [.address octets []]
  | aaaa {text octets : Bytes} (parsed : parseAddr text = some (.v6 octets)) :
      Presents typeAAAA text [.address octets (zoneOf text)]
  | name {rtype : UInt16} {text : Bytes} (member : rtype ∈ nameTypes) :
      Presents rtype text [.name (textLabels text)]
  | mx {text pref target : Bytes} {n : Nat} (split : fields text = [pref, target])
      (number : Decimal pref n) : Presents typeMX text [.number n, .name (textLabels target)]
  | txt {text : Bytes} {parts : List Bytes} {pieces : List (List Bytes)}
      (split : TextParts text parts) (joined : pieces.map List.flatten = parts) :
      Presents typeTXT text [.strings pieces.flatten]
  | srv {text priority weight port target : Bytes} {p w q : Nat}
      (split : fields text = [priority, weight, port, target]) (first : Decimal priority p)
      (second : Decimal weight w) (third : Decimal port q) :
      Presents typeSRV text [.number p, .number w, .number q, .name (textLabels target)]
  | caa {text flags tag value contents : Bytes} {n : Nat}
      (split : splitN text 32 3 = [flags, tag, value]) (number : Decimal flags n)
      (given : CAAText (trimSpace value) contents) :
      Presents typeCAA text [.number n, .string tag, .data contents]
  | naptr {text order rest pref rest' flags services regexp remaining : Bytes} {n m : Nat}
      (first : FirstField text order rest) (second : FirstField rest pref rest')
      (number : Decimal order n) (number' : Decimal pref m)
      (strings : QuotedStrings (trimSpace rest') [flags, services, regexp] remaining) :
      Presents typeNAPTR text [.number n, .number m, .string flags, .string services,
        .string regexp, .name (textLabels (trimSpace remaining))]
  | hinfo {text cpu os rest : Bytes} (strings : QuotedStrings (trimSpace text) [cpu, os] rest)
      (ends : trimSpace rest = []) : Presents typeHINFO text [.string cpu, .string os]
  | sshfp {text alg fp data : Bytes} {digest : List Bytes} {n m : Nat}
      (split : fields text = alg :: fp :: digest) (first : Decimal alg n)
      (second : Decimal fp m) (decoded : hexDecode digest.flatten = some data) :
      Presents typeSSHFP text [.number n, .number m, .data data]
  | tlsa {text usage selector matching data : Bytes} {digest : List Bytes} {n m k : Nat}
      (split : fields text = usage :: selector :: matching :: digest) (first : Decimal usage n)
      (second : Decimal selector m) (third : Decimal matching k)
      (decoded : hexDecode digest.flatten = some data) :
      Presents typeTLSA text [.number n, .number m, .number k, .data data]
  | ds {text tag alg dt data : Bytes} {digest : List Bytes} {n m k : Nat}
      (split : fields text = tag :: alg :: dt :: digest) (first : Decimal tag n)
      (second : Decimal alg m) (third : Decimal dt k)
      (decoded : hexDecode digest.flatten = some data) :
      Presents typeDS text [.number n, .number m, .number k, .data data]
  | dnskey {text flags proto alg data : Bytes} {key : List Bytes} {n m k : Nat}
      (split : fields text = flags :: proto :: alg :: key) (first : Decimal flags n)
      (second : Decimal proto m) (third : Decimal alg k)
      (decoded : base64Decode key.flatten = some data) :
      Presents typeDNSKEY text [.number n, .number m, .number k, .data data]

/-! ## Exact RDATA -/

/-- The types of RDATA that ends in a name the server goes by. -/
def targetTypes : List UInt16 := nameTypes ++ [typeMX, typeSRV]

/-- The RDATA decodes to the fields of the text, which have the sizes the wire allows, and the
name the server finds in it is that of the text. -/
structure Exact (rtype : UInt16) (text out : Bytes) (values : List FieldValue) : Prop where
  decoded : decodeRData rtype out = some values
  presented : Presents rtype text values
  sized : ∀ v ∈ values, v.Sized
  target : rtype ∈ targetTypes → ∃ name, values.getLast? = some (.name (textLabels name)) ∧
    rdataNames rtype out = readBack name

theorem sized_of_decodeRData (decoded : decodeRData rtype out = some values) :
    ∀ v ∈ values, v.Sized :=
  Layout.forall_of_decode (fun _ _ _ _ => sized_readField) decoded

/-- RDATA of a type that ends in no name to go by. -/
theorem exact_of_row {kinds : List FieldKind} (format : layout rtype = kinds)
    (row : Layout.Row readField kinds out values) (presented : Presents rtype text values)
    (plain : rtype ∉ targetTypes) : Exact rtype text out values := by
  have decoded : decodeRData rtype out = some values := by
    rw [decodeRData, format]
    exact row.decode
  exact ⟨decoded, presented, sized_of_decodeRData decoded, fun named => absurd named plain⟩

/-! ## The formats -/

theorem row_packNameRData {buf name : Bytes} (packed : packNameRData buf name = .ok out) :
    Layout.Reads readField .name (encodeLabels (textLabels name) ++ [0])
        (.name (textLabels name)) ∧
      out = buf ++ (encodeLabels (textLabels name) ++ [0]) ∧
      nameIn out buf.length = readBack name := by
  obtain ⟨fit, short, rfl⟩ := packName_eq_ok_iff.mp (mapError_eq_ok.mp packed)
  refine ⟨reads_name fit short, rfl, ?_⟩
  rw [nameIn, parseName_packName fit short buf []]

theorem exact_singleName (member : rtype ∈ nameTypes)
    (built : buildSingleName rtype text = .ok out) :
    Exact rtype text out [.name (textLabels text)] := by
  unfold buildSingleName at built
  split at built
  · cases built
  · obtain ⟨reads, rfl, found⟩ := row_packNameRData built
    have naming : rtype = typeNS ∨ rtype = typeCNAME ∨ rtype = typeDNAME ∨ rtype = typePTR := by
      simpa [nameTypes] using member
    have format : layout rtype = [.name] := by
      rcases naming with rfl | rfl | rfl | rfl <;> rfl
    have decoded : decodeRData rtype ([] ++ (encodeLabels (textLabels text) ++ [0])) =
        some [.name (textLabels text)] := by
      rw [decodeRData, format]
      exact reads.last.decode
    refine ⟨decoded, .name member, sized_of_decodeRData decoded, fun _ => ⟨text, rfl, ?_⟩⟩
    rw [rdataNames, if_pos naming]
    exact found

theorem exact_MX (built : buildMX text = .ok out) : ∃ values, Exact typeMX text out values := by
  unfold buildMX at built
  split at built
  · rename_i pref target split
    obtain ⟨n, number, small, packed⟩ := number_of_bind built
    obtain ⟨reads, rfl, found⟩ := row_packNameRData packed
    have row : Layout.Row readField (layout typeMX) _ [.number n, .name (textLabels target)] :=
      .cons (reads_number16 small) reads.last
    refine ⟨_, row.decode, .mx split number, sized_of_decodeRData row.decode,
      fun _ => ⟨target, rfl, ?_⟩⟩
    have long : 2 < (putUint16 (UInt16.ofNat n) ++
        (encodeLabels (textLabels target) ++ [0])).length := by
      simp only [List.length_append, length_putUint16, List.length_singleton]
      omega
    rw [rdataNames, if_neg (by decide), if_pos rfl, if_pos long]
    exact found
  · cases built

theorem exact_SRV (built : buildSRV text = .ok out) : ∃ values, Exact typeSRV text out values := by
  unfold buildSRV at built
  split at built
  · rename_i priority weight port target split
    obtain ⟨p, first, small, built⟩ := number_of_bind built
    obtain ⟨w, second, small', built⟩ := number_of_bind built
    obtain ⟨q, third, small'', packed⟩ := number_of_bind built
    obtain ⟨reads, rfl, found⟩ := row_packNameRData packed
    have decoded : decodeRData typeSRV
        (putUint16 (UInt16.ofNat p) ++ putUint16 (UInt16.ofNat w) ++ putUint16 (UInt16.ofNat q) ++
          (encodeLabels (textLabels target) ++ [0])) =
        some [.number p, .number w, .number q, .name (textLabels target)] := by
      have row : Layout.Row readField (layout typeSRV) _ _ :=
        .cons (reads_number16 small) (.cons (reads_number16 small')
          (.cons (reads_number16 small'') reads.last))
      rw [List.append_assoc, List.append_assoc]
      exact row.decode
    refine ⟨_, decoded, .srv split first second third, sized_of_decodeRData decoded,
      fun _ => ⟨target, rfl, ?_⟩⟩
    have long : 6 < (putUint16 (UInt16.ofNat p) ++ putUint16 (UInt16.ofNat w) ++
        putUint16 (UInt16.ofNat q) ++ (encodeLabels (textLabels target) ++ [0])).length := by
      simp only [List.length_append, length_putUint16, List.length_singleton]
      omega
    rw [rdataNames, if_neg (by decide), if_neg (by decide), if_pos rfl, if_pos long]
    exact found
  · cases built

theorem exact_A (built : buildA text = .ok out) : ∃ values, Exact typeA text out values := by
  have size := length_buildA built
  unfold buildA at built
  split at built
  · rename_i octets parsed
    cases built
    exact ⟨_, exact_of_row rfl (row_address size) (.a parsed) (by decide)⟩
  · cases built

/-- A text that is cut into strings of at most 255 bytes loses nothing. -/
theorem txtChunks_pieces {fuel : Nat} (enough : text.length ≤ fuel) :
    ∃ pieces, txtChunks fuel text = encodeStrings pieces ∧ pieces.flatten = text ∧ pieces ≠ [] ∧
      ∀ s ∈ pieces, s.length ≤ 255 := by
  induction fuel generalizing text with
  | zero =>
      refine ⟨[text], by simp [txtChunks, encodeStrings], by simp, by simp, ?_⟩
      intro s member
      rw [List.mem_singleton.mp member]
      omega
  | succ fuel ih =>
      unfold txtChunks
      split
      · rename_i long
        have shorter : (text.drop 255).length ≤ fuel := by
          rw [List.length_drop]
          omega
        obtain ⟨pieces, written, joined, -, short⟩ := ih shorter
        have size : (text.take 255).length = 255 := by
          rw [List.length_take]
          omega
        refine ⟨text.take 255 :: pieces, ?_, ?_, by simp, ?_⟩
        · rw [written, encodeStrings, encodeStrings, List.flatMap_cons, size]
          rfl
        · rw [List.flatten_cons, joined, List.take_append_drop]
        · exact List.forall_mem_cons.mpr ⟨Nat.le_of_eq size, short⟩
      · rename_i short
        refine ⟨[text], by simp [encodeStrings], by simp, by simp, ?_⟩
        intro s member
        rw [List.mem_singleton.mp member]
        omega

theorem flatMap_txtChunks (parts : List Bytes) :
    ∃ pieces : List (List Bytes),
      (parts.flatMap fun p => txtChunks p.length p) = encodeStrings pieces.flatten ∧
      pieces.map List.flatten = parts ∧ (parts ≠ [] → pieces.flatten ≠ []) ∧
      ∀ s ∈ pieces.flatten, s.length ≤ 255 := by
  induction parts with
  | nil => exact ⟨[], rfl, rfl, fun nonempty => absurd rfl nonempty, by simp⟩
  | cons part parts ih =>
      obtain ⟨pieces, written, joined, -, short⟩ := ih
      obtain ⟨first, here, whole, nonempty, short'⟩ := txtChunks_pieces (Nat.le_refl part.length)
      refine ⟨first :: pieces, ?_, ?_, ?_, ?_⟩
      · rw [List.flatMap_cons, here, written, List.flatten_cons, encodeStrings, encodeStrings,
          encodeStrings, List.flatMap_append]
      · rw [List.map_cons, whole, joined]
      · intro _ empty
        rw [List.flatten_cons, List.append_eq_nil_iff] at empty
        exact nonempty empty.1
      · rw [List.flatten_cons]
        exact List.forall_mem_append.mpr ⟨short', short⟩

/-- A text has a part. -/
theorem TextParts.ne_nil (trimmed : trimSpace text = text) (split : TextParts text parts) :
    parts ≠ [] := by
  cases split with
  | quoted opening strings =>
      rintro rfl
      rw [trimmed] at strings
      cases strings
      simp [hasPrefix] at opening
  | plain other => simp

theorem length_encodeStrings_pos {strings : List Bytes} (nonempty : strings ≠ []) :
    (encodeStrings strings).length ≠ 0 := by
  obtain ⟨s, rest, rfl⟩ := List.exists_cons_of_ne_nil nonempty
  simp [encodeStrings]

theorem textParts_of_buildTXT (built : buildTXT text = .ok out) :
    ∃ parts, TextParts text parts ∧
      out = if (parts.flatMap fun p => txtChunks p.length p).length = 0 then [0]
        else parts.flatMap fun p => txtChunks p.length p := by
  unfold buildTXT at built
  dsimp only at built
  split at built
  · rename_i opening
    obtain ⟨parts, read, same⟩ := bind_eq_ok.mp built
    exact ⟨parts, .quoted opening (quotedStrings_of_parseQuotedStrings read),
      (Except.ok.inj same).symm⟩
  · rename_i other
    exact ⟨[text], .plain (Bool.eq_false_iff.mpr other), (Except.ok.inj built).symm⟩

theorem exact_TXT (trimmed : trimSpace text = text) (built : buildTXT text = .ok out) :
    ∃ values, Exact typeTXT text out values := by
  obtain ⟨parts, split, same⟩ := textParts_of_buildTXT built
  obtain ⟨pieces, written, joined, pieced, short⟩ := flatMap_txtChunks parts
  have nonempty := pieced (split.ne_nil trimmed)
  rw [written, if_neg (length_encodeStrings_pos nonempty)] at same
  rw [same]
  exact ⟨_, exact_of_row rfl (row_strings nonempty short) (.txt split joined) (by decide)⟩

/-- The fields of a CAA record. -/
theorem row_CAA {tag : Bytes} (small : n < 2 ^ 8) (fit : ¬ (tag = [] ∨ 255 < tag.length))
    (value : Bytes) :
    Layout.Row readField (layout typeCAA)
      ([UInt8.ofNat n, UInt8.ofNat tag.length] ++ tag ++ value)
      [.number n, .string tag, .data value] :=
  have short : tag.length ≤ 255 := Nat.le_of_not_lt fun long => fit (.inr long)
  row_number8 small (.cons (reads_string short) (row_data value))

theorem exact_CAA (built : buildCAA text = .ok out) : ∃ values, Exact typeCAA text out values := by
  unfold buildCAA at built
  split at built
  · rename_i flags tag value split
    obtain ⟨n, number, small, built⟩ := number_of_bind built
    split at built
    · cases built
    · rename_i fit
      obtain ⟨contents, valued, same⟩ := bind_eq_ok.mp built
      have given : CAAText (trimSpace value) contents := by
        unfold caaValue at valued
        split at valued
        · rename_i opening
          split at valued
          · rename_i contents read
            cases valued
            exact .quoted opening (quotedStrings_of_parseQuotedStrings read)
          · cases valued
        · rename_i other
          cases valued
          exact .plain (Bool.eq_false_iff.mpr other)
      cases same
      exact ⟨_, exact_of_row rfl (row_CAA small fit contents) (.caa split number given) (by decide)⟩
  · cases built

theorem appendStrings_eq_ok {buf : Bytes} {strings : List Bytes}
    (written : appendStrings rtype buf strings = .ok out) :
    (∀ s ∈ strings, s.length ≤ 255) ∧ out = buf ++ encodeStrings strings := by
  induction strings generalizing buf with
  | nil =>
      cases written
      simp [encodeStrings]
  | cons s strings ih =>
      unfold appendStrings at written
      split at written
      · cases written
      · rename_i short
        obtain ⟨all, rfl⟩ := ih written
        refine ⟨List.forall_mem_cons.mpr ⟨Nat.le_of_not_lt short, all⟩, ?_⟩
        simp [encodeStrings]

/-- The fields of a NAPTR record. -/
theorem row_NAPTR {m : Nat} {flags services regexp name buf : Bytes} (small : n < 2 ^ 16)
    (small' : m < 2 ^ 16)
    (written : appendStrings typeNAPTR (putUint16 (UInt16.ofNat n) ++ putUint16 (UInt16.ofNat m))
      [flags, services, regexp] = .ok buf)
    (packed : packNameRData buf name = .ok out) :
    Layout.Row readField (layout typeNAPTR) out [.number n, .number m, .string flags,
      .string services, .string regexp, .name (textLabels name)] := by
  obtain ⟨short, rfl⟩ := appendStrings_eq_ok written
  obtain ⟨reads, rfl, -⟩ := row_packNameRData packed
  have row : Layout.Row readField (layout typeNAPTR) _ [.number n, .number m, .string flags,
      .string services, .string regexp, .name (textLabels name)] :=
    .cons (reads_number16 small) (.cons (reads_number16 small')
      (.cons (reads_string (short flags (by simp))) (.cons (reads_string (short services (by simp)))
        (.cons (reads_string (short regexp (by simp))) reads.last))))
  have shape : ∀ a b c : Bytes, encodeStrings [a, b, c] =
      UInt8.ofNat a.length :: a ++ (UInt8.ofNat b.length :: b ++ (UInt8.ofNat c.length :: c)) := by
    simp [encodeStrings]
  simp only [shape, List.append_assoc]
  exact row

theorem exact_NAPTR (built : buildNAPTR text = .ok out) :
    ∃ values, Exact typeNAPTR text out values := by
  have first := firstField_cutField text
  have second := firstField_cutField (cutField text).2
  unfold buildNAPTR at built
  dsimp only at built
  obtain ⟨n, number, small, built⟩ := number_of_bind built
  obtain ⟨m, number', small', built⟩ := number_of_bind built
  obtain ⟨⟨strings, remaining⟩, taken, built⟩ := bind_eq_ok.mp built
  obtain ⟨quoted, size⟩ := quotedStrings_of_takeQuoted taken
  dsimp only at built
  split at built
  · cases built
  · obtain ⟨buf, written, packed⟩ := bind_eq_ok.mp built
    obtain ⟨flags, services, regexp, rfl⟩ := List.length_eq_three.mp size
    exact ⟨_, exact_of_row rfl (row_NAPTR small small' written packed)
      (.naptr first second number number' quoted) (by decide)⟩

/-- The fields of a HINFO record. -/
theorem row_HINFO {cpu os : Bytes} (written : appendStrings typeHINFO [] [cpu, os] = .ok out) :
    Layout.Row readField (layout typeHINFO) out [.string cpu, .string os] := by
  obtain ⟨short, rfl⟩ := appendStrings_eq_ok written
  have row : Layout.Row readField (layout typeHINFO) _ [.string cpu, .string os] :=
    .cons (reads_string (short cpu (by simp))) (reads_string (short os (by simp))).last
  have shape : [] ++ encodeStrings [cpu, os] =
      UInt8.ofNat cpu.length :: cpu ++ (UInt8.ofNat os.length :: os) := by
    simp [encodeStrings]
  rw [shape]
  exact row

theorem exact_HINFO (built : buildHINFO text = .ok out) :
    ∃ values, Exact typeHINFO text out values := by
  unfold buildHINFO at built
  split at built
  · rename_i strings rest taken
    obtain ⟨quoted, size⟩ := quotedStrings_of_takeQuoted taken
    split at built
    · cases built
    · rename_i ends
      rw [ne_eq, not_not] at ends
      obtain ⟨cpu, os, rfl⟩ := List.length_eq_two.mp size
      exact ⟨_, exact_of_row rfl (row_HINFO built) (.hinfo quoted ends) (by decide)⟩
  · cases built

theorem decodeData_eq_ok {decoded : Option Bytes} {invalid : RDataError} {data : Bytes}
    (given : decodeData decoded invalid = .ok data) : decoded = some data := by
  unfold decodeData at given
  split at given
  · split at given
    · cases given
    · cases given
      rfl
  · cases given

/-- The data that is decoded on the way. -/
theorem data_of_bind {decoded : Option Bytes} {invalid : RDataError}
    {rest : Bytes → Except RDataError Bytes}
    (built : decodeData decoded invalid >>= rest = .ok out) :
    ∃ data, decoded = some data ∧ rest data = .ok out := by
  obtain ⟨data, given, built⟩ := bind_eq_ok.mp built
  exact ⟨data, decodeData_eq_ok given, built⟩

theorem exact_SSHFP (built : buildSSHFP text = .ok out) :
    ∃ values, Exact typeSSHFP text out values := by
  unfold buildSSHFP at built
  split at built
  · rename_i alg fp digest more split
    obtain ⟨n, first, small, built⟩ := number_of_bind built
    obtain ⟨m, second, small', built⟩ := number_of_bind built
    obtain ⟨data, given, same⟩ := data_of_bind built
    cases same
    exact ⟨_, exact_of_row rfl
      (row_number8 small (row_number8 small' (row_data data)))
      (.sshfp split first second given) (by decide)⟩
  · cases built

theorem exact_TLSA (built : buildTLSA text = .ok out) :
    ∃ values, Exact typeTLSA text out values := by
  unfold buildTLSA at built
  split at built
  · rename_i usage selector matching digest more split
    obtain ⟨n, first, small, built⟩ := number_of_bind built
    obtain ⟨m, second, small', built⟩ := number_of_bind built
    obtain ⟨k, third, small'', built⟩ := number_of_bind built
    obtain ⟨data, given, same⟩ := data_of_bind built
    cases same
    exact ⟨_, exact_of_row rfl
      (row_number8 small (row_number8 small' (row_number8 small'' (row_data data))))
      (.tlsa split first second third given) (by decide)⟩
  · cases built

/-- The layout that DS and DNSKEY share. -/
theorem row_keyed {m k : Nat} (small : n < 2 ^ 16) (small' : m < 2 ^ 8) (small'' : k < 2 ^ 8)
    (data : Bytes) :
    Layout.Row readField [.number16, .number8, .number8, .data]
      (putUint16 (UInt16.ofNat n) ++ [UInt8.ofNat m, UInt8.ofNat k] ++ data)
      [.number n, .number m, .number k, .data data] := by
  rw [List.append_assoc]
  exact .cons (reads_number16 small) (row_number8 small' (row_number8 small'' (row_data data)))

theorem exact_DS (built : buildDS text = .ok out) : ∃ values, Exact typeDS text out values := by
  unfold buildDS at built
  split at built
  · rename_i tag alg dt digest more split
    obtain ⟨n, first, small, built⟩ := number_of_bind built
    obtain ⟨m, second, small', built⟩ := number_of_bind built
    obtain ⟨k, third, small'', built⟩ := number_of_bind built
    obtain ⟨data, given, same⟩ := data_of_bind built
    cases same
    exact ⟨_, exact_of_row rfl (row_keyed small small' small'' data)
      (.ds split first second third given) (by decide)⟩
  · cases built

theorem exact_DNSKEY (built : buildDNSKEY text = .ok out) :
    ∃ values, Exact typeDNSKEY text out values := by
  unfold buildDNSKEY at built
  split at built
  · rename_i flags proto alg key more split
    obtain ⟨n, first, small, built⟩ := number_of_bind built
    obtain ⟨m, second, small', built⟩ := number_of_bind built
    obtain ⟨k, third, small'', built⟩ := number_of_bind built
    obtain ⟨data, given, same⟩ := data_of_bind built
    cases same
    exact ⟨_, exact_of_row rfl (row_keyed small small' small'' data)
      (.dnskey split first second third given) (by decide)⟩
  · cases built

/-! ## Addresses with a zone -/

theorem zoneOf_of_not_mem (clean : percent ∉ text) : zoneOf text = [] := by
  have absent : indexByte text percent = none := by
    rw [indexByte, List.findIdx?_eq_none_iff]
    intro b member
    simp only [decide_eq_false_iff_not]
    rintro rfl
    exact clean member
  rw [zoneOf, absent]

/-- An accepted address has no empty zone. -/
theorem zoneOf_ne_nil {octets : Bytes} (parsed : parseIPv6 text = some octets)
    (member : percent ∈ text) : zoneOf text ≠ [] := by
  obtain ⟨i, found⟩ : ∃ i, indexByte text percent = some i := by
    rw [← Option.isSome_iff_exists, indexByte, List.findIdx?_isSome, List.any_eq_true]
    exact ⟨percent, member, by simp⟩
  obtain ⟨inside, -, -⟩ := List.findIdx?_eq_some_iff_getElem.mp found
  have last : i ≠ text.length - 1 := by
    rintro rfl
    have refused : parseIPv6 text = none := by
      unfold parseIPv6
      rw [show indexByte text 37 = some (text.length - 1) from found]
      simp
    rw [refused] at parsed
    cases parsed
  rw [zoneOf, found]
  dsimp only
  rw [ne_eq, List.drop_eq_nil_iff]
  omega

/-- The text of an AAAA record is an address with its zone. -/
theorem Presents.zone (presents : Presents rtype text values) (is : rtype = typeAAAA) :
    ∃ octets, values = [.address octets (zoneOf text)] := by
  cases presents with
  | aaaa parsed => exact ⟨_, rfl⟩
  | name member =>
      rw [is] at member
      exact absurd member (by decide)
  | a | mx | txt | srv | caa | naptr | hinfo | sshfp | tlsa | ds | dnskey =>
      exact absurd is (by decide)

theorem exact_AAAA_iff (built : buildAAAA text = .ok out) :
    (∃ values, Exact typeAAAA text out values) ↔ percent ∉ text := by
  have size := length_buildAAAA built
  unfold buildAAAA at built
  split at built
  · rename_i octets parsed
    split at built
    · cases built
    · cases built
      have row : Layout.Row readField [.address 16] out [.address out []] := row_address size
      constructor
      · rintro ⟨values, decoded, presented, -, -⟩ member
        obtain ⟨octets, rfl⟩ := presented.zone rfl
        have same : some [FieldValue.address out []] = some [.address octets (zoneOf text)] :=
          row.decode.symm.trans decoded
        obtain ⟨_, -, ⟨⟩⟩ | ⟨_, read, ⟨⟩⟩ := parseAddr_cases parsed
        refine zoneOf_ne_nil read member ?_
        rw [Option.some.injEq, List.cons.injEq, FieldValue.address.injEq] at same
        exact same.1.2.symm
      · intro clean
        have presented := Presents.aaaa parsed
        rw [zoneOf_of_not_mem clean] at presented
        exact ⟨_, exact_of_row rfl row presented (by decide)⟩
  · cases built

/-! ## All types -/

/-- RDATA of any other type than AAAA is exact. -/
theorem exists_exact (other : rtype ≠ typeAAAA) (built : buildRData rtype text = .ok out) :
    ∃ values, Exact rtype (trimSpace text) out values := by
  have trimmed : trimSpace (trimSpace text) = trimSpace text :=
    trimSpace_eq_self (not_startsWithSpace_trimSpace text) (not_endsWithSpace_trimSpace text)
  unfold buildRData at built
  dsimp only at built
  -- the cases of the switch, in its order
  obtain ⟨is, made⟩ | ⟨-, built⟩ := ite_eq_ok built
  · subst is
    exact exact_A made
  obtain ⟨is, made⟩ | ⟨-, built⟩ := ite_eq_ok built
  · exact absurd is other
  obtain ⟨is, made⟩ | ⟨-, built⟩ := ite_eq_ok built
  · exact ⟨_, exact_singleName (by simpa [nameTypes] using is) made⟩
  obtain ⟨is, made⟩ | ⟨-, built⟩ := ite_eq_ok built
  · subst is
    exact exact_MX made
  obtain ⟨is, made⟩ | ⟨-, built⟩ := ite_eq_ok built
  · subst is
    exact exact_TXT trimmed made
  obtain ⟨is, made⟩ | ⟨-, built⟩ := ite_eq_ok built
  · subst is
    exact exact_SRV made
  obtain ⟨is, made⟩ | ⟨-, built⟩ := ite_eq_ok built
  · subst is
    exact exact_CAA made
  obtain ⟨is, made⟩ | ⟨-, built⟩ := ite_eq_ok built
  · subst is
    exact exact_NAPTR made
  obtain ⟨is, made⟩ | ⟨-, built⟩ := ite_eq_ok built
  · subst is
    exact exact_HINFO made
  obtain ⟨is, made⟩ | ⟨-, built⟩ := ite_eq_ok built
  · subst is
    exact exact_SSHFP made
  obtain ⟨is, made⟩ | ⟨-, built⟩ := ite_eq_ok built
  · subst is
    exact exact_TLSA made
  obtain ⟨is, made⟩ | ⟨-, built⟩ := ite_eq_ok built
  · subst is
    exact exact_DS made
  obtain ⟨is, made⟩ | ⟨-, built⟩ := ite_eq_ok built
  · subst is
    exact exact_DNSKEY made
  cases built

/-- **RDATA says what the text says, but for the zone of an IPv6 address.** For every type,
the RDATA made of a text decodes with no octet left over to the fields of the text, unless
the text is an AAAA record's address with a zone. -/
theorem buildRData_exact_iff {rtype : UInt16} {text out : Bytes}
    (built : buildRData rtype text = .ok out) :
    (∃ values, Exact rtype (trimSpace text) out values) ↔
      (rtype = typeAAAA → percent ∉ trimSpace text) := by
  by_cases address : rtype = typeAAAA
  · subst address
    rw [buildRData, if_neg (by decide), if_pos rfl] at built
    rw [exact_AAAA_iff built]
    exact ⟨fun clean _ => clean, fun clean => clean rfl⟩
  · exact ⟨fun _ is => absurd is address, fun _ => exists_exact address built⟩

/-- A link-local address with a zone is accepted, and the zone is lost. -/
theorem zonedAddress_not_exact :
    ∃ out, buildRData typeAAAA (ascii "fe80::1%eth0") = .ok out ∧
      buildRData typeAAAA (ascii "fe80::1") = .ok out ∧
      ¬ ∃ values, Exact typeAAAA (ascii "fe80::1%eth0") out values := by
  have zoned : buildAAAA (ascii "fe80::1%eth0") =
      .ok [254, 128, 0, 0, 0, 0, 0, 0, 0, 0, 0, 0, 0, 0, 0, 1] := by decide +kernel
  refine ⟨[254, 128, 0, 0, 0, 0, 0, 0, 0, 0, 0, 0, 0, 0, 0, 1], by decide +kernel,
    by decide +kernel, ?_⟩
  rw [exact_AAAA_iff zoned]
  decide +kernel

/-- The RDATA of a mail exchange, and the name the server finds in it. -/
theorem buildRData_exact_iff_mx :
    ∃ out, buildRData typeMX (ascii "10 mail.a.") = .ok out ∧
      ∃ values, Exact typeMX (trimSpace (ascii "10 mail.a.")) out values := by
  have built : buildRData typeMX (ascii "10 mail.a.") =
      .ok [0, 10, 4, 109, 97, 105, 108, 1, 97, 0] := by decide +kernel
  refine ⟨_, built, (buildRData_exact_iff built).mpr ?_⟩
  exact fun is => absurd is (by decide)

end ShardDNS.DNS

import ShardDNS.DNS.RData
import ShardDNS.Library.Layout

/-!
# The wire layouts of RDATA

The fields that the RDATA of each supported type consists of, by the standard that defines
the type, and a decoder for them that accepts no octet too many. Numbers, character strings
and names are read independently of how the server reads its messages; names are
uncompressed.
-/

set_option autoImplicit false

namespace ShardDNS.DNS

open Go

/-! ## Fields -/

inductive FieldKind where
  | number8
  | number16
  | string
  | strings
  | name
  | address (size : Nat)
  | data
  deriving DecidableEq, Repr

/-- A value of a field. An address on the wire has no zone; one in a text may have. -/
inductive FieldValue where
  | number (n : Nat)
  | string (s : Bytes)
  | strings (ss : List Bytes)
  | name (labels : List Bytes)
  | address (octets zone : Bytes)
  | data (octets : Bytes)
  deriving DecidableEq, Repr

/-- A character string: a length octet and as many octets. -/
def readString : Bytes → Option (Bytes × Bytes)
  | [] => none
  | n :: rest =>
      if n.toNat ≤ rest.length then some (rest.take n.toNat, rest.drop n.toNat) else none

/-- Character strings up to the end. -/
def readStrings : Nat → Bytes → Option (List Bytes)
  | _, [] => some []
  | 0, _ :: _ => none
  | fuel + 1, b :: buf => do
      let (s, rest) ← readString (b :: buf)
      let strings ← readStrings fuel rest
      return s :: strings

/-- Labels up to an empty one, none of them a compression pointer. -/
def readLabels : Nat → Bytes → Option (List Bytes × Bytes)
  | 0, _ => none
  | fuel + 1, buf => do
      let (label, rest) ← readString buf
      if label = [] then return ([], rest)
      else if maxLabelLen < label.length then none
      else do
        let (names, rest) ← readLabels fuel rest
        return (label :: names, rest)

def readField : FieldKind → Bytes → Option (FieldValue × Bytes)
  | .number8, x :: rest => some (.number x.toNat, rest)
  | .number16, x :: y :: rest => some (.number (x.toNat * 256 + y.toNat), rest)
  | .string, buf => (readString buf).map fun (s, rest) => (.string s, rest)
  | .strings, b :: buf =>
      (readStrings (b :: buf).length (b :: buf)).map fun strings => (.strings strings, [])
  | .name, buf => do
      let (names, rest) ← readLabels buf.length buf
      if wireLength names ≤ maxNameLen then return (.name names, rest) else none
  | .address size, buf =>
      if size ≤ buf.length then some (.address (buf.take size) [], buf.drop size) else none
  | .data, buf => some (.data buf, [])
  | _, _ => none

/-- The layout of a type that has a name, and no fields for the others. -/
def layout (rtype : UInt16) : List FieldKind :=
  if rtype = typeA then [.address 4]
  else if rtype = typeAAAA then [.address 16]
  else if rtype ∈ [typeNS, typeCNAME, typeDNAME, typePTR] then [.name]
  else if rtype = typeMX then [.number16, .name]
  else if rtype = typeTXT then [.strings]
  else if rtype = typeSRV then [.number16, .number16, .number16, .name]
  else if rtype = typeCAA then [.number8, .string, .data]
  else if rtype = typeNAPTR then [.number16, .number16, .string, .string, .string, .name]
  else if rtype = typeHINFO then [.string, .string]
  else if rtype = typeSSHFP then [.number8, .number8, .data]
  else if rtype = typeTLSA then [.number8, .number8, .number8, .data]
  else if rtype ∈ [typeDS, typeDNSKEY] then [.number16, .number8, .number8, .data]
  else []

/-- The fields of RDATA of a type, with no octet left over. -/
def decodeRData (rtype : UInt16) (rdata : Bytes) : Option (List FieldValue) :=
  Layout.decode readField (layout rtype) rdata

/-! ## Sizes -/

/-- Strings are at most 255 bytes long, and names are made of labels of 1 to 63 bytes, with
at most 255 octets in all. -/
def FieldValue.Sized : FieldValue → Prop
  | .string s => s.length ≤ 255
  | .strings ss => ∀ s ∈ ss, s.length ≤ 255
  | .name names => LabelsFit names ∧ wireLength names ≤ maxNameLen
  | _ => True

variable {buf : Bytes} {fuel : Nat} {names strings : List Bytes}

theorem length_readString {s rest : Bytes} (read : readString buf = some (s, rest)) :
    s.length ≤ 255 := by
  cases buf with
  | nil => cases read
  | cons n buf =>
      simp only [readString, Option.ite_none_right_eq_some, Option.some.injEq,
        Prod.mk.injEq] at read
      obtain ⟨-, rfl, -⟩ := read
      have bound := n.toNat_lt
      rw [List.length_take]
      omega

theorem length_readStrings (read : readStrings fuel buf = some strings) :
    ∀ s ∈ strings, s.length ≤ 255 := by
  induction fuel generalizing buf strings with
  | zero =>
      cases buf with
      | nil =>
          cases read
          intro s member
          cases member
      | cons b buf => cases read
  | succ fuel ih =>
      cases buf with
      | nil =>
          cases read
          intro s member
          cases member
      | cons b buf =>
          simp only [readStrings, Option.bind_eq_bind, Option.bind_eq_some_iff] at read
          obtain ⟨⟨s, rest⟩, first, more, later, same⟩ := read
          cases same
          exact List.forall_mem_cons.mpr ⟨length_readString first, ih later⟩

theorem labelsFit_readLabels {rest : Bytes} (read : readLabels fuel buf = some (names, rest)) :
    LabelsFit names := by
  induction fuel generalizing buf rest names with
  | zero => cases read
  | succ fuel ih =>
      simp only [readLabels, Option.bind_eq_bind, Option.bind_eq_some_iff] at read
      obtain ⟨⟨label, after⟩, first, read⟩ := read
      dsimp only at read
      split at read
      · cases read
        intro label member
        cases member
      · rename_i nonempty
        split at read
        · cases read
        · rename_i short
          obtain ⟨⟨more, back⟩, later, same⟩ := Option.bind_eq_some_iff.mp read
          cases same
          refine List.forall_mem_cons.mpr ⟨⟨List.length_pos_iff.mpr nonempty, by omega⟩, ih later⟩

theorem sized_readField {kind : FieldKind} {rest : Bytes} {v : FieldValue}
    (read : readField kind buf = some (v, rest)) : v.Sized := by
  unfold readField at read
  split at read
  · cases read
    trivial
  · cases read
    trivial
  · obtain ⟨⟨s, after⟩, first, same⟩ := Option.map_eq_some_iff.mp read
    cases same
    exact length_readString first
  · obtain ⟨strings, first, same⟩ := Option.map_eq_some_iff.mp read
    cases same
    exact length_readStrings first
  · obtain ⟨⟨names, after⟩, first, read⟩ := Option.bind_eq_some_iff.mp read
    dsimp only at read
    split at read
    · rename_i short
      cases read
      exact ⟨labelsFit_readLabels first, short⟩
    · cases read
  · split at read
    · cases read
      trivial
    · cases read
  · cases read
    trivial
  · cases read

/-! ## What is read back -/

theorem reads_number8 {n : Nat} (small : n < 2 ^ 8) :
    Layout.Reads readField .number8 [UInt8.ofNat n] (.number n) := by
  intro rest
  simp only [List.singleton_append, readField, UInt8.toNat_ofNat', Nat.mod_eq_of_lt small]

theorem row_number8 {n : Nat} (small : n < 2 ^ 8) {kinds : List FieldKind} {more : Bytes}
    {values : List FieldValue} (row : Layout.Row readField kinds more values) :
    Layout.Row readField (.number8 :: kinds) (UInt8.ofNat n :: more) (.number n :: values) :=
  .cons (reads_number8 small) row

theorem reads_number16 {n : Nat} (small : n < 2 ^ 16) :
    Layout.Reads readField .number16 (putUint16 (UInt16.ofNat n)) (.number n) := by
  intro rest
  have value : (UInt16.ofNat n).toNat = n := by
    rw [UInt16.toNat_ofNat']
    omega
  have halves : n / 2 ^ 8 % 2 ^ 8 * 256 + n % 2 ^ 8 = n := by omega
  simp only [putUint16, value, List.cons_append, List.nil_append, readField, UInt8.toNat_ofNat',
    halves]

theorem readString_append {s : Bytes} (short : s.length ≤ 255) (rest : Bytes) :
    readString (UInt8.ofNat s.length :: s ++ rest) = some (s, rest) := by
  have size : (UInt8.ofNat s.length).toNat = s.length := by
    rw [UInt8.toNat_ofNat']
    omega
  rw [List.cons_append, readString, size, if_pos (by simp), List.take_left, List.drop_left]

theorem reads_string {s : Bytes} (short : s.length ≤ 255) :
    Layout.Reads readField .string (UInt8.ofNat s.length :: s) (.string s) := by
  intro rest
  simp only [readField, readString_append short, Option.map_some]

/-- Strings one after the other. -/
def encodeStrings (strings : List Bytes) : Bytes :=
  strings.flatMap fun s => UInt8.ofNat s.length :: s

theorem readStrings_encode (short : ∀ s ∈ strings, s.length ≤ 255)
    (enough : (encodeStrings strings).length ≤ fuel) :
    readStrings fuel (encodeStrings strings) = some strings := by
  induction strings generalizing fuel with
  | nil => cases fuel <;> rfl
  | cons s strings ih =>
      have shape : encodeStrings (s :: strings) =
          UInt8.ofNat s.length :: s ++ encodeStrings strings := rfl
      have first := readString_append (short s List.mem_cons_self) (encodeStrings strings)
      rw [shape, List.length_append, List.length_cons] at enough
      cases fuel with
      | zero => omega
      | succ fuel =>
          have later := ih (fun t member => short t (List.mem_cons_of_mem _ member))
            (show (encodeStrings strings).length ≤ fuel by omega)
          rw [List.cons_append] at first
          rw [shape, List.cons_append, readStrings, first]
          simp only [Option.bind_eq_bind, Option.bind_some, later]
          rfl

theorem row_strings (nonempty : strings ≠ []) (short : ∀ s ∈ strings, s.length ≤ 255) :
    Layout.Row readField [.strings] (encodeStrings strings) [.strings strings] := by
  obtain ⟨s, rest, rfl⟩ := List.exists_cons_of_ne_nil nonempty
  have read := readStrings_encode short (Nat.le_refl _)
  have shape : encodeStrings (s :: rest) = UInt8.ofNat s.length :: (s ++ encodeStrings rest) := rfl
  refine .last ?_
  rw [shape] at read ⊢
  simp only [readField, read, Option.map_some]

theorem readLabels_encode (fit : LabelsFit names) (rest : Bytes)
    (enough : (encodeLabels names).length < fuel) :
    readLabels fuel (encodeLabels names ++ 0 :: rest) = some (names, rest) := by
  induction names generalizing fuel with
  | nil =>
      cases fuel with
      | zero => omega
      | succ fuel => simp [encodeLabels, readLabels, readString]
  | cons label names ih =>
      obtain ⟨here, later⟩ := List.forall_mem_cons.mp fit
      have bound : maxLabelLen ≤ 255 := by decide
      have first := readString_append (here.2.trans bound) (encodeLabels names ++ 0 :: rest)
      rw [encodeLabels_cons, List.length_cons, List.length_append] at enough
      cases fuel with
      | zero => omega
      | succ fuel =>
          have more := ih later (show (encodeLabels names).length < fuel by omega)
          have shape : encodeLabels (label :: names) ++ 0 :: rest =
              UInt8.ofNat label.length :: label ++ (encodeLabels names ++ 0 :: rest) := by
            rw [encodeLabels_cons, List.cons_append, List.cons_append, List.append_assoc]
          rw [shape, readLabels, first]
          simp only [Option.bind_eq_bind, Option.bind_some, if_neg (List.length_pos_iff.mp here.1),
            if_neg (Nat.not_lt.mpr here.2), more]
          rfl

theorem reads_name (fit : LabelsFit names) (short : wireLength names ≤ maxNameLen) :
    Layout.Reads readField .name (encodeLabels names ++ [0]) (.name names) := by
  intro rest
  rw [List.append_assoc, List.singleton_append]
  have read := readLabels_encode fit rest
    (show (encodeLabels names).length < (encodeLabels names ++ 0 :: rest).length by simp)
  simp only [readField, read, Option.bind_eq_bind, Option.bind_some, if_pos short]
  rfl

theorem row_address {size : Nat} {octets : Bytes} (exact : octets.length = size) :
    Layout.Row readField [.address size] octets [.address octets []] := by
  refine .last ?_
  rw [readField, if_pos (Nat.le_of_eq exact.symm), List.take_of_length_le (Nat.le_of_eq exact),
    List.drop_of_length_le (Nat.le_of_eq exact)]

theorem row_data (octets : Bytes) : Layout.Row readField [.data] octets [.data octets] :=
  .last rfl

end ShardDNS.DNS

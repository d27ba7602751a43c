import ShardDNS.Go.Strings

/-!
# Numbers and addresses as bytes and text

Big-endian integers (`encoding/binary`), decimal numbers (`strconv`),
hexadecimal and base64 text (`encoding/hex`, `encoding/base64`) and IP
addresses (`net/netip`), in the forms a DNS server reads and writes.

Indexing and slicing fail when they are out of range, as in Go, where they
end the program. A caller that checks bounds first never sees that failure
(`index_eq_ok`, `slice_eq_ok`).
-/

set_option autoImplicit false

namespace Go

/-! ## Errors -/

section Errors

variable {ε δ α β : Type}

@[simp] theorem ok_bind (a : α) (f : α → Except ε β) : (Except.ok a >>= f) = f a := rfl

@[simp] theorem error_bind (e : ε) (f : α → Except ε β) :
    ((Except.error e : Except ε α) >>= f) = .error e := rfl

variable {x : Except ε α} {Bad : ε → Prop}

theorem bind_eq_ok {f : α → Except ε β} {r : β} :
    x >>= f = .ok r ↔ ∃ a, x = .ok a ∧ f a = .ok r := by
  cases x <;> simp

@[simp] theorem mapError_ok (f : ε → δ) (a : α) :
    (Except.ok a : Except ε α).mapError f = .ok a := rfl

theorem mapError_eq_ok {f : ε → δ} {r : α} : x.mapError f = .ok r ↔ x = .ok r := by
  cases x <;> simp [Except.mapError]

theorem map_eq_ok {f : α → β} {r : β} : x.map f = .ok r ↔ ∃ a, x = .ok a ∧ f a = r := by
  cases x <;> simp [Except.map]

theorem toOption_eq_some_iff {r : α} : x.toOption = some r ↔ x = .ok r := by
  cases x <;> simp [Except.toOption]

theorem ite_eq_ok {c : Prop} [Decidable c] {y : Except ε α} {r : α}
    (done : (if c then x else y) = .ok r) : (c ∧ x = .ok r) ∨ (¬ c ∧ y = .ok r) := by
  by_cases holds : c
  · rw [if_pos holds] at done
    exact .inl ⟨holds, done⟩
  · rw [if_neg holds] at done
    exact .inr ⟨holds, done⟩

/-- No error of a kind comes out. -/
def Avoids (Bad : ε → Prop) (x : Except ε α) : Prop := ∀ e, x = .error e → ¬ Bad e

theorem avoids_ok (a : α) : Avoids Bad (.ok a : Except ε α) := by
  intro e failed
  cases failed

theorem avoids_error {e : ε} (good : ¬ Bad e) : Avoids Bad (.error e : Except ε α) := by
  intro e' failed
  cases failed
  exact good

theorem Avoids.bind {f : α → Except ε β} (first : Avoids Bad x)
    (rest : ∀ a, x = .ok a → Avoids Bad (f a)) : Avoids Bad (x >>= f) := by
  intro e failed
  cases x with
  | error e' =>
      cases failed
      exact first e rfl
  | ok a => exact rest a rfl e failed

theorem Avoids.mapError {Bad' : δ → Prop} {f : ε → δ} (inner : Avoids Bad x)
    (kept : ∀ e, Bad' (f e) → Bad e) : Avoids Bad' (x.mapError f) := by
  intro d failed bad
  cases x with
  | error e =>
      cases failed
      exact inner e rfl (kept e bad)
  | ok a => cases failed

end Errors

/-! ## Indexing -/

/-- `b[i]`; `outOfRange` is the run-time panic. -/
def index {ε : Type} (outOfRange : ε) (b : Bytes) (i : Nat) : Except ε UInt8 :=
  match b[i]? with
  | some c => .ok c
  | none => .error outOfRange

/-- `b[lo:hi]`. -/
def slice {ε : Type} (outOfRange : ε) (b : Bytes) (lo hi : Nat) : Except ε Bytes :=
  if lo ≤ hi ∧ hi ≤ b.length then .ok ((b.drop lo).take (hi - lo)) else .error outOfRange

variable {b back : Bytes} {i : Nat}

theorem index_eq_ok {ε : Type} {outOfRange : ε} {c : UInt8} (here : b[i]? = some c) :
    index outOfRange b i = .ok c := by
  simp [index, here]

theorem slice_eq_ok {ε : Type} {outOfRange : ε} {lo hi : Nat} (ordered : lo ≤ hi)
    (inside : hi ≤ b.length) : slice outOfRange b lo hi = .ok ((b.drop lo).take (hi - lo)) := by
  simp [slice, ordered, inside]

/-! A reader that stands at an offset sees what is left of the buffer, and moves
on past what it has read. -/

theorem drop_advance {first : Bytes} (here : b.drop i = first ++ back) :
    b.drop (i + first.length) = back := by
  rw [← List.drop_drop, here, List.drop_left]

theorem length_of_drop {first : Bytes} (here : b.drop i = first ++ back)
    (positive : 0 < first.length) : i + first.length + back.length = b.length := by
  have size := congrArg List.length here
  rw [List.length_drop, List.length_append] at size
  omega

theorem slice_of_drop {ε : Type} {outOfRange : ε} {first : Bytes} (here : b.drop i = first ++ back)
    (inside : i + first.length ≤ b.length) :
    slice outOfRange b i (i + first.length) = .ok first := by
  rw [slice_eq_ok (by omega) inside, here, Nat.add_sub_cancel_left, List.take_left]

/-! ## Big-endian integers -/

/-- `binary.BigEndian.PutUint16`. -/
def putUint16 (v : UInt16) : Bytes := [UInt8.ofNat (v.toNat / 2 ^ 8), UInt8.ofNat v.toNat]

/-- `binary.BigEndian.PutUint32`. -/
def putUint32 (v : UInt32) : Bytes :=
  [UInt8.ofNat (v.toNat / 2 ^ 24), UInt8.ofNat (v.toNat / 2 ^ 16), UInt8.ofNat (v.toNat / 2 ^ 8),
    UInt8.ofNat v.toNat]

/-- The number big-endian bytes write. -/
def bigEndian (b : Bytes) : Nat := b.foldl (fun v c => v * 2 ^ 8 + c.toNat) 0

/-- `binary.BigEndian.Uint16`, on a slice of two bytes. -/
def uint16 (b : Bytes) : UInt16 := UInt16.ofNat (bigEndian b)

/-- `binary.BigEndian.Uint32`, on a slice of four bytes. -/
def uint32 (b : Bytes) : UInt32 := UInt32.ofNat (bigEndian b)

/-- `binary.BigEndian.Uint16(b[i:i+2])`. -/
def uint16At {ε : Type} (outOfRange : ε) (b : Bytes) (i : Nat) : Except ε UInt16 := do
  let s ← slice outOfRange b i (i + 2)
  return uint16 s

/-- `binary.BigEndian.Uint32(b[i:i+4])`. -/
def uint32At {ε : Type} (outOfRange : ε) (b : Bytes) (i : Nat) : Except ε UInt32 := do
  let s ← slice outOfRange b i (i + 4)
  return uint32 s

@[simp] theorem length_putUint16 (v : UInt16) : (putUint16 v).length = 2 := rfl

@[simp] theorem length_putUint32 (v : UInt32) : (putUint32 v).length = 4 := rfl

@[simp] theorem uint16_putUint16 (v : UInt16) : uint16 (putUint16 v) = v := by
  have bound := v.toNat_lt
  apply UInt16.toNat_inj.mp
  simp only [uint16, putUint16, bigEndian, List.foldl_cons, List.foldl_nil, UInt16.toNat_ofNat',
    UInt8.toNat_ofNat']
  omega

@[simp] theorem uint32_putUint32 (v : UInt32) : uint32 (putUint32 v) = v := by
  have bound := v.toNat_lt
  apply UInt32.toNat_inj.mp
  simp only [uint32, putUint32, bigEndian, List.foldl_cons, List.foldl_nil, UInt32.toNat_ofNat',
    UInt8.toNat_ofNat']
  omega

/-- A number is read where it was written. -/
theorem uint16At_of_drop {ε : Type} {outOfRange : ε} {v : UInt16}
    (here : b.drop i = putUint16 v ++ back) : uint16At outOfRange b i = .ok v := by
  have inside := length_of_drop here (by simp)
  have read : slice outOfRange b i (i + 2) = .ok (putUint16 v) :=
    slice_of_drop here (by omega)
  simp [uint16At, read, Pure.pure, Except.pure]

theorem uint32At_of_drop {ε : Type} {outOfRange : ε} {v : UInt32}
    (here : b.drop i = putUint32 v ++ back) : uint32At outOfRange b i = .ok v := by
  have inside := length_of_drop here (by simp)
  have read : slice outOfRange b i (i + 4) = .ok (putUint32 v) :=
    slice_of_drop here (by omega)
  simp [uint32At, read, Pure.pure, Except.pure]

theorem toNat_uint16_pair (x y : UInt8) : (uint16 [x, y]).toNat = x.toNat * 2 ^ 8 + y.toNat := by
  have first := x.toNat_lt
  have second := y.toNat_lt
  simp only [uint16, bigEndian, List.foldl_cons, List.foldl_nil, UInt16.toNat_ofNat']
  omega

/-- Two bytes are the number they write. -/
theorem putUint16_uint16 (x y : UInt8) : putUint16 (uint16 [x, y]) = [x, y] := by
  have first := x.toNat_lt
  have second := y.toNat_lt
  have high : UInt8.ofNat ((x.toNat * 2 ^ 8 + y.toNat) / 2 ^ 8) = x := by
    apply UInt8.toNat_inj.mp
    rw [UInt8.toNat_ofNat']
    omega
  have low : UInt8.ofNat (x.toNat * 2 ^ 8 + y.toNat) = y := by
    apply UInt8.toNat_inj.mp
    rw [UInt8.toNat_ofNat']
    omega
  rw [putUint16, toNat_uint16_pair, high, low]

/-- The bits of a number are those of its bytes. -/
theorem uint16_pair (x y : UInt8) : uint16 [x, y] = uint16 [x, 0] ||| uint16 [0, y] := by
  have joined : x.toNat * 2 ^ 8 + y.toNat = x.toNat * 2 ^ 8 ||| y.toNat := by
    rw [← Nat.shiftLeft_eq]
    exact Nat.shiftLeft_add_eq_or_of_lt y.toNat_lt _
  apply UInt16.toNat_inj.mp
  rw [UInt16.toNat_or, toNat_uint16_pair, toNat_uint16_pair, toNat_uint16_pair, joined]
  simp

/-- An access within range does not fail. -/
theorem avoids_uint16At {ε : Type} {Bad : ε → Prop} {outOfRange : ε} (inside : i + 2 ≤ b.length) :
    Avoids Bad (uint16At outOfRange b i) := by
  rw [uint16At, slice_eq_ok (by omega) inside]
  exact avoids_ok _

theorem avoids_uint32At {ε : Type} {Bad : ε → Prop} {outOfRange : ε} (inside : i + 4 ≤ b.length) :
    Avoids Bad (uint32At outOfRange b i) := by
  rw [uint32At, slice_eq_ok (by omega) inside]
  exact avoids_ok _

/-- Four bytes are the number they write. -/
theorem putUint32_uint32 (w x y z : UInt8) : putUint32 (uint32 [w, x, y, z]) = [w, x, y, z] := by
  have first := w.toNat_lt
  have second := x.toNat_lt
  have third := y.toNat_lt
  have fourth := z.toNat_lt
  have value : (uint32 [w, x, y, z]).toNat =
      w.toNat * 2 ^ 24 + x.toNat * 2 ^ 16 + y.toNat * 2 ^ 8 + z.toNat := by
    simp only [uint32, bigEndian, List.foldl_cons, List.foldl_nil, UInt32.toNat_ofNat']
    omega
  simp only [putUint32, value, List.cons.injEq, ← UInt8.toNat_inj, UInt8.toNat_ofNat', and_true]
  refine ⟨?_, ?_, ?_, ?_⟩ <;> omega

/-- A slice is what a reader at its start sees first. -/
theorem drop_of_slice {ε : Type} {outOfRange : ε} {s : Bytes} {n : Nat}
    (sliced : slice outOfRange b i (i + n) = .ok s) :
    s.length = n ∧ b.drop i = s ++ b.drop (i + n) := by
  unfold slice at sliced
  split at sliced
  · rename_i inside
    cases sliced
    rw [Nat.add_sub_cancel_left, List.length_take, List.length_drop, ← List.drop_drop,
      List.take_append_drop]
    exact ⟨by omega, rfl⟩
  · cases sliced

/-- Where a number is read it stands. -/
theorem uint16At_eq_ok_iff {ε : Type} {outOfRange : ε} {v : UInt16} :
    uint16At outOfRange b i = .ok v ↔ ∃ back, b.drop i = putUint16 v ++ back := by
  constructor
  · intro read
    obtain ⟨s, sliced, value⟩ := bind_eq_ok.mp read
    obtain ⟨size, here⟩ := drop_of_slice sliced
    obtain ⟨x, y, rfl⟩ := List.length_eq_two.mp size
    cases value
    exact ⟨_, by rw [here, putUint16_uint16]⟩
  · rintro ⟨back, here⟩
    exact uint16At_of_drop here

theorem uint32At_eq_ok_iff {ε : Type} {outOfRange : ε} {v : UInt32} :
    uint32At outOfRange b i = .ok v ↔ ∃ back, b.drop i = putUint32 v ++ back := by
  constructor
  · intro read
    obtain ⟨s, sliced, value⟩ := bind_eq_ok.mp read
    obtain ⟨size, here⟩ := drop_of_slice sliced
    match s, size with
    | [w, x, y, z], _ =>
        cases value
        exact ⟨_, by rw [here, putUint32_uint32]⟩
  · rintro ⟨back, here⟩
    exact uint32At_of_drop here

/-! ## Numbers as text -/

/-- The byte is a decimal digit. -/
def isDigit (b : UInt8) : Bool := 48 ≤ b && b ≤ 57

/-- The number a string of decimal digits writes. -/
def decimalValue (s : Bytes) : Nat := s.foldl (fun v b => v * 10 + (b.toNat - 48)) 0

/-- `strconv.ParseUint(s, 10, bits)`. -/
def parseUint (s : Bytes) (bits : Nat) : Option Nat :=
  if s ≠ [] ∧ s.all isDigit ∧ decimalValue s < 2 ^ bits then some (decimalValue s) else none

/-- The number with its sign, within the bits of a signed type. -/
def signedValue (negative : Bool) (digits : Bytes) (bits : Nat) : Option Int :=
  match parseUint digits bits with
  | none => none
  | some un =>
      if negative then if 2 ^ (bits - 1) < un then none else some (-un)
      else if 2 ^ (bits - 1) ≤ un then none else some un

/-- `strconv.ParseInt(s, 10, bits)`. -/
def parseInt (s : Bytes) (bits : Nat) : Option Int :=
  match s with
  | [] => none
  | c :: rest =>
      if c = 43 then signedValue false rest bits
      else if c = 45 then signedValue true rest bits
      else signedValue false s bits

/-- The byte of a decimal digit. -/
def digitByte (d : Nat) : UInt8 := UInt8.ofNat (48 + d)

/-- The loop of `strconv.FormatUint(n, 10)`, digit by digit from the last. -/
def formatLoop : Nat → Nat → Bytes → Bytes
  | 0, _, text => text
  | fuel + 1, n, text =>
      if n < 10 then digitByte n :: text else formatLoop fuel (n / 10) (digitByte (n % 10) :: text)

def formatUint (n : Nat) : Bytes := formatLoop (n + 1) n []

/-- `strconv.FormatInt(i, 10)`. -/
def formatInt (i : Int) : Bytes := if i < 0 then 45 :: formatUint i.natAbs else formatUint i.natAbs

theorem digitByte_spec : ∀ d, d < 10 → isDigit (digitByte d) = true ∧
    (digitByte d).toNat - 48 = d := by
  decide

theorem decimalValue_concat (s : Bytes) (b : UInt8) :
    decimalValue (s ++ [b]) = decimalValue s * 10 + (b.toNat - 48) := by
  rw [decimalValue, List.foldl_append]
  rfl

/-- The loop writes the digits of the number in front of the text. -/
theorem formatLoop_spec {fuel n : Nat} (enough : n < fuel) (text : Bytes) :
    ∃ digits, formatLoop fuel n text = digits ++ text ∧ digits ≠ [] ∧ digits.all isDigit = true ∧
      decimalValue digits = n := by
  induction fuel generalizing n text with
  | zero => cases enough
  | succ fuel ih =>
      unfold formatLoop
      split
      · rename_i single
        obtain ⟨digit, value⟩ := digitByte_spec n single
        exact ⟨[digitByte n], rfl, by simp, by simp [digit], by simp [decimalValue, value]⟩
      · obtain ⟨digit, value⟩ := digitByte_spec (n % 10) (Nat.mod_lt n (by decide))
        obtain ⟨digits, written, -, all, front⟩ :=
          @ih (n / 10) (by omega) (digitByte (n % 10) :: text)
        refine ⟨digits ++ [digitByte (n % 10)], ?_, by simp, by simp [all, digit], ?_⟩
        · rw [written, List.append_assoc, List.singleton_append]
        · rw [decimalValue_concat, front, value]
          omega

theorem formatUint_spec (n : Nat) :
    formatUint n ≠ [] ∧ (formatUint n).all isDigit = true ∧ decimalValue (formatUint n) = n := by
  obtain ⟨digits, written, nonempty, all, value⟩ := formatLoop_spec (Nat.lt_succ_self n) []
  rw [formatUint, written, List.append_nil]
  exact ⟨nonempty, all, value⟩

/-- **A number is read back as it is written.** -/
theorem parseInt_formatInt {n bits : Nat} (fits : n < 2 ^ (bits - 1)) :
    parseInt (formatInt n) bits = some (n : Int) := by
  obtain ⟨nonempty, digits, value⟩ := formatUint_spec n
  have text : formatInt n = formatUint n := if_neg (by omega)
  rw [text]
  generalize formatUint n = s at nonempty digits value
  obtain ⟨c, rest, rfl⟩ := List.exists_cons_of_ne_nil nonempty
  have first : isDigit c = true := by
    rw [List.all_cons, Bool.and_eq_true] at digits
    exact digits.1
  have unsigned : c ≠ 43 ∧ c ≠ 45 := by
    constructor <;> rintro rfl <;> exact absurd first (by decide)
  have small : n < 2 ^ bits :=
    Nat.lt_of_lt_of_le fits (Nat.pow_le_pow_right (by decide) (Nat.sub_le _ _))
  have parsed : parseUint (c :: rest) bits = some n := by
    rw [parseUint, value, if_pos ⟨nonempty, digits, small⟩]
  rw [parseInt]
  simp only [if_neg unsigned.1, if_neg unsigned.2, signedValue, parsed,
    Bool.false_eq_true, if_false, if_neg (Nat.not_le.mpr fits)]

/-- The value of a hexadecimal digit. -/
def hexValue (b : UInt8) : Option UInt8 :=
  if 48 ≤ b ∧ b ≤ 57 then some (b - 48)
  else if 97 ≤ b ∧ b ≤ 102 then some (b - 87)
  else if 65 ≤ b ∧ b ≤ 70 then some (b - 55)
  else none

/-- `hex.DecodeString`. -/
def hexDecode : Bytes → Option Bytes
  | [] => some []
  | [_] => none
  | a :: b :: s => do
      let high ← hexValue a
      let low ← hexValue b
      let rest ← hexDecode s
      return (high <<< 4 ||| low) :: rest

/-- The value of a character of the standard base64 alphabet. -/
def base64Value (b : UInt8) : Option UInt32 :=
  if 65 ≤ b ∧ b ≤ 90 then some (b - 65).toUInt32
  else if 97 ≤ b ∧ b ≤ 122 then some (b - 71).toUInt32
  else if 48 ≤ b ∧ b ≤ 57 then some (b + 4).toUInt32
  else if b = 43 then some 62
  else if b = 47 then some 63
  else none

/-- `base64.StdEncoding.DecodeString`, on a string without line breaks: groups of
four characters, the last one padded with `=`. -/
def base64Decode : Bytes → Option Bytes
  | [] => some []
  | a :: b :: c :: d :: s => do
      let x ← base64Value a
      let y ← base64Value b
      if c = 61 ∧ d = 61 ∧ s = [] then
        return [(x <<< 2 ||| y >>> 4).toUInt8]
      let z ← base64Value c
      if d = 61 ∧ s = [] then
        return [(x <<< 2 ||| y >>> 4).toUInt8, (y <<< 4 ||| z >>> 2).toUInt8]
      let w ← base64Value d
      let rest ← base64Decode s
      return (x <<< 2 ||| y >>> 4).toUInt8 :: (y <<< 4 ||| z >>> 2).toUInt8 ::
        (z <<< 6 ||| w).toUInt8 :: rest
  | _ => none

/-! ## Addresses -/

/-- `netip.Addr`: an IPv4 address, or an IPv6 address whose zone is dropped. -/
inductive Addr where
  | v4 (octets : Bytes)
  | v6 (octets : Bytes)
  deriving DecidableEq, Repr

/-- One field of a dotted quad: decimal digits, no leading zero, at most 255. -/
def parseOctet (s : Bytes) : Option UInt8 :=
  if s ≠ [] ∧ s.all isDigit ∧ (s.length = 1 ∨ s.head? ≠ some 48) ∧ decimalValue s ≤ 255 then
    some (UInt8.ofNat (decimalValue s))
  else none

/-- The four fields of a dotted quad. -/
def parseIPv4 (s : Bytes) : Option Bytes :=
  match s.splitOn dot with
  | [a, b, c, d] => [a, b, c, d].mapM parseOctet
  | _ => none

/-- The leading hexadecimal digits of a string. -/
def hexDigits (s : Bytes) : Bytes := s.takeWhile fun b => (hexValue b).isSome

/-- The loop of `netip.parseIPv6`. It has read the octets `ip` and, when `::` was
met, its position `ellipsis`; the result is what is left of the text, with both. -/
def parseIPv6Loop : Nat → Bytes → Bytes → Option Nat → Option (Bytes × Bytes × Option Nat)
  | 0, s, ip, ellipsis => some (s, ip, ellipsis)
  | groups + 1, s, ip, ellipsis =>
      let group := hexDigits s
      if group = [] ∨ 4 < group.length then none
      else
        let rest := s.drop group.length
        if rest.head? = some dot then
          if ellipsis = none ∧ ip.length ≠ 12 then none
          else if 16 < ip.length + 4 then none
          else (parseIPv4 s).map fun quad => ([], ip ++ quad, ellipsis)
        else
          let acc := group.foldl (fun v b => v * 16 + ((hexValue b).getD 0).toNat) 0
          let ip := ip ++ [UInt8.ofNat (acc / 256), UInt8.ofNat (acc % 256)]
          match rest with
          | [] => some ([], ip, ellipsis)
          | [_] => none
          | colon :: next :: rest =>
              if colon ≠ 58 then none
              else if next = 58 then
                if ellipsis ≠ none then none
                else if rest = [] then some ([], ip, some ip.length)
                else parseIPv6Loop groups rest ip (some ip.length)
              else parseIPv6Loop groups (next :: rest) ip ellipsis

/-- Puts the zero octets that `::` stands for in place. -/
def expandEllipsis (ip : Bytes) : Option Nat → Option Bytes
  | none => if ip.length = 16 then some ip else none
  | some at' =>
      if ip.length < 16 then
        some (ip.take at' ++ List.replicate (16 - ip.length) 0 ++ ip.drop at')
      else none

/-- `netip.parseIPv6`, without the zone. -/
def parseIPv6 (text : Bytes) : Option Bytes :=
  let zoneAt := indexByte text 37
  let s := match zoneAt with
    | some i => text.take i
    | none => text
  if zoneAt = some (text.length - 1) then none
  else if hasPrefix s [58, 58] then
    if s.length = 2 then some (List.replicate 16 0)
    else do
      let (rest, ip, ellipsis) ← parseIPv6Loop 8 (s.drop 2) [] (some 0)
      if rest = [] then expandEllipsis ip ellipsis else none
  else do
    let (rest, ip, ellipsis) ← parseIPv6Loop 8 s [] none
    if rest = [] then expandEllipsis ip ellipsis else none

/-- `netip.ParseAddr`: the first `.`, `:` or `%` tells the family. -/
def parseAddr (s : Bytes) : Option Addr :=
  match s.find? fun b => b = dot ∨ b = 58 ∨ b = 37 with
  | some b =>
      if b = dot then (parseIPv4 s).map .v4
      else if b = 58 then (parseIPv6 s).map .v6
      else none
  | none => none

/-- `Addr.Is4In6`. -/
def is4In6 (octets : Bytes) : Bool :=
  octets.take 12 == List.replicate 10 0 ++ [0xff, 0xff]

end Go

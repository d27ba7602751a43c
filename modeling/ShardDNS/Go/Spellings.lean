import ShardDNS.Go.Encoding
import ShardDNS.Go.Lowering

/-!
# One spelling for each value

The parsers of the standard library read several texts as one value: numbers with leading
zeros, hexadecimal digits of either case, base64 with any bits where the data has none, and
the many forms of an IPv6 address. Here are the texts in which a value has one spelling:
numbers without a leading zero (`PlainNumber`), hexadecimal in lower case, base64 whose unused
bits are zero (`zeroPadded`), and eight groups for an address (`HexGroup`). Two such texts with
one value are one text. An IPv4 address has one spelling as it is (`parseIPv4_inj`).
-/

set_option autoImplicit false

namespace Go

/-! ## Numbers -/

variable {b : UInt8} {g s t : Bytes} {groups : List Bytes}

section Digits

variable {base : Nat} {digit : UInt8 → Nat} {allowed : UInt8 → Prop}

/-- The number that digits write in a base. -/
def digitsValue (base : Nat) (digit : UInt8 → Nat) (s : Bytes) : Nat :=
  s.foldl (fun v b => v * base + digit b) 0

theorem digitsValue_concat (s : Bytes) (b : UInt8) :
    digitsValue base digit (s ++ [b]) = digitsValue base digit s * base + digit b := by
  rw [digitsValue, List.foldl_append]
  rfl

/-- Digits that do not start with a zero write a positive number. -/
theorem digitsValue_pos (positive : 0 < base) (first : s.head? = some b) (nonzero : digit b ≠ 0) :
    0 < digitsValue base digit s := by
  induction s using List.reverseRecOn with
  | nil => cases first
  | append_singleton s last ih =>
      rw [digitsValue_concat]
      cases s with
      | nil =>
          cases first
          exact Nat.lt_add_left _ (Nat.pos_of_ne_zero nonzero)
      | cons c s => exact Nat.add_pos_left (Nat.mul_pos (ih first) positive) _

/-- **Digits that do not start with a zero are told by their number.** -/
theorem eq_of_digitsValue_eq (small : ∀ b, allowed b → digit b < base)
    (apart : ∀ b c, allowed b → allowed c → digit b = digit c → b = c) (digits : ∀ b ∈ s, allowed b)
    (digits' : ∀ b ∈ t, allowed b) (first : ∀ b, s.head? = some b → digit b ≠ 0)
    (first' : ∀ b, t.head? = some b → digit b ≠ 0)
    (same : digitsValue base digit s = digitsValue base digit t) : s = t := by
  induction s using List.reverseRecOn generalizing t with
  | nil =>
      cases t with
      | nil => rfl
      | cons c t =>
          have positive : 0 < base := Nat.zero_lt_of_lt (small c (digits' c List.mem_cons_self))
          exact absurd same (Nat.ne_of_lt (digitsValue_pos positive rfl (first' c rfl)))
  | append_singleton s b ih =>
      have positive : 0 < base := Nat.zero_lt_of_lt (small b (digits b (by simp)))
      cases t using List.reverseRecOn with
      | nil =>
          obtain ⟨c, lead⟩ : ∃ c, (s ++ [b]).head? = some c := by
            cases s <;> exact ⟨_, rfl⟩
          exact absurd same (Nat.ne_of_gt (digitsValue_pos positive lead (first c lead)))
      | append_singleton t c =>
          have fits := small b (digits b (by simp))
          have fits' := small c (digits' c (by simp))
          rw [digitsValue_concat, digitsValue_concat] at same
          -- the last digit is the remainder, and the others are the quotient
          have last : digit b = digit c := by
            have both := congrArg (· % base) same
            simpa [Nat.mul_add_mod', Nat.mod_eq_of_lt fits, Nat.mod_eq_of_lt fits'] using both
          have front : digitsValue base digit s = digitsValue base digit t := by
            rw [last] at same
            exact Nat.eq_of_mul_eq_mul_right positive (Nat.add_right_cancel same)
          have leads : ∀ (u : Bytes) (d : UInt8), u.head? = some d →
              ∀ e, (u ++ [e]).head? = some d := by
            intro u d lead e
            rw [List.head?_append, lead]
            rfl
          rw [ih (fun d member => digits d (by simp [member]))
            (fun d member => digits' d (by simp [member]))
            (fun d lead => first d (leads s d lead b)) (fun d lead =>
              first' d (leads t d lead c)) front,
            apart b c (digits b (by simp)) (digits' c (by simp)) last]

/-- Digits without a zero in front. -/
def Unpadded (s : Bytes) : Prop := s ≠ [] ∧ (s.length = 1 ∨ s.head? ≠ some 48)

instance (s : Bytes) : Decidable (Unpadded s) := inferInstanceAs (Decidable (_ ∧ _))

theorem Unpadded.cases (unpadded : Unpadded s) : s = [48] ∨ s.head? ≠ some 48 := by
  obtain ⟨nonempty, short⟩ := unpadded
  obtain ⟨c, rest, rfl⟩ := List.exists_cons_of_ne_nil nonempty
  rcases short with alone | other
  · rw [List.length_cons, Nat.succ.injEq, List.length_eq_zero_iff] at alone
    subst alone
    by_cases zero : c = 48
    · exact .inl (by rw [zero])
    · exact .inr (by simpa using zero)
  · exact .inr other

variable (allowed) in
/-- **A number without a zero in front has one spelling.** -/
theorem Unpadded.eq_of_digitsValue (small : ∀ b, allowed b → digit b < base)
    (apart : ∀ b c, allowed b → allowed c → digit b = digit c → b = c) (listed : allowed 48)
    (zero : digit 48 = 0) (unpadded : Unpadded s) (unpadded' : Unpadded t)
    (digits : ∀ b ∈ s, allowed b) (digits' : ∀ b ∈ t, allowed b)
    (same : digitsValue base digit s = digitsValue base digit t) : s = t := by
  have nonzero : ∀ {u : Bytes}, (∀ b ∈ u, allowed b) → u.head? ≠ some 48 →
      ∀ b, u.head? = some b → digit b ≠ 0 := by
    intro u digits other b lead value
    have equal := apart b 48 (digits b (List.mem_of_head? lead)) listed (value.trans zero.symm)
    exact other (equal ▸ lead)
  have positive : ∀ {u : Bytes}, Unpadded u → (∀ b ∈ u, allowed b) → u.head? ≠ some 48 →
      0 < digitsValue base digit u := by
    intro u unpadded digits other
    obtain ⟨c, rest, rfl⟩ := List.exists_cons_of_ne_nil unpadded.1
    exact digitsValue_pos (Nat.zero_lt_of_lt (small 48 listed)) rfl (nonzero digits other c rfl)
  have single : digitsValue base digit [48] = 0 := by simp [digitsValue, zero]
  rcases unpadded.cases with rfl | other
  · rcases unpadded'.cases with rfl | other'
    · rfl
    · exact absurd (single.symm.trans same) (Nat.ne_of_lt (positive unpadded' digits' other'))
  · rcases unpadded'.cases with rfl | other'
    · exact absurd (same.trans single) (Nat.ne_of_gt (positive unpadded digits other))
    · exact eq_of_digitsValue_eq small apart digits digits' (nonzero digits other)
        (nonzero digits' other') same

end Digits

/-- A decimal number without a zero in front. -/
def PlainNumber (s : Bytes) : Prop := s.all isDigit = true ∧ Unpadded s

instance (s : Bytes) : Decidable (PlainNumber s) := inferInstanceAs (Decidable (_ ∧ _))

theorem digit_of_isDigit : ∀ b : UInt8, isDigit b = true →
    b.toNat - 48 < 10 ∧ b = UInt8.ofNat (48 + (b.toNat - 48)) := by
  decide +kernel

/-- **A decimal number has one plain spelling.** -/
theorem PlainNumber.eq_of_decimalValue (plain : PlainNumber s) (plain' : PlainNumber t)
    (same : decimalValue s = decimalValue t) : s = t := by
  refine plain.2.eq_of_digitsValue (isDigit · = true) (fun b digit => (digit_of_isDigit b digit).1)
    (fun b c digit digit' value => ?_) (by decide) (by decide) plain'.2
    (List.all_eq_true.mp plain.1) (List.all_eq_true.mp plain'.1) same
  rw [(digit_of_isDigit b digit).2, (digit_of_isDigit c digit').2, value]

/-! ## Hexadecimal -/

/-- The digit of a value, in lower case. -/
def hexDigit (v : Nat) : UInt8 := if v < 10 then UInt8.ofNat (48 + v) else UInt8.ofNat (87 + v)

/-- `hex.EncodeToString`. -/
def hexEncode (data : Bytes) : Bytes :=
  data.flatMap fun x => [hexDigit (x.toNat / 16), hexDigit (x.toNat % 16)]

theorem hexDigit_of_hexValue {v : UInt8} (lower : lowerByte b = b) (value : hexValue b = some v) :
    v.toNat < 16 ∧ hexDigit v.toNat = b := by
  have all : ∀ b : UInt8, lowerByte b = b →
      (hexValue b).all (fun v => v.toNat < 16 ∧ hexDigit v.toNat = b) = true := by
    decide +kernel
  simpa [value] using all b lower

/-- The octet of two values. -/
theorem toNat_octet {high low : UInt8} (small : high.toNat < 16) (small' : low.toNat < 16) :
    (high <<< 4 ||| low).toNat = high.toNat * 16 + low.toNat := by
  have moved : (high <<< 4).toNat = high.toNat <<< 4 := by
    rw [UInt8.toNat_shiftLeft, Nat.shiftLeft_eq, Nat.shiftLeft_eq]
    exact Nat.mod_eq_of_lt (by change high.toNat * 16 < 256; omega)
  rw [UInt8.toNat_or, moved, ← Nat.shiftLeft_add_eq_or_of_lt small', Nat.shiftLeft_eq]

/-- **Data in hexadecimal has one spelling in lower case.** -/
theorem eq_hexEncode {data : Bytes} (lower : s.map lowerByte = s)
    (decoded : hexDecode s = some data) : s = hexEncode data := by
  fun_induction hexDecode s generalizing data with
  | case1 =>
      cases decoded
      rfl
  | case2 => cases decoded
  | case3 a b s ih =>
      simp only [List.map_cons, List.cons.injEq] at lower
      obtain ⟨high, first, decoded⟩ := Option.bind_eq_some_iff.mp decoded
      obtain ⟨low, second, decoded⟩ := Option.bind_eq_some_iff.mp decoded
      obtain ⟨rest, later, same⟩ := Option.bind_eq_some_iff.mp decoded
      cases same
      obtain ⟨small, digit⟩ := hexDigit_of_hexValue lower.1 first
      obtain ⟨small', digit'⟩ := hexDigit_of_hexValue lower.2.1 second
      have above : (high.toNat * 16 + low.toNat) / 16 = high.toNat := by omega
      have below : (high.toNat * 16 + low.toNat) % 16 = low.toNat := by omega
      rw [hexEncode, List.flatMap_cons, toNat_octet small small', above, below, digit, digit',
        ih lower.2.2 later]
      rfl

/-! ## Base64 -/

/-- The character of a value in the standard alphabet. -/
def base64Digit (v : Nat) : UInt8 :=
  if v < 26 then UInt8.ofNat (65 + v)
  else if v < 52 then UInt8.ofNat (71 + v)
  else if v < 62 then UInt8.ofNat (v - 4)
  else if v = 62 then 43
  else 47

/-- `base64.StdEncoding.EncodeToString`. -/
def base64Encode : Bytes → Bytes
  | [] => []
  | [p] => [base64Digit (p.toNat / 4), base64Digit (p.toNat % 4 * 16), 61, 61]
  | [p, q] =>
      [base64Digit (p.toNat / 4), base64Digit (p.toNat % 4 * 16 + q.toNat / 16),
        base64Digit (q.toNat % 16 * 4), 61]
  | p :: q :: r :: rest =>
      base64Digit (p.toNat / 4) :: base64Digit (p.toNat % 4 * 16 + q.toNat / 16) ::
        base64Digit (q.toNat % 16 * 4 + r.toNat / 64) :: base64Digit (r.toNat % 64) ::
        base64Encode rest

/-- The bits of the last character that stand for no data are zero. -/
def zeroPadded : Bytes → Bool
  | [_, b, 61, 61] => (base64Value b).all fun y => y.toNat % 16 == 0
  | [_, _, c, 61] => (base64Value c).all fun z => z.toNat % 4 == 0
  | _ :: _ :: _ :: _ :: s => zeroPadded s
  | _ => true

theorem base64Digit_of_base64Value {v : UInt32} (value : base64Value b = some v) :
    v.toNat < 64 ∧ base64Digit v.toNat = b ∧ b ≠ 61 := by
  have all : ∀ b : UInt8,
      (base64Value b).all (fun v => v.toNat < 64 ∧ base64Digit v.toNat = b ∧ b ≠ 61) = true := by
    decide +kernel
  simpa [value] using all b

/-- A value in front of fewer bits than it is shifted by. -/
theorem toNat_shiftLeft_or {x low k : UInt32} (shift : k.toNat ≤ 6) (small : x.toNat < 64)
    (fewer : low.toNat < 2 ^ k.toNat) :
    (x <<< k ||| low).toUInt8.toNat = (x.toNat * 2 ^ k.toNat + low.toNat) % 256 := by
  have fits : x.toNat * 2 ^ k.toNat < 2 ^ 32 :=
    calc x.toNat * 2 ^ k.toNat ≤ 64 * 2 ^ 6 :=
          Nat.mul_le_mul (Nat.le_of_lt small) (Nat.pow_le_pow_right (by decide) shift)
      _ < 2 ^ 32 := by decide
  have moved : (x <<< k).toNat = x.toNat <<< k.toNat := by
    rw [UInt32.toNat_shiftLeft, Nat.mod_eq_of_lt (show k.toNat < 32 by omega), Nat.shiftLeft_eq,
      Nat.mod_eq_of_lt fits]
  rw [UInt32.toNat_toUInt8, UInt32.toNat_or, moved, ← Nat.shiftLeft_add_eq_or_of_lt fewer,
    Nat.shiftLeft_eq]

section Octets

variable {x y z w : UInt32}

theorem toNat_firstOctet (smallX : x.toNat < 64) (smallY : y.toNat < 64) :
    (x <<< 2 ||| y >>> 4).toUInt8.toNat = x.toNat * 4 + y.toNat / 16 := by
  have right : (y >>> 4).toNat = y.toNat / 16 := by
    rw [UInt32.toNat_shiftRight, Nat.shiftRight_eq_div_pow]
    rfl
  have shift : (2 : UInt32).toNat = 2 := rfl
  rw [toNat_shiftLeft_or (by decide) smallX (by rw [shift, right]; omega), shift, right]
  omega

theorem toNat_secondOctet (smallY : y.toNat < 64) (smallZ : z.toNat < 64) :
    (y <<< 4 ||| z >>> 2).toUInt8.toNat = y.toNat % 16 * 16 + z.toNat / 4 := by
  have right : (z >>> 2).toNat = z.toNat / 4 := by
    rw [UInt32.toNat_shiftRight, Nat.shiftRight_eq_div_pow]
    rfl
  have shift : (4 : UInt32).toNat = 4 := rfl
  rw [toNat_shiftLeft_or (by decide) smallY (by rw [shift, right]; omega), shift, right]
  omega

theorem toNat_thirdOctet (smallZ : z.toNat < 64) (smallW : w.toNat < 64) :
    (z <<< 6 ||| w).toUInt8.toNat = z.toNat % 4 * 64 + w.toNat := by
  have shift : (6 : UInt32).toNat = 6 := rfl
  rw [toNat_shiftLeft_or (by decide) smallZ (by rw [shift]; omega), shift]
  omega

end Octets

/-- What the first group of a base64 text is read as. -/
theorem base64Decode_cons {a c d : UInt8} {data : Bytes}
    (decoded : base64Decode (a :: b :: c :: d :: s) = some data) :
    ∃ x y, base64Value a = some x ∧ base64Value b = some y ∧
      ((c = 61 ∧ d = 61 ∧ s = [] ∧ data = [(x <<< 2 ||| y >>> 4).toUInt8]) ∨
        ∃ z, base64Value c = some z ∧
          ((d = 61 ∧ s = [] ∧
              data = [(x <<< 2 ||| y >>> 4).toUInt8, (y <<< 4 ||| z >>> 2).toUInt8]) ∨
            ∃ w rest, base64Value d = some w ∧ base64Decode s = some rest ∧
              data = (x <<< 2 ||| y >>> 4).toUInt8 :: (y <<< 4 ||| z >>> 2).toUInt8 ::
                (z <<< 6 ||| w).toUInt8 :: rest)) := by
  rw [base64Decode.eq_def] at decoded
  obtain ⟨x, first, decoded⟩ := Option.bind_eq_some_iff.mp decoded
  obtain ⟨y, second, decoded⟩ := Option.bind_eq_some_iff.mp decoded
  refine ⟨x, y, first, second, ?_⟩
  split at decoded
  · rename_i padded
    cases decoded
    exact .inl ⟨padded.1, padded.2.1, padded.2.2, rfl⟩
  · obtain ⟨z, third, decoded⟩ := Option.bind_eq_some_iff.mp decoded
    refine .inr ⟨z, third, ?_⟩
    split at decoded
    · rename_i padded
      cases decoded
      exact .inl ⟨padded.1, padded.2, rfl⟩
    · obtain ⟨w, fourth, decoded⟩ := Option.bind_eq_some_iff.mp decoded
      obtain ⟨rest, later, same⟩ := Option.bind_eq_some_iff.mp decoded
      cases same
      exact .inr ⟨w, rest, fourth, later, rfl⟩

/-- **Data in base64 has one spelling with zeros where it has no bits.** -/
theorem eq_base64Encode : ∀ {s data : Bytes}, zeroPadded s = true → base64Decode s = some data →
    s = base64Encode data
  | [], data, _, decoded => by
      cases decoded
      rfl
  | [_], _, _, decoded => by cases decoded
  | [_, _], _, _, decoded => by cases decoded
  | [_, _, _], _, _, decoded => by cases decoded
  | a :: b :: c :: d :: s, data, padded, decoded => by
      obtain ⟨x, y, first, second, groups⟩ := base64Decode_cons decoded
      obtain ⟨smallX, digitX, -⟩ := base64Digit_of_base64Value first
      obtain ⟨smallY, digitY, -⟩ := base64Digit_of_base64Value second
      have above : (x.toNat * 4 + y.toNat / 16) / 4 = x.toNat := by omega
      rcases groups with ⟨rfl, rfl, rfl, rfl⟩ | ⟨z, third, groups⟩
      · have zero : y.toNat % 16 = 0 := by simpa [zeroPadded, second] using padded
        have below : (x.toNat * 4 + y.toNat / 16) % 4 * 16 = y.toNat := by omega
        rw [base64Encode, toNat_firstOctet smallX smallY, above, below, digitX, digitY]
      · obtain ⟨smallZ, digitZ, other⟩ := base64Digit_of_base64Value third
        have middle : (x.toNat * 4 + y.toNat / 16) % 4 * 16 +
            (y.toNat % 16 * 16 + z.toNat / 4) / 16 = y.toNat := by omega
        rcases groups with ⟨rfl, rfl, rfl⟩ | ⟨w, rest, fourth, later, rfl⟩
        · have zero : z.toNat % 4 = 0 := by simpa [zeroPadded, other, third] using padded
          have below : (y.toNat % 16 * 16 + z.toNat / 4) % 16 * 4 = z.toNat := by omega
          rw [base64Encode, toNat_firstOctet smallX smallY, toNat_secondOctet smallY smallZ, above,
            middle, below, digitX, digitY, digitZ]
        · obtain ⟨smallW, digitW, other⟩ := base64Digit_of_base64Value fourth
          have more : zeroPadded s = true := by simpa [zeroPadded, other] using padded
          have middle' : (y.toNat % 16 * 16 + z.toNat / 4) % 16 * 4 +
              (z.toNat % 4 * 64 + w.toNat) / 64 = z.toNat := by omega
          have below : (z.toNat % 4 * 64 + w.toNat) % 64 = w.toNat := by omega
          rw [base64Encode, toNat_firstOctet smallX smallY, toNat_secondOctet smallY smallZ,
            toNat_thirdOctet smallZ smallW, ← eq_base64Encode more later, above, middle,
            middle', below,
            digitX, digitY, digitZ, digitW]

/-! ## Addresses -/

theorem parseOctet_inj {octet : UInt8} (parsed : parseOctet s = some octet)
    (parsed' : parseOctet t = some octet) : s = t := by
  unfold parseOctet at parsed parsed'
  rw [Option.ite_none_right_eq_some, Option.some.injEq] at parsed parsed'
  obtain ⟨⟨nonempty, digits, plain, small⟩, value⟩ := parsed
  obtain ⟨⟨nonempty', digits', plain', small'⟩, value'⟩ := parsed'
  refine PlainNumber.eq_of_decimalValue ⟨digits, nonempty, plain⟩ ⟨digits', nonempty', plain'⟩ ?_
  have both := congrArg UInt8.toNat (value.trans value'.symm)
  simpa [Nat.mod_eq_of_lt (Nat.lt_succ_of_le small), Nat.mod_eq_of_lt (Nat.lt_succ_of_le small')]
    using both

theorem mapM_parseOctet_inj {fields fields' : List Bytes} {octets : Bytes}
    (parsed : fields.mapM parseOctet = some octets)
    (parsed' : fields'.mapM parseOctet = some octets) :
    fields = fields' := by
  induction fields generalizing fields' octets with
  | nil =>
      cases parsed
      cases fields' with
      | nil => rfl
      | cons f fields' =>
          simp only [List.mapM_cons, Option.bind_eq_bind, Option.bind_eq_some_iff] at parsed'
          obtain ⟨_, -, _, -, never⟩ := parsed'
          cases never
  | cons f fields ih =>
      simp only [List.mapM_cons, Option.bind_eq_bind, Option.bind_eq_some_iff] at parsed
      obtain ⟨octet, first, rest, later, same⟩ := parsed
      cases same
      cases fields' with
      | nil => cases parsed'
      | cons f' fields' =>
          simp only [List.mapM_cons, Option.bind_eq_bind, Option.bind_eq_some_iff] at parsed'
          obtain ⟨octet', first', rest', later', same⟩ := parsed'
          cases same
          rw [parseOctet_inj first first', ih later later']

/-- **An IPv4 address has one spelling.** -/
theorem parseIPv4_inj {octets : Bytes} (parsed : parseIPv4 s = some octets)
    (parsed' : parseIPv4 t = some octets) : s = t := by
  have fields : ∀ {u : Bytes}, parseIPv4 u = some octets →
      (u.splitOn dot).mapM parseOctet = some octets := by
    intro u parsed
    unfold parseIPv4 at parsed
    split at parsed
    · rename_i four
      rw [four]
      exact parsed
    · cases parsed
  have joined : ∀ u : Bytes, [dot].intercalate (u.splitOn dot) = u :=
    fun u => List.intercalate_splitOn dot
  rw [← joined s, mapM_parseOctet_inj (fields parsed) (fields parsed'), joined]

/-- A group of an IPv6 address in lower case, without a zero in front. -/
def HexGroup (g : Bytes) : Prop :=
  g.length ≤ 4 ∧ (∀ b ∈ g, (hexValue b).isSome ∧ lowerByte b = b) ∧ Unpadded g

instance (g : Bytes) : Decidable (HexGroup g) := inferInstanceAs (Decidable (_ ∧ _))

/-- The number that a group writes. -/
def groupValue (g : Bytes) : Nat := digitsValue 16 (fun b => ((hexValue b).getD 0).toNat) g

def groupOctets (g : Bytes) : Bytes :=
  [UInt8.ofNat (groupValue g / 256), UInt8.ofNat (groupValue g % 256)]

theorem digitsValue_lt {base : Nat} {digit : UInt8 → Nat} (small : ∀ b ∈ s, digit b < base) :
    digitsValue base digit s < base ^ s.length := by
  induction s using List.reverseRecOn with
  | nil => exact Nat.one_pos
  | append_singleton s b ih =>
      have front := ih fun c member => small c (by simp [member])
      have last := small b (by simp)
      rw [digitsValue_concat, List.length_append, List.length_singleton, Nat.pow_succ]
      calc digitsValue base digit s * base + digit b
          < digitsValue base digit s * base + base := Nat.add_lt_add_left last _
        _ = (digitsValue base digit s + 1) * base := (Nat.succ_mul _ _).symm
        _ ≤ base ^ s.length * base := Nat.mul_le_mul_right _ front

theorem hexDigit_spec : ∀ b : UInt8, (hexValue b).isSome → lowerByte b = b →
    ((hexValue b).getD 0).toNat < 16 ∧ b = hexDigit ((hexValue b).getD 0).toNat := by
  decide +kernel

theorem HexGroup.groupValue_lt (group : HexGroup g) : groupValue g < 65536 :=
  calc groupValue g < 16 ^ g.length :=
        digitsValue_lt fun b member =>
          (hexDigit_spec b (group.2.1 b member).1 (group.2.1 b member).2).1
    _ ≤ 16 ^ 4 := Nat.pow_le_pow_right (by decide) group.1
    _ = 65536 := by decide

/-- A group is told by its octets. -/
theorem HexGroup.eq_of_groupOctets {h : Bytes} (group : HexGroup g) (group' : HexGroup h)
    (same : groupOctets g = groupOctets h) : g = h := by
  have bound := group.groupValue_lt
  have bound' := group'.groupValue_lt
  simp only [groupOctets, List.cons.injEq, and_true] at same
  have high := congrArg UInt8.toNat same.1
  have low := congrArg UInt8.toNat same.2
  simp only [UInt8.toNat_ofNat'] at high low
  have value : groupValue g = groupValue h := by omega
  refine group.2.2.eq_of_digitsValue (fun b => (hexValue b).isSome ∧ lowerByte b = b)
    (fun b digit => (hexDigit_spec b digit.1 digit.2).1) (fun b c digit digit' value => ?_)
    (by decide) (by decide) group'.2.2 group.2.1 group'.2.1 value
  rw [(hexDigit_spec b digit.1 digit.2).2, (hexDigit_spec c digit'.1 digit'.2).2, value]

theorem hexDigits_append (group : HexGroup g) (rest : Bytes)
    (ends : ∀ b, rest.head? = some b → hexValue b = none) : hexDigits (g ++ rest) = g := by
  have all : ∀ b ∈ g, (hexValue b).isSome = true := fun b member => (group.2.1 b member).1
  rw [hexDigits, List.takeWhile_append_of_pos all]
  cases rest with
  | nil => rw [List.takeWhile_nil, List.append_nil]
  | cons b rest => rw [List.takeWhile_cons_of_neg (by simp [ends b rfl]), List.append_nil]

theorem HexGroup.ne_of_mem (group : HexGroup g) (member : b ∈ g) : b ≠ 58 ∧ b ≠ dot ∧ b ≠ 37 := by
  have valued := (group.2.1 b member).1
  refine ⟨?_, ?_, ?_⟩ <;> rintro rfl <;> exact absurd valued (by decide)

/-- A text of groups starts with a digit. -/
theorem exists_cons_groups (group : HexGroup g) (groups : List Bytes) :
    ∃ c tail, [58].intercalate (g :: groups) = c :: tail ∧ c ∈ g := by
  obtain ⟨c, tail, rfl⟩ := List.exists_cons_of_ne_nil group.2.2.1
  cases groups with
  | nil => exact ⟨c, tail, List.intercalate_singleton, List.mem_cons_self⟩
  | cons next groups =>
      exact ⟨c, _, by rw [List.intercalate_cons_cons, List.cons_append, List.cons_append],
        List.mem_cons_self⟩

/-- The loop reads the groups one by one. -/
theorem parseIPv6Loop_groups (plain : ∀ g ∈ groups, HexGroup g) (nonempty : groups ≠ []) {n : Nat}
    (enough : groups.length ≤ n) (ip : Bytes) :
    parseIPv6Loop n ([58].intercalate groups) ip none =
      some ([], ip ++ groups.flatMap groupOctets, none) := by
  induction groups generalizing n ip with
  | nil => exact absurd rfl nonempty
  | cons g groups ih =>
      obtain ⟨n, rfl⟩ := Nat.exists_eq_succ_of_ne_zero (Nat.ne_zero_of_lt enough)
      have group := plain g List.mem_cons_self
      have sized : ¬ (g = [] ∨ 4 < g.length) := not_or.mpr ⟨group.2.2.1, Nat.not_lt.mpr group.1⟩
      have octets :
          ip ++ [UInt8.ofNat (g.foldl (fun v b => v * 16 + ((hexValue b).getD 0).toNat) 0 / 256),
            UInt8.ofNat (g.foldl (fun v b => v * 16 + ((hexValue b).getD 0).toNat) 0 % 256)] =
            ip ++ groupOctets g := rfl
      cases groups with
      | nil =>
          have read := hexDigits_append group [] (by simp)
          rw [List.append_nil] at read
          simp only [parseIPv6Loop, List.intercalate_singleton, read, if_neg sized,
            List.drop_length, octets]
          simp
      | cons next groups =>
          have later := @ih (fun h member => plain h (List.mem_cons_of_mem _ member)) (by simp) n
            (Nat.le_of_succ_le_succ enough) (ip ++ groupOctets g)
          have text : [58].intercalate (g :: next :: groups) =
              g ++ 58 :: [58].intercalate (next :: groups) := by
            simp [List.intercalate_cons_cons]
          have following := plain next (by simp)
          obtain ⟨c, tail, shape, member⟩ := exists_cons_groups following groups
          have read := hexDigits_append group (58 :: [58].intercalate (next :: groups))
            (by simp; decide)
          rw [shape] at text later read
          rw [text]
          simp only [parseIPv6Loop, read, if_neg sized, List.drop_left, List.head?_cons, octets]
          rw [if_neg (by decide), if_neg (by decide), if_neg (following.ne_of_mem member).1, later,
            List.append_assoc]
          rfl

theorem mem_intercalate {sep : UInt8} {parts : List Bytes} (member : b ∈ [sep].intercalate parts) :
    b = sep ∨ ∃ part ∈ parts, b ∈ part := by
  induction parts with
  | nil => cases member
  | cons part parts ih =>
      cases parts with
      | nil =>
          rw [List.intercalate_singleton] at member
          exact .inr ⟨part, List.mem_cons_self, member⟩
      | cons next parts =>
          rw [List.intercalate_cons_cons, List.mem_append, List.mem_append,
            List.mem_singleton] at member
          rcases member with (here | rfl) | later
          · exact .inr ⟨part, List.mem_cons_self, here⟩
          · exact .inl rfl
          · refine (ih later).imp_right fun ⟨part', listed, inside⟩ => ?_
            exact ⟨part', List.mem_cons_of_mem _ listed, inside⟩

/-- **Eight groups are read as their octets.** -/
theorem parseAddr_groups (plain : ∀ g ∈ groups, HexGroup g) (eight : groups.length = 8) :
    parseAddr ([58].intercalate groups) = some (.v6 (groups.flatMap groupOctets)) := by
  have bytes : ∀ b ∈ [58].intercalate groups, b ≠ dot ∧ b ≠ 37 := by
    intro b inside
    rcases mem_intercalate inside with rfl | ⟨g, listed, inside⟩
    · decide
    · exact ((plain g listed).ne_of_mem inside).2
  have octets : (groups.flatMap groupOctets).length = 16 := by
    simp [List.length_flatMap, groupOctets, eight]
  have loop := parseIPv6Loop_groups plain (by rintro rfl; cases eight) (Nat.le_of_eq eight) []
  obtain ⟨g, next, rest, rfl⟩ : ∃ g next rest, groups = g :: next :: rest := by
    match groups, eight with
    | g :: next :: rest, _ => exact ⟨g, next, rest, rfl⟩
  obtain ⟨c, tail, shape, first⟩ := exists_cons_groups (plain g List.mem_cons_self) (next :: rest)
  have colon : 58 ∈ [58].intercalate (g :: next :: rest) := by
    rw [List.intercalate_cons_cons]
    simp
  generalize [58].intercalate (g :: next :: rest) = text at *
  -- the first byte that tells the family is a colon, and there is no zone
  have family : text.find? (fun b => b = dot ∨ b = 58 ∨ b = 37) = some 58 := by
    cases found : text.find? (fun b => b = dot ∨ b = 58 ∨ b = 37) with
    | none => exact absurd (List.find?_eq_none.mp found 58 colon) (by decide)
    | some b =>
        have kind := List.find?_some found
        obtain ⟨notDot, notPercent⟩ := bytes b (List.mem_of_find?_eq_some found)
        rw [show b = 58 by simpa [notDot, notPercent] using kind]
  have zone : indexByte text 37 = none := by
    rw [indexByte, List.findIdx?_eq_none_iff]
    intro b member
    simpa using (bytes b member).2
  have leading : hasPrefix text [58, 58] = false := by
    have other := ((plain g List.mem_cons_self).ne_of_mem first).1
    rw [shape, hasPrefix, List.isPrefixOf_cons_cons, beq_false_of_ne other.symm]
    rfl
  have read : parseIPv6 text = some ((g :: next :: rest).flatMap groupOctets) := by
    simp only [parseIPv6, zone, leading, loop, List.nil_append, Option.bind_eq_bind,
      Option.bind_some, if_true, expandEllipsis, if_pos octets]
    simp
  rw [parseAddr, family]
  simp [read, dot]

/-- **An IPv6 address has one spelling in eight plain groups.** -/
theorem eq_of_parseAddr_groups {groups' : List Bytes} {octets : Bytes}
    (plain : ∀ g ∈ groups, HexGroup g) (plain' : ∀ g ∈ groups', HexGroup g)
    (eight : groups.length = 8) (eight' : groups'.length = 8)
    (parsed : parseAddr ([58].intercalate groups) = some (.v6 octets))
    (parsed' : parseAddr ([58].intercalate groups') = some (.v6 octets)) : groups = groups' := by
  rw [parseAddr_groups plain eight] at parsed
  rw [parseAddr_groups plain' eight'] at parsed'
  have same : groups.flatMap groupOctets = groups'.flatMap groupOctets := by
    have both := parsed.trans parsed'.symm
    rwa [Option.some.injEq, Addr.v6.injEq] at both
  have lengths := eight.trans eight'.symm
  clear parsed parsed' eight eight'
  induction groups generalizing groups' with
  | nil => exact (List.length_eq_zero_iff.mp lengths.symm).symm
  | cons g groups ih =>
      cases groups' with
      | nil => cases lengths
      | cons g' groups' =>
          rw [List.flatMap_cons, List.flatMap_cons] at same
          obtain ⟨first, later⟩ := List.append_inj same rfl
          rw [(plain g List.mem_cons_self).eq_of_groupOctets (plain' g' List.mem_cons_self) first,
            ih (fun h member => plain h (List.mem_cons_of_mem _ member))
              (fun h member => plain' h (List.mem_cons_of_mem _ member)) later
                (Nat.succ.inj lengths)]

end Go

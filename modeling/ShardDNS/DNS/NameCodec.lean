import ShardDNS.DNS.Message
import ShardDNS.Go.Lowering

/-!
# Domain names on the wire

`parseName` reads a name at an offset of a message and writes its labels, joined
by dots, to a string; `packName` cuts such a string at its dots and writes the
labels without compression.

A name on the wire is a sequence of labels ended by a zero octet, in which a
compression pointer may stand for the rest. `NameAt` is this grammar: the
labels found at an offset, where the name ends, and how many pointers were
followed. Reading accepts exactly the names of the grammar that follow at most
sixteen pointers and take at most 255 octets (`parseName_eq_ok_iff`). The
grammar determines the labels (`NameAt.unique`).

Packing a name succeeds exactly when its labels have between 1 and 63 bytes and
the whole takes at most 255 octets (`packName_eq_ok_iff`). What it writes is a
name of the grammar with these labels (`nameAt_encodeLabels`), so it is read back
wherever it stands (`parseName_packName`).
-/

set_option autoImplicit false

namespace ShardDNS.DNS

open Go LabelTree

/-! ## Reading -/

/-- The errors of `ParseName`. The last two never occur: the bounds are checked
before each access, and the loop ends within its bound. -/
inductive NameError where
  | overflowsBuffer
  | labelTooLong
  | labelOverflows
  | nameTooLong
  | truncatedPointer
  | pointerLoop
  | reservedLabelType
  | outOfRange
  | diverged
  deriving DecidableEq, Repr

/-- The variables of the loop of `ParseName`. -/
structure NameState where
  sb : Bytes := []
  next : Nat
  followed : Bool := false
  endOff : Nat := 0
  hops : Nat := 0
  nameLen : Nat := 1
  deriving DecidableEq, Repr

/-- Writes a label to the string, after a dot when it is not the first. -/
def writeLabel (sb label : Bytes) : Bytes :=
  (if 0 < sb.length then sb ++ [dot] else sb) ++ label

/-- The string of a name without labels is a single dot. -/
def showName (sb : Bytes) : Bytes := if sb.length = 0 then ascii "." else sb

/-- One pass of the loop of `ParseName`: it goes on in a new state, or returns the
name and the offset after it. -/
def parseNameStep (buf : Bytes) (s : NameState) : Except NameError (NameState ⊕ (Bytes × Nat)) :=
  if buf.length ≤ s.next then .error .overflowsBuffer
  else do
    let b ← index .outOfRange buf s.next
    if b &&& 0xC0 = 0x00 then
      if b = 0 then
        .ok (.inr (showName s.sb, if s.followed then s.endOff else s.next + 1))
      else if maxLabelLen < b.toNat then .error .labelTooLong
      else if buf.length < s.next + 1 + b.toNat then .error .labelOverflows
      else if maxNameLen < s.nameLen + (1 + b.toNat) then .error .nameTooLong
      else do
        let label ← slice .outOfRange buf (s.next + 1) (s.next + 1 + b.toNat)
        .ok (.inl
          { s with
            sb := writeLabel s.sb label
            next := s.next + 1 + b.toNat
            nameLen := s.nameLen + (1 + b.toNat) })
    else if b &&& 0xC0 = 0xC0 then
      if buf.length ≤ s.next + 1 then .error .truncatedPointer
      else do
        let c ← index .outOfRange buf (s.next + 1)
        if maxPointerHops < s.hops + 1 then .error .pointerLoop
        else
          .ok (.inl
            { s with
              next := ((b &&& 0x3F).toNat <<< 8) ||| c.toNat
              endOff := if s.followed then s.endOff else s.next + 2
              followed := true
              hops := s.hops + 1 })
    else .error .reservedLabelType

/-- The loop of `ParseName`, for at most `fuel` passes. -/
def parseNameLoop (buf : Bytes) : Nat → NameState → Except NameError (Bytes × Nat)
  | 0, _ => .error .diverged
  | fuel + 1, s =>
      match parseNameStep buf s with
      | .error e => .error e
      | .ok (.inl s') => parseNameLoop buf fuel s'
      | .ok (.inr result) => .ok result

/-- Every pass but the last reads a label, of at least two octets, or follows a
pointer; so there are no more passes than this. -/
def nameLoopBound : Nat := maxPointerHops + maxNameLen + 1

/-- `ParseName`: the name at an offset and the offset after it. -/
def parseName (buf : Bytes) (offset : Nat) : Except NameError (Bytes × Nat) :=
  parseNameLoop buf nameLoopBound { next := offset }

/-! ## Writing -/

/-- The errors of `PackName`, with the name they quote. -/
inductive PackNameError where
  | tooLong (name : Bytes)
  | emptyLabel (name : Bytes)
  | labelTooLong (name : Bytes)
  deriving DecidableEq, Repr

/-- The loop of `PackName`, over the parts of the name between dots. -/
def packLabels (name : Bytes) : List Bytes → Except PackNameError Bytes
  | [] => .ok []
  | label :: rest =>
      if label.length = 0 then .error (.emptyLabel name)
      else if maxLabelLen < label.length then .error (.labelTooLong name)
      else do
        let packed ← packLabels name rest
        .ok (UInt8.ofNat label.length :: label ++ packed)

def packName (buf name : Bytes) : Except PackNameError Bytes :=
  let name := trimSuffix name (ascii ".")
  if name = [] then .ok (buf ++ [0])
  else if maxNameLen < name.length + 2 then .error (.tooLong name)
  else do
    let packed ← packLabels name (labels dot name)
    .ok (buf ++ packed ++ [0])

/-- The labels `PackName` has written when it comes to one that it refuses. -/
def packedBefore : List Bytes → Bytes
  | [] => []
  | label :: rest =>
      if label.length = 0 ∨ maxLabelLen < label.length then []
      else UInt8.ofNat label.length :: label ++ packedBefore rest

/-- The buffer that `PackName` returns beside an error. -/
def packNameLeft (buf name : Bytes) : Bytes :=
  let name := trimSuffix name (ascii ".")
  if maxNameLen < name.length + 2 then buf else buf ++ packedBefore (labels dot name)

/-- A name that cannot be packed is written as the root. -/
def appendName (buf name : Bytes) : Bytes :=
  match packName buf name with
  | .ok out => out
  | .error _ => buf ++ [0]

/-! ## The grammar of compressed names -/

/-- The labels written at an offset, the offset after the name, and the number
of compression pointers followed. -/
inductive NameAt (buf : Bytes) : Nat → List Bytes → Nat → Nat → Prop where
  | root {off : Nat} : buf[off]? = some 0 → NameAt buf off [] (off + 1) 0
  | label {off : Nat} {b : UInt8} {rest : List Bytes} {stop hops : Nat} :
      buf[off]? = some b → 0 < b.toNat → b.toNat ≤ maxLabelLen →
        off + 1 + b.toNat ≤ buf.length → NameAt buf (off + 1 + b.toNat) rest stop hops →
          NameAt buf off ((buf.drop (off + 1)).take b.toNat :: rest) stop hops
  | pointer {off : Nat} {b c : UInt8} {names : List Bytes} {stop hops : Nat} :
      buf[off]? = some b → 192 ≤ b.toNat → buf[off + 1]? = some c →
        NameAt buf ((b.toNat - 192) * 256 + c.toNat) names stop hops →
          NameAt buf off names (off + 2) (hops + 1)

/-- The octets a name takes without compression. -/
def wireLength (names : List Bytes) : Nat := (names.map fun l => 1 + l.length).sum + 1

theorem wireLength_cons (label : Bytes) (names : List Bytes) :
    wireLength (label :: names) = 1 + label.length + wireLength names := by
  simp only [wireLength, List.map_cons, List.sum_cons]
  omega

theorem wireLength_pos (names : List Bytes) : 0 < wireLength names := by
  simp [wireLength]

variable {buf name : Bytes} {names : List Bytes} {off stop : Nat} {s : NameState}

/-- **The grammar determines the labels and the end of a name.** -/
theorem NameAt.unique {stop' hops hops' : Nat} {names' : List Bytes}
    (first : NameAt buf off names stop hops) (second : NameAt buf off names' stop' hops') :
    names = names' ∧ stop = stop' ∧ hops = hops' := by
  induction first generalizing names' stop' hops' with
  | root zero =>
      cases second with
      | root => exact ⟨rfl, rfl, rfl⟩
      | label here positive =>
          rw [zero, Option.some.injEq] at here
          subst here
          simp at positive
      | pointer here large =>
          rw [zero, Option.some.injEq] at here
          subst here
          simp at large
  | label here positive small inside _ ih =>
      cases second with
      | root zero =>
          rw [here, Option.some.injEq] at zero
          subst zero
          simp at positive
      | label here' _ _ _ rest' =>
          rw [here, Option.some.injEq] at here'
          subst here'
          obtain ⟨rfl, rfl, rfl⟩ := ih rest'
          exact ⟨rfl, rfl, rfl⟩
      | pointer here' large =>
          rw [here, Option.some.injEq] at here'
          subst here'
          simp only [maxLabelLen] at small
          omega
  | pointer here large next _ ih =>
      cases second with
      | root zero =>
          rw [here, Option.some.injEq] at zero
          subst zero
          simp at large
      | label here' _ small _ =>
          rw [here, Option.some.injEq] at here'
          subst here'
          simp only [maxLabelLen] at small
          omega
      | pointer here' _ next' rest' =>
          rw [here, Option.some.injEq] at here'
          subst here'
          rw [next, Option.some.injEq] at next'
          subst next'
          obtain ⟨rfl, -, rfl⟩ := ih rest'
          exact ⟨rfl, rfl, rfl⟩

/-- The labels of a name on the wire have between 1 and 63 bytes. -/
theorem NameAt.label_length {hops : Nat} (name : NameAt buf off names stop hops) :
    ∀ label ∈ names, 0 < label.length ∧ label.length ≤ maxLabelLen := by
  induction name with
  | root => simp
  | label here positive small inside _ ih =>
      intro label member
      rcases List.mem_cons.mp member with rfl | member
      · rw [List.length_take, List.length_drop]
        omega
      · exact ih label member
  | pointer _ _ _ _ ih => exact ih

/-! ## What one pass of the loop does -/

theorem and_C0_eq_zero_iff : ∀ b : UInt8, b &&& 0xC0 = 0x00 ↔ b.toNat < 64 := by
  decide +kernel

theorem and_C0_eq_C0_iff : ∀ b : UInt8, b &&& 0xC0 = 0xC0 ↔ 192 ≤ b.toNat := by
  decide +kernel

theorem pointer_value : ∀ b : UInt8, 192 ≤ b.toNat → (b &&& 0x3F).toNat = b.toNat - 192 := by
  decide +kernel

theorem pointer_offset {b : UInt8} (large : 192 ≤ b.toNat) (c : UInt8) :
    ((b &&& 0x3F).toNat <<< 8) ||| c.toNat = (b.toNat - 192) * 256 + c.toNat := by
  have small : c.toNat < 2 ^ 8 := c.toNat_lt
  rw [pointer_value b large, ← Nat.shiftLeft_add_eq_or_of_lt small, Nat.shiftLeft_eq]

/-- A zero octet ends the name. -/
theorem parseNameStep_root (zero : buf[s.next]? = some 0) :
    parseNameStep buf s =
      .ok (.inr (showName s.sb, if s.followed then s.endOff else s.next + 1)) := by
  have inside := (List.getElem?_eq_some_iff.mp zero).1
  simp [parseNameStep, index_eq_ok zero, Nat.not_le.mpr inside, Bind.bind, Except.bind]

/-- The state after reading a label. -/
def NameState.afterLabel (s : NameState) (label : Bytes) : NameState :=
  { s with
    sb := writeLabel s.sb label
    next := s.next + 1 + label.length
    nameLen := s.nameLen + (1 + label.length) }

/-- The state after following a pointer. -/
def NameState.afterPointer (s : NameState) (target : Nat) : NameState :=
  { s with
    next := target
    endOff := if s.followed then s.endOff else s.next + 2
    followed := true
    hops := s.hops + 1 }

theorem parseNameStep_label {b : UInt8} (here : buf[s.next]? = some b) (positive : 0 < b.toNat)
    (small : b.toNat ≤ maxLabelLen) (inside : s.next + 1 + b.toNat ≤ buf.length) :
    parseNameStep buf s =
      if maxNameLen < s.nameLen + (1 + b.toNat) then .error .nameTooLong
      else .ok (.inl (s.afterLabel ((buf.drop (s.next + 1)).take b.toNat))) := by
  have bounded : ¬ buf.length ≤ s.next := by omega
  have nonzero : b ≠ 0 := by
    rintro rfl
    simp at positive
  have type : b &&& 0xC0 = 0x00 :=
    (and_C0_eq_zero_iff b).mpr (by simp only [maxLabelLen] at small; omega)
  have width : ((buf.drop (s.next + 1)).take b.toNat).length = b.toNat := by
    rw [List.length_take, List.length_drop]
    omega
  have sliced : slice NameError.outOfRange buf (s.next + 1) (s.next + 1 + b.toNat) =
      .ok ((buf.drop (s.next + 1)).take b.toNat) := by
    rw [slice_eq_ok (by omega) inside, Nat.add_sub_cancel_left]
  simp only [parseNameStep, if_neg bounded, index_eq_ok here, Bind.bind, Except.bind, if_pos type,
    if_neg nonzero, if_neg (Nat.not_lt.mpr small), if_neg (Nat.not_lt.mpr inside), sliced,
    NameState.afterLabel, width]

theorem parseNameStep_pointer {b c : UInt8} (here : buf[s.next]? = some b) (large : 192 ≤ b.toNat)
    (next : buf[s.next + 1]? = some c) :
    parseNameStep buf s =
      if maxPointerHops < s.hops + 1 then .error .pointerLoop
      else .ok (.inl (s.afterPointer ((b.toNat - 192) * 256 + c.toNat))) := by
  have inside := (List.getElem?_eq_some_iff.mp next).1
  have bounded : ¬ buf.length ≤ s.next := by omega
  have bounded' : ¬ buf.length ≤ s.next + 1 := by omega
  have plain : ¬ b &&& 0xC0 = 0x00 := fun zero => by
    have := (and_C0_eq_zero_iff b).mp zero
    omega
  have type : b &&& 0xC0 = 0xC0 := (and_C0_eq_C0_iff b).mpr large
  simp only [parseNameStep, if_neg bounded, index_eq_ok here, Bind.bind, Except.bind, if_neg plain,
    if_pos type, if_neg bounded', index_eq_ok next, pointer_offset large, NameState.afterPointer]

/-- A pass that does not fail met a zero octet, a label or a pointer. -/
theorem parseNameStep_cases {result : NameState ⊕ (Bytes × Nat)}
    (passed : parseNameStep buf s = .ok result) :
    (buf[s.next]? = some 0 ∧
        result = .inr (showName s.sb, if s.followed then s.endOff else s.next + 1)) ∨
      (∃ b : UInt8, buf[s.next]? = some b ∧ 0 < b.toNat ∧ b.toNat ≤ maxLabelLen ∧
        s.next + 1 + b.toNat ≤ buf.length ∧ s.nameLen + (1 + b.toNat) ≤ maxNameLen ∧
          result = .inl (s.afterLabel ((buf.drop (s.next + 1)).take b.toNat))) ∨
      (∃ b c : UInt8, buf[s.next]? = some b ∧ 192 ≤ b.toNat ∧ buf[s.next + 1]? = some c ∧
        s.hops + 1 ≤ maxPointerHops ∧
          result = .inl (s.afterPointer ((b.toNat - 192) * 256 + c.toNat))) := by
  by_cases bounded : buf.length ≤ s.next
  · simp [parseNameStep, bounded] at passed
  obtain ⟨b, here⟩ : ∃ b, buf[s.next]? = some b := ⟨_, List.getElem?_eq_getElem (by omega)⟩
  by_cases zero : b = 0
  · subst zero
    rw [parseNameStep_root here, Except.ok.injEq] at passed
    exact .inl ⟨here, passed.symm⟩
  by_cases small : b.toNat < 64
  · have type : b &&& 0xC0 = 0x00 := (and_C0_eq_zero_iff b).mpr small
    have positive : 0 < b.toNat := Nat.pos_of_ne_zero fun h => zero (UInt8.toNat_inj.mp h)
    have short : b.toNat ≤ maxLabelLen := by simp only [maxLabelLen]; omega
    by_cases inside : buf.length < s.next + 1 + b.toNat
    · simp [parseNameStep, bounded, index_eq_ok here, Bind.bind, Except.bind, type, zero, inside,
        Nat.not_lt.mpr short] at passed
    rw [parseNameStep_label here positive short (by omega)] at passed
    split at passed
    · simp at passed
    · rename_i fits
      exact .inr (.inl ⟨b, here, positive, short, by omega, by omega, by simpa using passed.symm⟩)
  have plain : ¬ b &&& 0xC0 = 0x00 := fun h => small ((and_C0_eq_zero_iff b).mp h)
  by_cases large : 192 ≤ b.toNat
  · have type : b &&& 0xC0 = 0xC0 := (and_C0_eq_C0_iff b).mpr large
    by_cases inside : buf.length ≤ s.next + 1
    · simp [parseNameStep, bounded, index_eq_ok here, Bind.bind, Except.bind, type,
        inside] at passed
    obtain ⟨c, next⟩ : ∃ c, buf[s.next + 1]? = some c :=
      ⟨_, List.getElem?_eq_getElem (by omega)⟩
    rw [parseNameStep_pointer here large next] at passed
    split at passed
    · simp at passed
    · rename_i fits
      exact .inr (.inr ⟨b, c, here, large, next, by omega, by simpa using passed.symm⟩)
  · have type : ¬ b &&& 0xC0 = 0xC0 := fun h => large ((and_C0_eq_C0_iff b).mp h)
    simp [parseNameStep, bounded, index_eq_ok here, Bind.bind, Except.bind, plain, type] at passed

/-! ## Reading accepts exactly the grammar -/

/-- What the loop returns from a state, for the labels still to be read. -/
def NameState.finish (s : NameState) (names : List Bytes) (stop : Nat) : Bytes × Nat :=
  (showName (names.foldl writeLabel s.sb), if s.followed then s.endOff else stop)

/-- How many more passes the loop can make: each one uses up room or a pointer. -/
def NameState.budget (s : NameState) : Nat := (maxPointerHops - s.hops) + (maxNameLen - s.nameLen)

/-- **What the loop returns was written in the message.** -/
theorem nameAt_of_parseNameLoop {buf : Bytes} :
    ∀ {fuel : Nat} {s : NameState} {result : Bytes × Nat},
      parseNameLoop buf fuel s = .ok result →
        ∃ names stop hops, NameAt buf s.next names stop hops ∧
          (hops = 0 ∨ s.hops + hops ≤ maxPointerHops) ∧
          (names = [] ∨ s.nameLen + wireLength names ≤ maxNameLen + 1) ∧
          result = s.finish names stop
  | 0, s, result, run => by simp [parseNameLoop] at run
  | fuel + 1, s, result, run => by
      unfold parseNameLoop at run
      split at run
      · simp at run
      · rename_i s' passed
        rcases parseNameStep_cases passed with ⟨-, absurdity⟩ |
            ⟨b, here, positive, small, inside, fits, equal⟩ |
            ⟨b, c, here, large, next, fits, equal⟩
        · simp at absurdity
        · obtain rfl := Sum.inl.inj equal
          obtain ⟨names, stop, hops, name, hopBound, lengthBound, rfl⟩ :=
            nameAt_of_parseNameLoop run
          have width : ((buf.drop (s.next + 1)).take b.toNat).length = b.toNat := by
            rw [List.length_take, List.length_drop]
            omega
          simp only [NameState.afterLabel, width] at name hopBound lengthBound
          refine ⟨_, stop, hops, .label here positive small inside name, hopBound, .inr ?_, rfl⟩
          rw [wireLength_cons, width]
          rcases lengthBound with rfl | bound
          · simp only [wireLength, List.map_nil, List.sum_nil]
            omega
          · omega
        · obtain rfl := Sum.inl.inj equal
          obtain ⟨names, stop, hops, name, hopBound, lengthBound, rfl⟩ :=
            nameAt_of_parseNameLoop run
          simp only [NameState.afterPointer] at name hopBound lengthBound
          refine ⟨names, s.next + 2, hops + 1, .pointer here large next name, .inr (by omega),
            lengthBound, ?_⟩
          simp [NameState.finish, NameState.afterPointer]
      · rename_i result' passed
        rcases parseNameStep_cases passed with ⟨zero, equal⟩ | ⟨_, _, _, _, _, _, absurdity⟩ |
            ⟨_, _, _, _, _, _, absurdity⟩
        · obtain rfl := Sum.inr.inj equal
          obtain rfl := Except.ok.inj run
          exact ⟨[], s.next + 1, 0, .root zero, .inl rfl, .inl rfl, rfl⟩
        · simp at absurdity
        · simp at absurdity

/-- **A name of the grammar within the limits is read.** -/
theorem parseNameLoop_of_nameAt {hops : Nat} (name : NameAt buf off names stop hops) :
    ∀ {fuel : Nat} {s : NameState}, s.next = off → s.hops + hops ≤ maxPointerHops →
      s.nameLen + wireLength names ≤ maxNameLen + 1 → s.budget < fuel →
        parseNameLoop buf fuel s = .ok (s.finish names stop) := by
  induction name with
  | root zero =>
      intro fuel s start _ _ enough
      subst start
      cases fuel with
      | zero => omega
      | succ fuel =>
          simp only [parseNameLoop, parseNameStep_root zero]
          rfl
  | @label off b rest stop hops here positive small inside _ ih =>
      intro fuel s start hopBound lengthBound enough
      subst start
      have width : ((buf.drop (s.next + 1)).take b.toNat).length = b.toNat := by
        rw [List.length_take, List.length_drop]
        omega
      have room := wireLength_pos rest
      rw [wireLength_cons, width] at lengthBound
      cases fuel with
      | zero => omega
      | succ fuel =>
          have fits : ¬ maxNameLen < s.nameLen + (1 + b.toNat) := by omega
          simp only [parseNameLoop, parseNameStep_label here positive small inside, if_neg fits]
          simp only [NameState.budget] at enough
          rw [ih (by simp [NameState.afterLabel, width])
            (by simpa [NameState.afterLabel] using hopBound)
            (by simp only [NameState.afterLabel, width]; omega)
            (by simp only [NameState.budget, NameState.afterLabel, width]; omega)]
          rfl
  | @pointer off b c names stop hops here large next _ ih =>
      intro fuel s start hopBound lengthBound enough
      subst start
      cases fuel with
      | zero => omega
      | succ fuel =>
          have fits : ¬ maxPointerHops < s.hops + 1 := by omega
          simp only [parseNameLoop, parseNameStep_pointer here large next, if_neg fits]
          simp only [NameState.budget] at enough
          rw [ih (by simp [NameState.afterPointer]) (by simp only [NameState.afterPointer]; omega)
            (by simpa [NameState.afterPointer] using lengthBound)
            (by simp only [NameState.budget, NameState.afterPointer]; omega)]
          simp [NameState.finish, NameState.afterPointer]

/-- The string of a name with the given labels. -/
def nameText (names : List Bytes) : Bytes := showName (names.foldl writeLabel [])

/-- **`parseName` reads exactly the names of the grammar** that follow at most
sixteen pointers and take at most 255 octets. -/
theorem parseName_eq_ok_iff {text : Bytes} :
    parseName buf off = .ok (text, stop) ↔
      ∃ names hops, NameAt buf off names stop hops ∧ hops ≤ maxPointerHops ∧
        wireLength names ≤ maxNameLen ∧ text = nameText names := by
  constructor
  · intro run
    obtain ⟨names, stop', hops, name, hopBound, lengthBound, equal⟩ := nameAt_of_parseNameLoop run
    simp only [NameState.finish, Bool.false_eq_true, if_false, Prod.mk.injEq] at equal
    obtain ⟨rfl, rfl⟩ := equal
    refine ⟨names, hops, name, by rcases hopBound with rfl | h <;> omega, ?_, rfl⟩
    rcases lengthBound with rfl | bound
    · simp [wireLength, maxNameLen]
    · simp only at bound
      omega
  · rintro ⟨names, hops, name, hopBound, lengthBound, rfl⟩
    rw [parseName, parseNameLoop_of_nameAt name rfl (by simpa using hopBound)
      (by simp only; omega) (by simp [NameState.budget, nameLoopBound, maxPointerHops, maxNameLen])]
    rfl

/-! ## What packing writes -/

/-- Labels written one after the other, each after its length. -/
def encodeLabels (names : List Bytes) : Bytes :=
  names.flatMap fun label => UInt8.ofNat label.length :: label

/-- The labels of a textual name: its parts between dots, once a trailing dot is
removed; none for the root. -/
def textLabels (name : Bytes) : List Bytes :=
  if trimSuffix name (ascii ".") = [] then [] else labels dot (trimSuffix name (ascii "."))

/-- The labels of a lower-cased name are the lower-cased labels. -/
theorem textLabels_toLower (name : Bytes) :
    textLabels (toLower name) = (textLabels name).map toLower := by
  have trimmed : trimSuffix (toLower name) (ascii ".") = toLower (trimSuffix name (ascii ".")) :=
    (toLower_trimSuffix_dot name).symm
  unfold textLabels
  rw [trimmed]
  by_cases root : trimSuffix name (ascii ".") = []
  · rw [if_pos root, if_pos (toLower_eq_nil_iff.mpr root), List.map_nil]
  · rw [if_neg root, if_neg fun empty => root (toLower_eq_nil_iff.mp empty), labels_toLower]

/-- Every label has between 1 and 63 bytes. -/
def LabelsFit (names : List Bytes) : Prop :=
  ∀ label ∈ names, 0 < label.length ∧ label.length ≤ maxLabelLen

instance (names : List Bytes) : Decidable (LabelsFit names) :=
  inferInstanceAs (Decidable (∀ label ∈ names, _))

theorem LabelsFit.append {first second : List Bytes} (left : LabelsFit first)
    (right : LabelsFit second) : LabelsFit (first ++ second) := by
  intro label member
  rcases List.mem_append.mp member with inFirst | inSecond
  · exact left label inFirst
  · exact right label inSecond

theorem encodeLabels_cons (label : Bytes) (names : List Bytes) :
    encodeLabels (label :: names) = UInt8.ofNat label.length :: (label ++ encodeLabels names) := rfl

theorem length_encodeLabels (names : List Bytes) :
    (encodeLabels names).length + 1 = wireLength names := by
  induction names with
  | nil => rfl
  | cons label names ih =>
      rw [encodeLabels_cons, wireLength_cons, List.length_cons, List.length_append]
      omega

theorem packLabels_eq_ok_iff {out : Bytes} :
    packLabels name names = .ok out ↔ LabelsFit names ∧ out = encodeLabels names := by
  induction names generalizing out with
  | nil => simp [packLabels, LabelsFit, encodeLabels, eq_comm]
  | cons label names ih =>
      unfold packLabels
      split
      · rename_i empty
        simp [LabelsFit, empty]
      · rename_i nonempty
        split
        · rename_i long
          simp [LabelsFit, Nat.not_le.mpr long]
        · rename_i short
          have here : 0 < label.length ∧ label.length ≤ maxLabelLen := by omega
          cases packed : packLabels name names with
          | error e =>
              have unfit : ¬ LabelsFit names := fun fit => by
                rw [ih.mpr ⟨fit, rfl⟩] at packed
                cases packed
              simp only [Bind.bind, Except.bind, LabelsFit, List.forall_mem_cons, here, true_and]
              simp only [reduceCtorEq, false_iff, not_and]
              exact fun fit => absurd fit unfit
          | ok rest =>
              obtain ⟨fit, rfl⟩ := ih.mp packed
              simp only [Bind.bind, Except.bind, LabelsFit, List.forall_mem_cons, here, true_and,
                Except.ok.injEq, encodeLabels_cons, List.cons_append]
              exact ⟨fun equal => ⟨fit, equal.symm⟩, fun equal => equal.2.symm⟩

/-- A nonempty textual name takes two octets more than it has bytes. -/
theorem wireLength_labels (name : Bytes) : wireLength (labels dot name) = name.length + 2 := by
  suffices sum : ∀ name : Bytes,
      ((labels dot name).map fun l => 1 + l.length).sum = name.length + 1 by
    rw [wireLength, sum]
  intro name
  induction name with
  | nil => rfl
  | cons b name ih =>
      rw [labels] at ih ⊢
      rw [List.splitOn_cons_eq_if_modifyHead]
      obtain ⟨head, tail, shape⟩ := List.exists_cons_of_ne_nil (List.splitOn_ne_nil dot name)
      rw [shape, List.map_cons, List.sum_cons] at ih
      rw [shape]
      split
      · rw [List.map_cons, List.map_cons, List.sum_cons, List.sum_cons, List.length_cons]
        simp only [List.length_nil]
        omega
      · rw [List.modifyHead_cons, List.map_cons, List.sum_cons, List.length_cons, List.length_cons]
        omega

theorem wireLength_textLabels (nonempty : trimSuffix name (ascii ".") ≠ []) :
    wireLength (textLabels name) = (trimSuffix name (ascii ".")).length + 2 := by
  rw [textLabels, if_neg nonempty, wireLength_labels]

/-- **Packing succeeds exactly on fitting labels, and writes them.** -/
theorem packName_eq_ok_iff {out : Bytes} :
    packName buf name = .ok out ↔
      LabelsFit (textLabels name) ∧ wireLength (textLabels name) ≤ maxNameLen ∧
        out = buf ++ (encodeLabels (textLabels name) ++ [0]) := by
  unfold packName
  extract_lets trimmed
  split
  · rename_i root
    simp [textLabels, show trimSuffix name (ascii ".") = [] from root, LabelsFit, wireLength,
      maxNameLen, encodeLabels, eq_comm]
  · rename_i nonempty
    have size : wireLength (textLabels name) = trimmed.length + 2 :=
      wireLength_textLabels nonempty
    have labelsEq : textLabels name = labels dot trimmed := by
      rw [textLabels, if_neg nonempty]
    rw [size]
    split
    · rename_i long
      simp only [reduceCtorEq, false_iff, not_and]
      intro _ short
      omega
    · rename_i short
      rw [labelsEq]
      cases packed : packLabels trimmed (labels dot trimmed) with
      | error e =>
          simp only [Bind.bind, Except.bind, reduceCtorEq, false_iff, not_and]
          intro fit
          rw [packLabels_eq_ok_iff.mpr ⟨fit, rfl⟩] at packed
          cases packed
      | ok written =>
          obtain ⟨fit, rfl⟩ := packLabels_eq_ok_iff.mp packed
          simp only [Bind.bind, Except.bind, Except.ok.injEq, List.append_assoc]
          exact ⟨fun equal => ⟨fit, by omega, equal.symm⟩, fun equal => equal.2.2.symm⟩

/-- Labels written after a prefix are a name of the grammar there. -/
theorem nameAt_encodeLabels (front back : Bytes) (fit : LabelsFit names) :
    NameAt (front ++ (encodeLabels names ++ 0 :: back)) front.length names
      (front.length + wireLength names) 0 := by
  induction names generalizing front with
  | nil =>
      refine NameAt.root ?_
      simp [encodeLabels]
  | cons label names ih =>
      obtain ⟨positive, small⟩ := fit label (by simp)
      have rest := ih (front ++ UInt8.ofNat label.length :: label)
        fun l member => fit l (by simp [member])
      have octet : (UInt8.ofNat label.length).toNat = label.length := by
        rw [UInt8.toNat_ofNat']
        simp only [maxLabelLen] at small
        omega
      have shape : front ++ (encodeLabels (label :: names) ++ 0 :: back) =
          front ++ UInt8.ofNat label.length :: label ++ (encodeLabels names ++ 0 :: back) := by
        simp [encodeLabels_cons]
      have here : (front ++ (encodeLabels (label :: names) ++ 0 :: back))[front.length]? =
          some (UInt8.ofNat label.length) := by
        simp [encodeLabels_cons]
      have text : ((front ++ (encodeLabels (label :: names) ++ 0 :: back)).drop
          (front.length + 1)).take (UInt8.ofNat label.length).toNat = label := by
        rw [octet, encodeLabels_cons, ← List.drop_drop, List.drop_left]
        simp
      have stop : front.length + wireLength (label :: names) =
          (front ++ UInt8.ofNat label.length :: label).length + wireLength names := by
        rw [wireLength_cons, List.length_append, List.length_cons]
        omega
      have inside : front.length + 1 + (UInt8.ofNat label.length).toNat ≤
          (front ++ (encodeLabels (label :: names) ++ 0 :: back)).length := by
        rw [octet, encodeLabels_cons]
        simp only [List.length_append, List.length_cons]
        omega
      have start : front.length + 1 + (UInt8.ofNat label.length).toNat =
          (front ++ UInt8.ofNat label.length :: label).length := by
        rw [octet, List.length_append, List.length_cons]
        omega
      have below : NameAt (front ++ (encodeLabels (label :: names) ++ 0 :: back))
          (front.length + 1 + (UInt8.ofNat label.length).toNat) names
          (front.length + wireLength (label :: names)) 0 := by
        rw [start, stop, shape]
        exact rest
      have step := NameAt.label here (by rw [octet]; exact positive) (by rw [octet]; exact small)
        inside below
      rwa [text] at step

/-- Fitting labels are determined by what they are written as. -/
theorem eq_of_encodeLabels_eq {first second : List Bytes} (left : LabelsFit first)
    (right : LabelsFit second) (same : encodeLabels first ++ [0] = encodeLabels second ++ [0]) :
    first = second := by
  have written := nameAt_encodeLabels [] [] left
  rw [same] at written
  exact (written.unique (nameAt_encodeLabels [] [] right)).1

/-! ## Text of names and names of text -/

theorem foldl_writeLabel_of_ne_nil {sb : Bytes} (started : sb ≠ []) (names : List Bytes) :
    names.foldl writeLabel sb = sb ++ names.flatMap fun label => dot :: label := by
  induction names generalizing sb with
  | nil => simp
  | cons label names ih =>
      have written : writeLabel sb label = sb ++ dot :: label := by
        simp [writeLabel, List.length_pos_iff.mpr started]
      rw [List.foldl_cons, written, ih (by simp)]
      simp

theorem intercalate_dot (label : Bytes) (names : List Bytes) :
    [dot].intercalate (label :: names) = label ++ names.flatMap fun l => dot :: l := by
  induction names generalizing label with
  | nil => simp
  | cons next names ih =>
      rw [List.intercalate_cons_of_ne_nil (by simp), ih]
      simp

/-- The text of a name joins its labels by dots. -/
theorem nameText_cons {label : Bytes} (nonempty : label ≠ []) :
    nameText (label :: names) = [dot].intercalate (label :: names) := by
  have start : writeLabel [] label = label := by simp [writeLabel]
  have text : (label :: names).foldl writeLabel [] = [dot].intercalate (label :: names) := by
    rw [List.foldl_cons, start, foldl_writeLabel_of_ne_nil nonempty, intercalate_dot]
  have long : ([dot].intercalate (label :: names)).length ≠ 0 := by
    rw [intercalate_dot]
    have := List.length_pos_iff.mpr nonempty
    simp only [List.length_append]
    omega
  rw [nameText, text, showName, if_neg long]

/-- A name whose labels hold no dot is recovered from its text. -/
theorem textLabels_nameText (fit : LabelsFit names) (dotless : ∀ label ∈ names, dot ∉ label) :
    textLabels (nameText names) = names := by
  cases names with
  | nil => decide
  | cons label names =>
      have nonempty : label ≠ [] := List.length_pos_iff.mp (fit label (by simp)).1
      rw [nameText_cons nonempty]
      have back : labels dot ([dot].intercalate (label :: names)) = label :: names :=
        List.splitOn_intercalate dot dotless (by simp)
      have unended : ¬ ascii "." <:+ [dot].intercalate (label :: names) := by
        rintro ⟨front, split⟩
        have parts : labels dot (front ++ dot :: []) = labels dot front ++ labels dot [] :=
          List.splitOn_append_cons_self _ _
        have ends : labels dot front ++ [[]] = label :: names := by
          rw [← back, ← split]
          exact parts.symm
        have last : ([] : Bytes) ∈ label :: names := by
          rw [← ends]
          simp
        exact absurd (fit [] last).1 (by simp)
      have some' : [dot].intercalate (label :: names) ≠ [] := by
        rw [intercalate_dot]
        simp [nonempty]
      rw [textLabels, trimSuffix_eq_self unended, if_neg some', back]

/-- Textual labels never hold a dot. -/
theorem dot_not_mem_of_mem_textLabels {name label : Bytes} (member : label ∈ textLabels name) :
    dot ∉ label := by
  unfold textLabels at member
  split at member
  · simp at member
  · exact not_mem_of_mem_labels member

/-- The textual name as it is read back: without a trailing dot, and a dot for
the root. -/
def readBack (name : Bytes) : Bytes :=
  if trimSuffix name (ascii ".") = [] then ascii "." else trimSuffix name (ascii ".")

theorem readBack_ne_nil (name : Bytes) : readBack name ≠ [] := by
  unfold readBack
  split
  · decide
  · assumption

theorem nameText_textLabels (fit : LabelsFit (textLabels name)) :
    nameText (textLabels name) = readBack name := by
  unfold readBack textLabels at *
  split
  · rfl
  · rename_i nonempty
    rw [if_neg nonempty] at fit
    obtain ⟨head, tail, shape⟩ :=
      List.exists_cons_of_ne_nil (List.splitOn_ne_nil dot (trimSuffix name (ascii ".")))
    rw [labels, shape] at fit ⊢
    rw [nameText_cons (List.length_pos_iff.mp (fit head (by simp)).1), ← shape,
      List.intercalate_splitOn]

/-- A name whose last labels fit does not end in a dot. -/
theorem not_dot_suffix_of_fit {front back : List Bytes} (split : labels dot name = front ++ back)
    (nonempty : back ≠ []) (fit : LabelsFit back) : ¬ ascii "." <:+ name := by
  rintro ⟨text, rfl⟩
  have parts : labels dot (text ++ ascii ".") = labels dot text ++ [[]] :=
    List.splitOn_append_cons_self _ _
  have last : back.getLast nonempty = [] := by
    have both := congrArg List.getLast? (split.symm.trans parts)
    rw [List.getLast?_append_of_ne_nil _ nonempty, List.getLast?_concat,
      List.getLast?_eq_some_getLast nonempty] at both
    exact Option.some.inj both
  exact absurd (fit _ (List.getLast_mem nonempty)).1 (by simp [last])

/-- A text joined to the root has an empty label. -/
theorem not_fit_joined_root (front : Bytes) :
    ¬ LabelsFit (textLabels (front ++ dot :: ascii ".")) := by
  intro fit
  have shape : front ++ dot :: ascii "." = front ++ ascii "." ++ ascii "." := by
    rw [List.append_assoc]
    rfl
  have trimmed : trimSuffix (front ++ ascii "." ++ ascii ".") (ascii ".") = front ++ ascii "." :=
    trimSuffix_append _ _
  rw [shape, textLabels, trimmed, if_neg (by simp [ascii])] at fit
  exact not_dot_suffix_of_fit (List.nil_append _).symm (List.splitOn_ne_nil _ _) fit
    (List.suffix_append _ _)

/-- **A packed name is read back**, wherever in a message it stands. -/
theorem parseName_packName (fit : LabelsFit (textLabels name))
    (short : wireLength (textLabels name) ≤ maxNameLen) (front back : Bytes) :
    parseName (front ++ (encodeLabels (textLabels name) ++ 0 :: back)) front.length =
      .ok (readBack name, front.length + wireLength (textLabels name)) := by
  rw [parseName_eq_ok_iff]
  exact ⟨_, 0, nameAt_encodeLabels front back fit, by simp [maxPointerHops], short,
    (nameText_textLabels fit).symm⟩

/-! ## How long names get -/

theorem appendName_eq (buf name : Bytes) : appendName buf name = buf ++ appendName [] name := by
  unfold appendName
  cases packed : packName buf name with
  | ok out =>
      obtain ⟨fit, short, rfl⟩ := packName_eq_ok_iff.mp packed
      rw [packName_eq_ok_iff.mpr ⟨fit, short, rfl⟩]
      simp
  | error e =>
      cases packed' : packName [] name with
      | ok out =>
          obtain ⟨fit, short, -⟩ := packName_eq_ok_iff.mp packed'
          rw [packName_eq_ok_iff.mpr ⟨fit, short, rfl⟩] at packed
          cases packed
      | error e' => simp

theorem appendName_of_fit (fit : LabelsFit (textLabels name))
    (short : wireLength (textLabels name) ≤ maxNameLen) :
    appendName [] name = encodeLabels (textLabels name) ++ [0] := by
  simp only [appendName, packName_eq_ok_iff.mpr ⟨fit, short, rfl⟩, List.nil_append]

theorem length_appendName_pos (name : Bytes) : 0 < (appendName [] name).length := by
  unfold appendName
  cases packed : packName [] name with
  | ok out =>
      obtain ⟨-, -, rfl⟩ := packName_eq_ok_iff.mp packed
      simp
  | error e => simp

/-- A written name takes at most 255 octets. -/
theorem length_appendName_le (name : Bytes) : (appendName [] name).length ≤ maxNameLen := by
  unfold appendName
  cases packed : packName [] name with
  | ok out =>
      obtain ⟨-, short, rfl⟩ := packName_eq_ok_iff.mp packed
      have size := length_encodeLabels (textLabels name)
      simp only [List.nil_append, List.length_append, List.length_singleton]
      omega
  | error e => simp [maxNameLen]

end ShardDNS.DNS

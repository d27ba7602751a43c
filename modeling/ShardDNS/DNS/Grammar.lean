import ShardDNS.DNS.MessageCodec

/-!
# The grammar of messages

Names, questions, records and messages as they stand in a buffer, apart from any
reader. A name is a derivation of `NameAt` within the limits (`NameIn`); a question
and a record are a name and what follows it (`QuestionAt`, `RecordAt`); a section is
as many of them in a row as the header announces (`Row`), and a message is its header
and its four sections (`MessageAt`).

The readers accept exactly this grammar (`parseName_grammar`, `parseMessage_eq_ok_iff`),
so the tests that `ParseMessage` makes on the counts before it reads a section refuse
nothing that the loops behind them would read: a name takes at least one octet where it
stands, however much of it a compression pointer leaves to another place
(`NameAt.bounds`), and so a question takes at least 5 octets and a record 11. None of
the accesses is out of range, and no loop runs on (`parseMessage_no_fault`).
-/

set_option autoImplicit false

namespace ShardDNS.DNS

open Go LabelTree

/-! ## Where a name ends -/

variable {buf : Bytes} {names : List Bytes} {off stop : Nat}

/-- A name ends after its offset and inside the buffer. -/
theorem NameAt.bounds {hops : Nat} (name : NameAt buf off names stop hops) :
    off < stop ∧ stop ≤ buf.length := by
  induction name with
  | root zero =>
      have inside := (List.getElem?_eq_some_iff.mp zero).1
      omega
  | label here positive small inside rest ih => omega
  | pointer here large next rest ih =>
      have inside := (List.getElem?_eq_some_iff.mp next).1
      omega

/-- **The end of a name is where its octets end at its own place**: behind the first
pointer that is followed, or behind the zero octet when none is. -/
theorem NameAt.end {hops : Nat} (name : NameAt buf off names stop hops) :
    (hops = 0 ∧ stop = off + wireLength names ∧ buf[stop - 1]? = some 0) ∨
      (0 < hops ∧ ∃ front back b, names = front ++ back ∧ stop = off + wireLength front + 1 ∧
        buf[stop - 2]? = some b ∧ 192 ≤ b.toNat) := by
  induction name with
  | root zero => exact .inl ⟨rfl, rfl, zero⟩
  | @label off b rest stop hops here positive small inside _ ih =>
      have width : ((buf.drop (off + 1)).take b.toNat).length = b.toNat := by
        rw [List.length_take, List.length_drop]
        omega
      rcases ih with ⟨plain, place, zero⟩ | ⟨jumps, front, back, c, rfl, place, pointer, large⟩
      · refine .inl ⟨plain, ?_, zero⟩
        rw [wireLength_cons, width]
        omega
      · refine .inr ⟨jumps, _ :: front, back, c, rfl, ?_, pointer, large⟩
        rw [wireLength_cons, width]
        omega
  | @pointer off b c names stop hops here large next _ ih =>
      exact .inr ⟨Nat.succ_pos _, [], names, b, rfl, rfl, here, large⟩

/-! ## The loop over a name -/

/-- An access out of range, or a loop that does not end. -/
def NameError.IsFault (e : NameError) : Prop := e = .outOfRange ∨ e = .diverged

theorem parseNameStep_no_fault (buf : Bytes) (s : NameState) :
    Avoids NameError.IsFault (parseNameStep buf s) := by
  have mild : ∀ e : NameError, e ≠ .outOfRange → e ≠ .diverged → ¬ e.IsFault := by
    intro e inRange ended fault
    rcases fault with fault | fault
    · exact inRange fault
    · exact ended fault
  unfold parseNameStep
  split
  · exact avoids_error (mild _ (by decide) (by decide))
  · obtain ⟨b, here⟩ : ∃ b, buf[s.next]? = some b := ⟨_, List.getElem?_eq_getElem (by omega)⟩
    rw [index_eq_ok here, ok_bind]
    split
    · split
      · exact avoids_ok _
      · split
        · exact avoids_error (mild _ (by decide) (by decide))
        · split
          · exact avoids_error (mild _ (by decide) (by decide))
          · split
            · exact avoids_error (mild _ (by decide) (by decide))
            · rw [slice_eq_ok (by omega) (by omega)]
              exact avoids_ok _
    · split
      · split
        · exact avoids_error (mild _ (by decide) (by decide))
        · obtain ⟨c, next⟩ : ∃ c, buf[s.next + 1]? = some c :=
            ⟨_, List.getElem?_eq_getElem (by omega)⟩
          rw [index_eq_ok next, ok_bind]
          split
          · exact avoids_error (mild _ (by decide) (by decide))
          · exact avoids_ok _
      · exact avoids_error (mild _ (by decide) (by decide))

/-- A pass that goes on has used up room for labels or a pointer. -/
theorem budget_parseNameStep {s s' : NameState} (passed : parseNameStep buf s = .ok (.inl s')) :
    s'.budget < s.budget := by
  rcases parseNameStep_cases passed with ⟨-, equal⟩ | ⟨b, -, positive, -, inside, fits, equal⟩ |
      ⟨b, c, -, -, -, fits, equal⟩
  · cases equal
  · obtain rfl := Sum.inl.inj equal
    have width : ((buf.drop (s.next + 1)).take b.toNat).length = b.toNat := by
      rw [List.length_take, List.length_drop]
      omega
    simp only [NameState.budget, NameState.afterLabel, width]
    omega
  · obtain rfl := Sum.inl.inj equal
    simp only [NameState.budget, NameState.afterPointer]
    omega

/-- With more passes than its budget the loop ends by itself. -/
theorem parseNameLoop_no_fault {fuel : Nat} {s : NameState} (enough : s.budget < fuel) :
    Avoids NameError.IsFault (parseNameLoop buf fuel s) := by
  induction fuel generalizing s with
  | zero => omega
  | succ fuel ih =>
      unfold parseNameLoop
      cases passed : parseNameStep buf s with
      | error e => exact avoids_error (parseNameStep_no_fault buf s e passed)
      | ok result =>
          cases result with
          | inl s' =>
              have less := budget_parseNameStep passed
              exact ih (by omega)
          | inr result => exact avoids_ok _

/-- Passes beyond the budget are not made. -/
theorem parseNameLoop_of_enough {fuel fuel' : Nat} {s : NameState} (enough : s.budget < fuel)
    (enough' : s.budget < fuel') : parseNameLoop buf fuel s = parseNameLoop buf fuel' s := by
  induction fuel generalizing fuel' s with
  | zero => omega
  | succ fuel ih =>
      cases fuel' with
      | zero => omega
      | succ fuel' =>
          unfold parseNameLoop
          cases passed : parseNameStep buf s with
          | error e => rfl
          | ok result =>
              cases result with
              | inr result => rfl
              | inl s' =>
                  have less := budget_parseNameStep passed
                  exact ih (by omega) (by omega)

theorem budget_start (off : Nat) : NameState.budget { next := off } < nameLoopBound := by
  simp [NameState.budget, nameLoopBound, maxPointerHops, maxNameLen]

theorem parseName_no_fault (buf : Bytes) (off : Nat) :
    Avoids NameError.IsFault (parseName buf off) :=
  parseNameLoop_no_fault (budget_start off)

/-- The name `text` stands at `off`, within the limits, and ends at `stop`. -/
def NameIn (buf : Bytes) (off : Nat) (text : Bytes) (stop : Nat) : Prop :=
  ∃ names hops, NameAt buf off names stop hops ∧ hops ≤ maxPointerHops ∧
    wireLength names ≤ maxNameLen ∧ text = nameText names

theorem parseName_eq_ok_iff_nameIn {text : Bytes} :
    parseName buf off = .ok (text, stop) ↔ NameIn buf off text stop :=
  parseName_eq_ok_iff

theorem NameIn.bounds {text : Bytes} (name : NameIn buf off text stop) :
    off < stop ∧ stop ≤ buf.length := by
  obtain ⟨names, hops, nameAt, -⟩ := name
  exact nameAt.bounds

/-- The text of labels on the wire is the labels joined by dots. -/
theorem NameAt.text {hops : Nat} (name : NameAt buf off names stop hops) :
    nameText names = if names = [] then ascii "." else [dot].intercalate names := by
  cases names with
  | nil => rfl
  | cons label rest =>
      have positive := (name.label_length label (by simp)).1
      rw [nameText_cons (List.length_pos_iff.mp positive), if_neg (by simp)]

/-- **`ParseName` decodes exactly the grammar of compressed names**, at every offset of
every buffer: it ends, within `nameLoopBound` passes, without an access out of range;
it succeeds if and only if a name of at most 255 octets that follows at most 16
pointers stands at the offset; and it returns the labels joined by dots, and the end
of the name at its own place. -/
theorem parseName_grammar (buf : Bytes) (off : Nat) :
    ((∀ fuel, nameLoopBound ≤ fuel →
        parseNameLoop buf fuel { next := off } = parseName buf off) ∧
      parseName buf off ≠ .error .diverged ∧ parseName buf off ≠ .error .outOfRange) ∧
    ((∃ result, parseName buf off = .ok result) ↔
      ∃ names stop hops, NameAt buf off names stop hops ∧ hops ≤ 16 ∧ wireLength names ≤ 255) ∧
    ∀ text stop, parseName buf off = .ok (text, stop) →
      off < stop ∧ stop ≤ buf.length ∧
      ∃ names hops, NameAt buf off names stop hops ∧
        text = (if names = [] then ascii "." else [dot].intercalate names) ∧
        ((hops = 0 ∧ stop = off + wireLength names ∧ buf[stop - 1]? = some 0) ∨
          (0 < hops ∧ ∃ front back b, names = front ++ back ∧ stop = off + wireLength front + 1 ∧
            buf[stop - 2]? = some b ∧ 192 ≤ b.toNat)) := by
  refine ⟨⟨?_, ?_, ?_⟩, ⟨?_, ?_⟩, ?_⟩
  · intro fuel enough
    exact parseNameLoop_of_enough (Nat.lt_of_lt_of_le (budget_start off) enough)
      (budget_start off)
  · intro diverged
    exact parseName_no_fault buf off _ diverged (.inr rfl)
  · intro outOfRange
    exact parseName_no_fault buf off _ outOfRange (.inl rfl)
  · rintro ⟨⟨text, stop⟩, read⟩
    obtain ⟨names, hops, name, few, short, -⟩ := parseName_eq_ok_iff.mp read
    exact ⟨names, stop, hops, name, few, short⟩
  · rintro ⟨names, stop, hops, name, few, short⟩
    exact ⟨_, parseName_eq_ok_iff.mpr ⟨names, hops, name, few, short, rfl⟩⟩
  · intro text stop read
    obtain ⟨names, hops, name, -, -, rfl⟩ := parseName_eq_ok_iff.mp read
    exact ⟨name.bounds.1, name.bounds.2, names, hops, name, name.text, name.end⟩

/-! ## Elements in a row -/

section Row

variable {α : Type} {At : Nat → α → Nat → Prop}

/-- Elements that stand one behind the other from an offset, and the offset behind
them. -/
inductive Row (At : Nat → α → Nat → Prop) : Nat → List α → Nat → Prop where
  | nil {off : Nat} : Row At off [] off
  | cons {off mid stop : Nat} {a : α} {rest : List α} :
      At off a mid → Row At mid rest stop → Row At off (a :: rest) stop

/-- Elements of a least size take their number times that size. -/
theorem Row.size {least : Nat} (wide : ∀ off a stop, At off a stop → off + least ≤ stop)
    {elements : List α} (row : Row At off elements stop) :
    off + elements.length * least ≤ stop := by
  induction row with
  | nil => simp
  | cons element _ ih =>
      have here := wide _ _ _ element
      rw [List.length_cons, Nat.add_one_mul]
      omega

/-- A row stays inside what each of its elements stays inside. -/
theorem Row.inside {bound : Nat} (within : ∀ off a stop, At off a stop → stop ≤ bound)
    {elements : List α} (row : Row At off elements stop) (start : off ≤ bound) : stop ≤ bound := by
  induction row with
  | nil => exact start
  | cons element _ ih => exact ih (within _ _ _ element)

end Row

/-! ## Questions and records -/

/-- The question at an offset: a name, a type and a class. -/
def QuestionAt (buf : Bytes) (off : Nat) (q : Question) (stop : Nat) : Prop :=
  ∃ next back, NameIn buf off q.name next ∧
    buf.drop next = putUint16 q.type ++ (putUint16 q.cls ++ back) ∧ stop = next + 4

/-- The record at an offset: a name, the fixed fields, and the slice of the buffer that
the last of them gives the length of. -/
def RecordAt (buf : Bytes) (off : Nat) (rr : RR) (stop : Nat) : Prop :=
  ∃ (next : Nat) (rdlen : UInt16) (back : Bytes), NameIn buf off rr.name next ∧
    buf.drop next = putUint16 rr.type ++ (putUint16 rr.cls ++ (putUint32 rr.ttl ++
      (putUint16 rdlen ++ back))) ∧
    next + 10 + rdlen.toNat ≤ buf.length ∧
    rr.rdata = (buf.drop (next + 10)).take rdlen.toNat ∧ stop = next + 10 + rdlen.toNat

theorem QuestionAt.size {q : Question} (question : QuestionAt buf off q stop) : off + 5 ≤ stop := by
  obtain ⟨next, back, name, -, rfl⟩ := question
  have room := name.bounds
  omega

theorem QuestionAt.inside {q : Question} (question : QuestionAt buf off q stop) :
    stop ≤ buf.length := by
  obtain ⟨next, back, -, fixed, rfl⟩ := question
  rw [← List.append_assoc] at fixed
  have size := length_of_drop fixed (by simp)
  rw [List.length_append, length_putUint16, length_putUint16] at size
  omega

theorem RecordAt.size {rr : RR} (record : RecordAt buf off rr stop) : off + 11 ≤ stop := by
  obtain ⟨next, rdlen, back, name, -, -, -, rfl⟩ := record
  have room := name.bounds
  omega

theorem RecordAt.inside {rr : RR} (record : RecordAt buf off rr stop) : stop ≤ buf.length := by
  obtain ⟨next, rdlen, back, -, -, within, -, rfl⟩ := record
  exact within

/-! ## The loops read rows -/

theorem parseQuestions_eq_ok_iff {count : Nat} {questions : List Question} :
    parseQuestions buf count off = .ok (questions, stop) ↔
      Row (QuestionAt buf) off questions stop ∧ questions.length = count := by
  constructor
  · intro read
    induction count generalizing off questions with
    | zero =>
        cases read
        exact ⟨.nil, rfl⟩
    | succ count ih =>
        simp only [parseQuestions, bind_eq_ok, mapError_eq_ok, Prod.exists] at read
        obtain ⟨name, next, named, read⟩ := read
        split at read
        · cases read
        · simp only [bind_eq_ok, uint16At_eq_ok_iff, Prod.exists, Except.ok.injEq,
            Prod.mk.injEq] at read
          obtain ⟨type, ⟨back, atType⟩, cls, ⟨rest, atClass⟩, tail, fin, tailRead, rfl, rfl⟩ := read
          obtain ⟨row, counted⟩ := ih tailRead
          have moved := drop_advance atType
          rw [length_putUint16, atClass] at moved
          refine ⟨.cons ⟨next, rest, parseName_eq_ok_iff_nameIn.mp named, ?_, rfl⟩ row,
            by rw [List.length_cons, counted]⟩
          rw [atType, moved]
  · rintro ⟨row, rfl⟩
    induction row with
    | nil => rfl
    | cons question _ ih =>
        have inside := question.inside
        obtain ⟨next, back, name, fixed, rfl⟩ := question
        have atClass := drop_advance fixed
        rw [length_putUint16] at atClass
        simp only [List.length_cons, parseQuestions, parseName_eq_ok_iff_nameIn.mpr name,
          mapError_ok, ok_bind]
        rw [if_neg (Nat.not_lt.mpr inside), uint16At_of_drop fixed, uint16At_of_drop atClass, ih]
        rfl

theorem parseRRs_eq_ok_iff {count : Nat} {rrs : List RR} :
    parseRRs buf count off = .ok (rrs, stop) ↔
      Row (RecordAt buf) off rrs stop ∧ rrs.length = count := by
  constructor
  · intro read
    induction count generalizing off rrs with
    | zero =>
        cases read
        exact ⟨.nil, rfl⟩
    | succ count ih =>
        simp only [parseRRs, bind_eq_ok, mapError_eq_ok, Prod.exists] at read
        obtain ⟨name, next, named, read⟩ := read
        split at read
        · cases read
        · simp only [bind_eq_ok, uint16At_eq_ok_iff, uint32At_eq_ok_iff] at read
          obtain ⟨type, ⟨_, atType⟩, cls, ⟨_, atClass⟩, ttl, ⟨_, atTTL⟩, rdlen, ⟨back, atLength⟩,
            read⟩ := read
          split at read
          · cases read
          · rename_i within
            rw [slice_eq_ok (by omega) (by omega)] at read
            simp only [bind_eq_ok, Prod.exists, Except.ok.injEq, Prod.mk.injEq] at read
            obtain ⟨rdata, rfl, tail, fin, tailRead, rfl, rfl⟩ := read
            obtain ⟨row, counted⟩ := ih tailRead
            have class' := drop_advance atType
            have ttl' := drop_advance atClass
            have length' := drop_advance atTTL
            simp only [length_putUint16, length_putUint32, Nat.add_assoc, Nat.reduceAdd]
              at class' ttl' length' atClass atTTL atLength
            refine ⟨.cons ⟨next, rdlen, back, parseName_eq_ok_iff_nameIn.mp named, ?_,
              Nat.not_lt.mp within, ?_, rfl⟩ row, by rw [List.length_cons, counted]⟩
            · rw [atType, ← class', atClass, ← ttl', atTTL, ← length', atLength]
            · rw [Nat.add_sub_cancel_left]
  · rintro ⟨row, rfl⟩
    induction row with
    | nil => rfl
    | cons record _ ih =>
        obtain ⟨next, rdlen, back, name, fixed, within, data, rfl⟩ := record
        have atClass := drop_advance fixed
        have atTTL := drop_advance atClass
        have atLength := drop_advance atTTL
        simp only [length_putUint16, length_putUint32, Nat.add_assoc, Nat.reduceAdd]
          at atClass atTTL atLength
        simp only [List.length_cons, parseRRs, parseName_eq_ok_iff_nameIn.mpr name,
          mapError_ok, ok_bind]
        rw [if_neg (by omega), uint16At_of_drop fixed, uint16At_of_drop atClass,
          uint32At_of_drop atTTL, uint16At_of_drop atLength]
        simp only [ok_bind]
        rw [if_neg (Nat.not_lt.mpr within), slice_eq_ok (by omega) within, Nat.add_sub_cancel_left]
        simp only [ok_bind, ih, ← data]

/-- A section is a row of as many records as its count says: a count the test refuses
is one the buffer cannot hold. -/
theorem parseRRSection_eq_ok_iff {count : UInt16} {rrs : List RR} :
    parseRRSection buf off count = .ok (rrs, stop) ↔
      Row (RecordAt buf) off rrs stop ∧ rrs.length = count.toNat := by
  unfold parseRRSection
  split
  · rename_i zero
    rw [← parseRRs_eq_ok_iff, zero]
    rfl
  · rename_i nonzero
    split
    · rename_i few
      simp only [reduceCtorEq, false_iff, not_and]
      intro row counted
      have wide := row.size fun _ _ _ record => record.size
      cases row with
      | nil => exact nonzero (UInt16.toNat_inj.mp counted.symm)
      | cons record rest =>
          have within := rest.inside (fun _ _ _ record => record.inside) record.inside
          rw [counted] at wide
          omega
    · exact parseRRs_eq_ok_iff

/-! ## No access is out of range -/

def SectionError.IsFault : SectionError → Prop
  | .outOfRange => True
  | .name e => e.IsFault
  | _ => False

def ParseError.IsFault : ParseError → Prop
  | .outOfRange => True
  | .questionName e => e.IsFault
  | .answers e | .authority e | .additional e => e.IsFault
  | _ => False

theorem parseQuestions_no_fault (buf : Bytes) (count off : Nat) :
    Avoids ParseError.IsFault (parseQuestions buf count off) := by
  induction count generalizing off with
  | zero => exact avoids_ok _
  | succ count ih =>
      refine Avoids.bind ((parseName_no_fault buf off).mapError fun _ fault => fault) ?_
      rintro ⟨name, next⟩ -
      dsimp only
      split
      · exact avoids_error id
      · refine Avoids.bind (avoids_uint16At (by omega)) fun type _ => ?_
        refine Avoids.bind (avoids_uint16At (by omega)) fun cls _ => ?_
        exact Avoids.bind (ih (next + 4)) fun _ _ => avoids_ok _

theorem parseRRs_no_fault (buf : Bytes) (count off : Nat) :
    Avoids SectionError.IsFault (parseRRs buf count off) := by
  induction count generalizing off with
  | zero => exact avoids_ok _
  | succ count ih =>
      refine Avoids.bind ((parseName_no_fault buf off).mapError fun _ fault => fault) ?_
      rintro ⟨name, next⟩ -
      dsimp only
      split
      · exact avoids_error id
      · refine Avoids.bind (avoids_uint16At (by omega)) fun type _ => ?_
        refine Avoids.bind (avoids_uint16At (by omega)) fun cls _ => ?_
        refine Avoids.bind (avoids_uint32At (by omega)) fun ttl _ => ?_
        refine Avoids.bind (avoids_uint16At (by omega)) fun rdlen _ => ?_
        split
        · exact avoids_error id
        · rw [slice_eq_ok (by omega) (by omega), ok_bind]
          exact Avoids.bind (ih _) fun _ _ => avoids_ok _

theorem parseRRSection_no_fault (buf : Bytes) (off : Nat) (count : UInt16) :
    Avoids SectionError.IsFault (parseRRSection buf off count) := by
  unfold parseRRSection
  split
  · exact avoids_ok _
  · split
    · exact avoids_error id
    · exact parseRRs_no_fault buf count.toNat off

/-- **No input makes the parser leave its buffer or run on.** -/
theorem parseMessage_no_fault (buf : Bytes) : Avoids ParseError.IsFault (parseMessage buf) := by
  unfold parseMessage
  split
  · exact avoids_error id
  · refine Avoids.bind (avoids_uint16At (by omega)) fun id _ => ?_
    refine Avoids.bind (avoids_uint16At (by omega)) fun flags _ => ?_
    refine Avoids.bind (avoids_uint16At (by omega)) fun qdCount _ => ?_
    refine Avoids.bind (avoids_uint16At (by omega)) fun anCount _ => ?_
    refine Avoids.bind (avoids_uint16At (by omega)) fun nsCount _ => ?_
    refine Avoids.bind (avoids_uint16At (by omega)) fun arCount _ => ?_
    split
    · exact avoids_error fun fault => fault
    · refine Avoids.bind (parseQuestions_no_fault buf _ _) fun _ _ => ?_
      refine Avoids.bind ((parseRRSection_no_fault buf _ _).mapError fun _ fault => fault)
        fun _ _ => ?_
      refine Avoids.bind ((parseRRSection_no_fault buf _ _).mapError fun _ fault => fault)
        fun _ _ => ?_
      exact Avoids.bind ((parseRRSection_no_fault buf _ _).mapError fun _ fault => fault)
        fun _ _ => avoids_ok _

/-! ## Messages -/

/-- The OPT records are taken out, the others keep their order, and the last OPT record
gives the EDNS0 data. -/
def Message.withAdditional (m : Message) (rrs : List RR) : Message :=
  match (rrs.filter fun rr => rr.type == typeOPT).getLast? with
  | none => { m with additional := m.additional ++ rrs.filter fun rr => rr.type != typeOPT }
  | some opt =>
      { m with
        additional := m.additional ++ rrs.filter fun rr => rr.type != typeOPT
        edns0 := true
        edns0Size := opt.cls
        edns0DO := (opt.ttl &&& 0x00008000) != 0 }

theorem additional_withAdditional (m : Message) (rrs : List RR) :
    (m.withAdditional rrs).additional = m.additional ++ rrs.filter fun rr =>
      rr.type != typeOPT := by
  unfold Message.withAdditional
  split <;> rfl

/-- The header and the other sections stay as they are. -/
theorem others_withAdditional (m : Message) (rrs : List RR) :
    (m.withAdditional rrs).toHeader = m.toHeader ∧
      (m.withAdditional rrs).questions = m.questions ∧
      (m.withAdditional rrs).answers = m.answers ∧
      (m.withAdditional rrs).authority = m.authority := by
  unfold Message.withAdditional
  split <;> exact ⟨rfl, rfl, rfl, rfl⟩

theorem foldl_filterOPT (m : Message) (rrs : List RR) :
    rrs.foldl filterOPT m = m.withAdditional rrs := by
  induction rrs generalizing m with
  | nil => simp [Message.withAdditional]
  | cons rr rrs ih =>
      rw [List.foldl_cons, ih, filterOPT]
      split
      · rename_i opt
        simp only [Message.withAdditional, List.filter_cons, opt, beq_self_eq_true, if_true,
          bne_self_eq_false, Bool.false_eq_true, if_false, List.getLast?_cons]
        cases (rrs.filter fun rr => rr.type == typeOPT).getLast? with
        | none => rfl
        | some last => rfl
      · rename_i other
        simp only [Message.withAdditional, List.filter_cons, beq_eq_false_iff_ne.mpr other,
          bne_iff_ne.mpr other, if_true, Bool.false_eq_true, if_false, List.append_assoc,
          List.singleton_append]

/-- The sections behind a header: as many questions and records as it counts, one behind
the other. -/
structure SectionsAt (buf : Bytes) (h : Header) (questions : List Question)
    (answers authority additional : List RR) : Prop where
  rows : ∃ off₁ off₂ off₃ off₄, Row (QuestionAt buf) 12 questions off₁ ∧
    Row (RecordAt buf) off₁ answers off₂ ∧ Row (RecordAt buf) off₂ authority off₃ ∧
      Row (RecordAt buf) off₃ additional off₄
  qdCount : questions.length = h.qdCount.toNat
  anCount : answers.length = h.anCount.toNat
  nsCount : authority.length = h.nsCount.toNat
  arCount : additional.length = h.arCount.toNat

/-- The loops of `ParseMessage` alone, one after the other, without its tests on the
counts. -/
def decodeSections (buf : Bytes) (h : Header) :
    Except ParseError (List Question × List RR × List RR × List RR) := do
  let (questions, off) ← parseQuestions buf h.qdCount.toNat 12
  let (answers, off) ← (parseRRs buf h.anCount.toNat off).mapError .answers
  let (authority, off) ← (parseRRs buf h.nsCount.toNat off).mapError .authority
  let (additional, _) ← (parseRRs buf h.arCount.toNat off).mapError .additional
  .ok (questions, answers, authority, additional)

theorem decodeSections_eq_ok_iff {h : Header} {questions : List Question}
    {answers authority additional : List RR} :
    decodeSections buf h = .ok (questions, answers, authority, additional) ↔
      SectionsAt buf h questions answers authority additional := by
  simp only [decodeSections, bind_eq_ok, mapError_eq_ok, Prod.exists, parseQuestions_eq_ok_iff,
    parseRRs_eq_ok_iff, Except.ok.injEq, Prod.mk.injEq]
  constructor
  · rintro ⟨_, off₁, ⟨row₁, count₁⟩, _, off₂, ⟨row₂, count₂⟩, _, off₃, ⟨row₃, count₃⟩, _, off₄,
      ⟨row₄, count₄⟩, rfl, rfl, rfl, rfl⟩
    exact ⟨⟨off₁, off₂, off₃, off₄, row₁, row₂, row₃, row₄⟩, count₁, count₂, count₃, count₄⟩
  · rintro ⟨⟨off₁, off₂, off₃, off₄, row₁, row₂, row₃, row₄⟩, count₁, count₂, count₃, count₄⟩
    exact ⟨_, off₁, ⟨row₁, count₁⟩, _, off₂, ⟨row₂, count₂⟩, _, off₃, ⟨row₃, count₃⟩, _, off₄,
      ⟨row₄, count₄⟩, rfl, rfl, rfl, rfl⟩

/-- Every record of the sections stands somewhere in the buffer. -/
theorem Row.exists_at {α : Type} {At : Nat → α → Nat → Prop} {elements : List α}
    (row : Row At off elements stop) : ∀ a ∈ elements, ∃ start fin, At start a fin := by
  induction row with
  | nil => simp
  | cons element _ ih =>
      intro a member
      rcases List.mem_cons.mp member with rfl | member
      · exact ⟨_, _, element⟩
      · exact ih a member

/-- **The parser reads exactly the messages of the grammar.** -/
theorem parseMessage_eq_ok_iff {m : Message} :
    parseMessage buf = .ok m ↔
      ∃ (h : Header) (back : Bytes) (questions : List Question)
        (answers authority additional : List RR),
        buf = ({ toHeader := h } : Message).header ++ back ∧
        SectionsAt buf h questions answers authority additional ∧
        m = ({ toHeader := h, questions := questions, answers := answers,
                authority := authority } : Message).withAdditional additional := by
  constructor
  · intro read
    unfold parseMessage at read
    split at read
    · cases read
    · simp only [bind_eq_ok, uint16At_eq_ok_iff] at read
      obtain ⟨id, ⟨_, atID⟩, flags, ⟨_, atFlags⟩, qdCount, ⟨_, atQD⟩, anCount, ⟨_, atAN⟩, nsCount,
        ⟨_, atNS⟩, arCount, ⟨back, atAR⟩, read⟩ := read
      split at read
      · cases read
      · simp only [bind_eq_ok, mapError_eq_ok, Prod.exists, parseQuestions_eq_ok_iff,
          parseRRSection_eq_ok_iff, foldl_filterOPT, Except.ok.injEq] at read
        obtain ⟨questions, off₁, ⟨row₁, count₁⟩, answers, off₂, ⟨row₂, count₂⟩, authority, off₃,
          ⟨row₃, count₃⟩, additional, off₄, ⟨row₄, count₄⟩, rfl⟩ := read
        have flags' := drop_advance atID
        have qd' := drop_advance atFlags
        have an' := drop_advance atQD
        have ns' := drop_advance atAN
        have ar' := drop_advance atNS
        simp only [length_putUint16, Nat.zero_add, Nat.reduceAdd] at flags' qd' an' ns' ar'
        refine ⟨⟨id, flags, qdCount, anCount, nsCount, arCount⟩, back, questions, answers,
          authority, additional, ?_,
          ⟨⟨off₁, off₂, off₃, off₄, row₁, row₂, row₃, row₄⟩, count₁, count₂, count₃, count₄⟩, rfl⟩
        have whole : buf = buf.drop 0 := rfl
        rw [whole, atID, ← flags', atFlags, ← qd', atQD, ← an', atAN, ← ns', atNS, ← ar', atAR]
        simp only [Message.header, List.append_assoc]
  · rintro ⟨h, back, questions, answers, authority, additional, layout,
      ⟨⟨off₁, off₂, off₃, off₄, row₁, row₂, row₃, row₄⟩, count₁, count₂, count₃, count₄⟩, rfl⟩
    have atID : buf.drop 0 = putUint16 h.id ++ (putUint16 h.flags ++ (putUint16 h.qdCount ++
        (putUint16 h.anCount ++ (putUint16 h.nsCount ++ (putUint16 h.arCount ++ back))))) := by
      rw [List.drop_zero, layout]
      simp only [Message.header, List.append_assoc]
    have atFlags := drop_advance atID
    have atQD := drop_advance atFlags
    have atAN := drop_advance atQD
    have atNS := drop_advance atAN
    have atAR := drop_advance atNS
    have size := length_of_drop atAR (by simp)
    simp only [length_putUint16, Nat.zero_add, Nat.reduceAdd] at atFlags atQD atAN atNS atAR size
    have wide := row₁.size fun _ _ _ question => question.size
    have within := row₁.inside (fun _ _ _ question => question.inside) (by omega)
    unfold parseMessage
    rw [if_neg (by omega), uint16At_of_drop atID, uint16At_of_drop atFlags, uint16At_of_drop atQD,
      uint16At_of_drop atAN, uint16At_of_drop atNS, uint16At_of_drop atAR]
    simp only [ok_bind]
    rw [if_neg (by omega), parseQuestions_eq_ok_iff.mpr ⟨row₁, count₁⟩]
    simp only [ok_bind]
    rw [parseRRSection_eq_ok_iff.mpr ⟨row₂, count₂⟩]
    simp only [mapError_ok, ok_bind]
    rw [parseRRSection_eq_ok_iff.mpr ⟨row₃, count₃⟩]
    simp only [mapError_ok, ok_bind]
    rw [parseRRSection_eq_ok_iff.mpr ⟨row₄, count₄⟩]
    simp only [mapError_ok, ok_bind, foldl_filterOPT]

/-- **Parsing is safe, and the tests on the counts refuse nothing the loops would
accept.** For every byte string no access of the three parsers is out of range; a message
is accepted if and only if the questions and records its header counts can be decoded one
after the other; and what is returned has as many questions, answers and authority
records as the header says, the additional ones without the OPT records in their order,
and in each record the slice of the buffer that its length field names. -/
theorem parseMessage_exact (buf : Bytes) :
    (Avoids ParseError.IsFault (parseMessage buf) ∧
      (∀ off count, Avoids SectionError.IsFault (parseRRSection buf off count)) ∧
      ∀ off, Avoids NameError.IsFault (parseName buf off)) ∧
    ((∃ m, parseMessage buf = .ok m) ↔
      ∃ (h : Header) (back : Bytes), buf = ({ toHeader := h } : Message).header ++ back ∧
        ∃ sections, decodeSections buf h = .ok sections) ∧
    ∀ m, parseMessage buf = .ok m →
      (∃ back, buf = m.header ++ back) ∧
      m.questions.length = m.qdCount.toNat ∧ m.answers.length = m.anCount.toNat ∧
      m.authority.length = m.nsCount.toNat ∧
      (∃ rrs, decodeSections buf m.toHeader = .ok (m.questions, m.answers, m.authority, rrs) ∧
        rrs.length = m.arCount.toNat ∧
        m.additional = (rrs.filter fun rr => rr.type != typeOPT) ∧
        m.additional.length + (rrs.filter fun rr => rr.type == typeOPT).length =
          m.arCount.toNat) ∧
      ∀ rr ∈ m.answers ++ m.authority ++ m.additional, ∃ off stop, RecordAt buf off rr stop := by
  refine ⟨⟨parseMessage_no_fault buf, parseRRSection_no_fault buf, parseName_no_fault buf⟩,
    ⟨?_, ?_⟩, ?_⟩
  · rintro ⟨m, read⟩
    obtain ⟨h, back, questions, answers, authority, additional, layout, sections, -⟩ :=
      parseMessage_eq_ok_iff.mp read
    exact ⟨h, back, layout, _, decodeSections_eq_ok_iff.mpr sections⟩
  · rintro ⟨h, back, layout, ⟨questions, answers, authority, additional⟩, decoded⟩
    exact ⟨_, parseMessage_eq_ok_iff.mpr ⟨h, back, questions, answers, authority, additional,
      layout, decodeSections_eq_ok_iff.mp decoded, rfl⟩⟩
  · intro m read
    obtain ⟨h, back, questions, answers, authority, additional, layout, sections, same⟩ :=
      parseMessage_eq_ok_iff.mp read
    obtain ⟨rfl, rfl, rfl, rfl⟩ : m.toHeader = h ∧ m.questions = questions ∧ m.answers = answers ∧
        m.authority = authority := by
      rw [same]
      exact others_withAdditional _ _
    have kept : m.additional = additional.filter fun rr => rr.type != typeOPT := by
      rw [same, additional_withAdditional, List.nil_append]
    refine ⟨⟨back, layout⟩, sections.qdCount, sections.anCount, sections.nsCount,
      ⟨additional, decodeSections_eq_ok_iff.mpr sections, sections.arCount, kept, ?_⟩, ?_⟩
    · rw [kept, ← sections.arCount, Nat.add_comm]
      exact (List.length_eq_length_filter_add _).symm
    · obtain ⟨off₁, off₂, off₃, off₄, -, answered, authorised, added⟩ := sections.rows
      intro rr member
      rw [kept, List.mem_append, List.mem_append, List.mem_filter] at member
      rcases member with (member | member) | ⟨member, -⟩
      · exact answered.exists_at rr member
      · exact authorised.exists_at rr member
      · exact added.exists_at rr member

end ShardDNS.DNS

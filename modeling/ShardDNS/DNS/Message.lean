import ShardDNS.Go.Encoding

/-!
# Messages

The message of `internal/dns/message.go`: header, questions, resource records
and the EDNS0 data that an OPT record carries. Header counts are fields of the
message, because a parsed message keeps those it was sent with; packing
computes them afresh.

The response code and the AA bit are read from and written to the flags word.
Writing one leaves the other alone (`aa_setRcode`, `rcode_setAA`,
`rcode_clearAA`).
-/

set_option autoImplicit false

namespace ShardDNS.DNS

open Go

/-! ## Constants -/

def typeA : UInt16 := 1
def typeNS : UInt16 := 2
def typeCNAME : UInt16 := 5
def typeSOA : UInt16 := 6
def typeHINFO : UInt16 := 13
def typePTR : UInt16 := 12
def typeMX : UInt16 := 15
def typeTXT : UInt16 := 16
def typeAAAA : UInt16 := 28
def typeSRV : UInt16 := 33
def typeNAPTR : UInt16 := 35
def typeDNAME : UInt16 := 39
def typeOPT : UInt16 := 41
def typeDS : UInt16 := 43
def typeSSHFP : UInt16 := 44
def typeRRSIG : UInt16 := 46
def typeNSEC : UInt16 := 47
def typeDNSKEY : UInt16 := 48
def typeNSEC3 : UInt16 := 50
def typeNSEC3PARAM : UInt16 := 51
def typeTLSA : UInt16 := 52
def typeCAA : UInt16 := 257
def typeIXFR : UInt16 := 251
def typeAXFR : UInt16 := 252
def typeANY : UInt16 := 255

def classIN : UInt16 := 1
def classANY : UInt16 := 255

def flagQR : UInt16 := 0x8000
def flagAA : UInt16 := 0x0400
def flagTC : UInt16 := 0x0200
def flagRD : UInt16 := 0x0100
def flagRA : UInt16 := 0x0080

def rcodeNoError : UInt16 := 0
def rcodeFormatError : UInt16 := 1
def rcodeServerFailure : UInt16 := 2
def rcodeNXDomain : UInt16 := 3
def rcodeNotImplemented : UInt16 := 4
def rcodeRefused : UInt16 := 5

def maxUDPMessageSize : Nat := 512
def maxEDNSUDPSize : Nat := 1232
def maxNameLen : Nat := 255
def maxLabelLen : Nat := 63
def maxPointerHops : Nat := 16

/-- The mnemonics of the known types. -/
def typeNames : List (UInt16 × Bytes) :=
  [(typeA, ascii "A"), (typeNS, ascii "NS"), (typeCNAME, ascii "CNAME"), (typeSOA, ascii "SOA"),
   (typeHINFO, ascii "HINFO"), (typePTR, ascii "PTR"), (typeMX, ascii "MX"),
   (typeTXT, ascii "TXT"), (typeAAAA, ascii "AAAA"), (typeSRV, ascii "SRV"),
   (typeNAPTR, ascii "NAPTR"), (typeDNAME, ascii "DNAME"), (typeOPT, ascii "OPT"),
   (typeDS, ascii "DS"), (typeSSHFP, ascii "SSHFP"), (typeRRSIG, ascii "RRSIG"),
   (typeNSEC, ascii "NSEC"), (typeDNSKEY, ascii "DNSKEY"), (typeNSEC3, ascii "NSEC3"),
   (typeNSEC3PARAM, ascii "NSEC3PARAM"), (typeTLSA, ascii "TLSA"), (typeCAA, ascii "CAA"),
   (typeAXFR, ascii "AXFR"), (typeANY, ascii "ANY")]

/-- The type codes by mnemonic; `*` is another spelling of `ANY`. -/
def typeCodes : List (Bytes × UInt16) :=
  (ascii "*", typeANY) :: typeNames.map fun entry => (entry.2, entry.1)

/-- The code of a type mnemonic, `0` when it is unknown. -/
def typeCode (name : Bytes) : UInt16 := (typeCodes.lookup (toUpper name)).getD 0

/-! ## Messages -/

structure Header where
  id : UInt16 := 0
  flags : UInt16 := 0
  qdCount : UInt16 := 0
  anCount : UInt16 := 0
  nsCount : UInt16 := 0
  arCount : UInt16 := 0
  deriving DecidableEq, Repr

structure Question where
  name : Bytes
  type : UInt16
  cls : UInt16
  deriving DecidableEq, Repr

structure RR where
  name : Bytes
  type : UInt16
  cls : UInt16
  ttl : UInt32
  rdata : Bytes
  deriving DecidableEq, Repr

structure Message extends Header where
  questions : List Question := []
  answers : List RR := []
  authority : List RR := []
  additional : List RR := []
  edns0 : Bool := false
  edns0DO : Bool := false
  edns0Size : UInt16 := 0
  deriving DecidableEq, Repr

namespace Message

def setEDNS0 (m : Message) (size : UInt16) (dnssecOK : Bool) : Message :=
  { m with
    edns0 := true
    edns0Size := if size = 0 then UInt16.ofNat maxEDNSUDPSize else size
    edns0DO := dnssecOK }

/-- The largest datagram the message may be sent in, by its own EDNS0 data. -/
def udpSize (m : Message) : Nat :=
  if !m.edns0 then maxUDPMessageSize
  else if m.edns0Size.toNat < maxUDPMessageSize then maxUDPMessageSize
  else if maxEDNSUDPSize < m.edns0Size.toNat then maxEDNSUDPSize
  else m.edns0Size.toNat

def setRcode (m : Message) (rcode : UInt16) : Message :=
  { m with flags := (m.flags &&& ~~~0x000F) ||| (rcode &&& 0x0F) }

def rcode (m : Message) : UInt16 := m.flags &&& 0x000F

def opcode (m : Message) : UInt16 := (m.flags >>> 11) &&& 0x0F

/-- `m.Flags |= FlagAA`. -/
def setAA (m : Message) : Message := { m with flags := m.flags ||| flagAA }

/-- `m.Flags &^= FlagAA`. -/
def clearAA (m : Message) : Message := { m with flags := m.flags &&& ~~~flagAA }

/-- The AA bit. -/
def aa (m : Message) : Bool := (m.flags &&& flagAA) != 0

/-- The response a handler starts from: the request's ID, opcode, RD bit and
questions, and an OPT record of the server's own size when the request had one. -/
def newResponse (req : Message) : Message :=
  let resp : Message :=
    { id := req.id
      flags := flagQR ||| (req.flags &&& flagRD) ||| (req.flags &&& ((0x0F : UInt16) <<< 11))
      questions := req.questions }
  if req.edns0 then resp.setEDNS0 (UInt16.ofNat maxEDNSUDPSize) req.edns0DO else resp

/-! ## Flags -/

theorem or_and_mask (a b mask : UInt16) : (a ||| b) &&& mask = (a &&& mask) ||| (b &&& mask) := by
  apply UInt16.toBitVec_inj.mp
  ext i
  simp [Bool.and_or_distrib_right]

/-- A part of the flags that lies under one mask is invisible under a disjoint one. -/
theorem and_and_of_disjoint (f : UInt16) {first second : UInt16} (disjoint : first &&& second = 0) :
    f &&& first &&& second = 0 := by
  rw [UInt16.and_assoc, disjoint, UInt16.and_zero]

/-- Clearing bits outside a mask leaves what the mask shows. -/
theorem and_and_of_subset (f : UInt16) {first second : UInt16}
    (subset : first &&& second = second) :
    f &&& first &&& second = f &&& second := by
  rw [UInt16.and_assoc, subset]

@[simp] theorem rcode_setRcode (m : Message) (rcode : UInt16) :
    (m.setRcode rcode).rcode = rcode &&& 0x0F := by
  simp only [Message.rcode, setRcode, or_and_mask]
  rw [and_and_of_disjoint m.flags (by decide), and_and_of_subset rcode (by decide), UInt16.zero_or]

@[simp] theorem aa_setRcode (m : Message) (rcode : UInt16) : (m.setRcode rcode).aa = m.aa := by
  simp only [aa, setRcode, or_and_mask]
  rw [and_and_of_subset m.flags (by decide), and_and_of_disjoint rcode (by decide),
    UInt16.or_zero]

@[simp] theorem rcode_setAA (m : Message) : m.setAA.rcode = m.rcode := by
  simp only [Message.rcode, setAA, or_and_mask]
  rw [show flagAA &&& 0x000F = 0 by decide, UInt16.or_zero]

@[simp] theorem rcode_clearAA (m : Message) : m.clearAA.rcode = m.rcode := by
  simp only [Message.rcode, clearAA]
  rw [and_and_of_subset m.flags (by decide)]

theorem and_or_self (f mask : UInt16) : (f &&& mask) ||| mask = mask := by
  apply UInt16.toBitVec_inj.mp
  ext i
  simp

@[simp] theorem aa_setAA (m : Message) : m.setAA.aa = true := by
  simp only [aa, setAA, or_and_mask, UInt16.and_self, and_or_self]
  decide

theorem flags_newResponse (req : Message) :
    (newResponse req).flags =
      flagQR ||| (req.flags &&& flagRD) ||| (req.flags &&& ((0x0F : UInt16) <<< 11)) := by
  unfold newResponse
  split <;> rfl

/-- The bits of a new response: QR, the opcode and RD. -/
theorem flags_newResponse_and {req : Message} {mask : UInt16} (covers : 0xF900 &&& mask = 0xF900) :
    (newResponse req).flags &&& mask = (newResponse req).flags := by
  have within : (newResponse req).flags &&& 0xF900 = (newResponse req).flags := by
    rw [flags_newResponse, or_and_mask, or_and_mask, UInt16.and_assoc, UInt16.and_assoc]
    rfl
  rw [← within, UInt16.and_assoc, covers]

/-- It has no other bits. -/
theorem flags_newResponse_of_disjoint (req : Message) {mask : UInt16}
    (disjoint : 0xF900 &&& mask = 0) : (newResponse req).flags &&& mask = 0 := by
  rw [← flags_newResponse_and (by decide : (0xF900 : UInt16) &&& 0xF900 = 0xF900),
    and_and_of_disjoint _ disjoint]

theorem flags_newResponse_QR (req : Message) : (newResponse req).flags &&& flagQR = flagQR := by
  rw [flags_newResponse, or_and_mask, or_and_mask, and_and_of_disjoint req.flags (by decide),
    and_and_of_disjoint req.flags (by decide)]
  decide

@[simp] theorem aa_newResponse (req : Message) : (newResponse req).aa = false := by
  rw [aa, flags_newResponse_of_disjoint req (by decide)]
  rfl

@[simp] theorem aa_clearAA (m : Message) : m.clearAA.aa = false := by
  simp only [aa, clearAA]
  rw [and_and_of_disjoint m.flags (by decide)]
  rfl

/-- The opcode is four bits of the flags. -/
theorem opcode_eq (m : Message) : m.opcode = (m.flags &&& 0x7800) >>> 11 := by
  have mask : 0x7800#16 >>> 11 = 0x000F#16 := by decide
  apply UInt16.toBitVec_inj.mp
  change m.flags.toBitVec >>> 11 &&& 0x000F#16 = (m.flags.toBitVec &&& 0x7800#16) >>> 11
  rw [BitVec.ushiftRight_and_distrib, mask]

/-- The opcode and the RD bit are the request's. -/
theorem flags_newResponse_echo (req : Message) :
    (newResponse req).flags &&& 0x7900 = req.flags &&& 0x7900 := by
  have masks : (0x7900 : UInt16) = flagRD ||| (0x0F : UInt16) <<< 11 := by decide
  have bits : ∀ f : UInt16, (f &&& flagRD ||| f &&& (0x0F : UInt16) <<< 11) = f &&& 0x7900 := by
    intro f
    rw [masks]
    apply UInt16.toBitVec_inj.mp
    ext i
    simp [Bool.and_or_distrib_left]
  rw [flags_newResponse, UInt16.or_assoc, bits, or_and_mask,
    and_and_of_subset req.flags (by decide)]
  rw [show flagQR &&& 0x7900 = 0 by decide, UInt16.zero_or]

theorem rcode_newResponse (req : Message) : (newResponse req).rcode = 0 :=
  flags_newResponse_of_disjoint req (by decide)

@[simp] theorem questions_newResponse (req : Message) :
    (newResponse req).questions = req.questions := by
  unfold newResponse
  split <;> rfl

theorem id_newResponse (req : Message) : (newResponse req).id = req.id := by
  unfold newResponse
  split <;> rfl

theorem edns0_newResponse (req : Message) : (newResponse req).edns0 = req.edns0 := by
  unfold newResponse
  cases edns0 : req.edns0 <;> rfl

theorem sections_newResponse (req : Message) : (newResponse req).answers = [] ∧
    (newResponse req).authority = [] ∧ (newResponse req).additional = [] := by
  unfold newResponse
  split <;> exact ⟨rfl, rfl, rfl⟩

end Message

end ShardDNS.DNS

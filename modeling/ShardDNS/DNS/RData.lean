import ShardDNS.DNS.NameCodec

/-!
# RDATA

`buildRData` turns the presentation text of a record into the octets of its
RDATA, one format per type; `buildSOA` writes the RDATA of a zone's SOA record.
`rdataNames` goes the other way for the types whose RDATA ends in a domain name:
it finds the name that CNAME and DNAME redirect to, and the host that NS, MX
and SRV records point to.
-/

set_option autoImplicit false

namespace ShardDNS.DNS

open Go LabelTree

/-! ## Errors -/

/-- The errors of `BuildRData`, with what they quote; an error of `PackName` comes with the
buffer returned beside it. `diverged` never occurs: the loop over quoted strings consumes its
text. -/
inductive RDataError where
  | invalidA (text : Bytes)
  | invalidAAAA (text : Bytes)
  | singleName (rtype : UInt16) (text : Bytes)
  | name (e : PackNameError) (left : Bytes)
  | fieldCount (rtype : UInt16) (text : Bytes)
  | number (what : String) (s : Bytes)
  | caaTag
  | caaValue (value : Bytes)
  | naptrReplacement
  | stringTooLong (rtype : UInt16)
  | sshfpFingerprint
  | tlsaData
  | dsDigest
  | dnskeyKey
  | unsupportedType (rtype : UInt16)
  | expectedQuoted (text : Bytes)
  | openingQuote (s : Bytes)
  | invalidEscape (digits : Bytes)
  | unterminated
  | diverged
  deriving DecidableEq, Repr

/-- The bytes that `BuildRData` returns beside an error: what `PackName` has written by then. A
slice that nothing was appended to is nil. -/
def RDataError.left : RDataError → Option Bytes
  | .name _ left => if left = [] then none else some left
  | _ => none

/-! ## Quoted strings -/

/-- The byte `"`. -/
def quote : UInt8 := 34

/-- The byte `\`. -/
def backslash : UInt8 := 92

/-- The loop of `readQuoted`, behind the opening quote: `\DDD` is a byte by its
number and `\` before any other byte is that byte. -/
def readQuotedLoop : Bytes → Bytes → Except RDataError (Bytes × Bytes)
  | _, [] => .error .unterminated
  | sb, c :: rest =>
      if c = quote then .ok (sb, rest)
      else if c = backslash then
        match rest with
        | [] => readQuotedLoop (sb ++ [c]) []
        | [x] => readQuotedLoop (sb ++ [x]) []
        | [x, y] => readQuotedLoop (sb ++ [x]) [y]
        | x :: y :: z :: rest =>
            if isDigit x ∧ isDigit y ∧ isDigit z then
              if 255 < decimalValue [x, y, z] then .error (.invalidEscape [x, y, z])
              else readQuotedLoop (sb ++ [UInt8.ofNat (decimalValue [x, y, z])]) rest
            else readQuotedLoop (sb ++ [x]) (y :: z :: rest)
      else readQuotedLoop (sb ++ [c]) rest

/-- The quoted string a text starts with, and the text after it. -/
def readQuoted (s : Bytes) : Except RDataError (Bytes × Bytes) :=
  match s with
  | [] => .error (.openingQuote s)
  | c :: rest => if c ≠ quote then .error (.openingQuote s) else readQuotedLoop [] rest

def parseQuotedLoop : Nat → Bytes → Except RDataError (List Bytes)
  | 0, _ => .error .diverged
  | fuel + 1, rest =>
      if rest = [] then .ok []
      else do
        let (s, remaining) ← readQuoted rest
        let out ← parseQuotedLoop fuel (trimSpace remaining)
        .ok (s :: out)

def parseQuotedStrings (text : Bytes) : Except RDataError (List Bytes) :=
  parseQuotedLoop (text.length + 1) (trimSpace text)

def takeQuotedLoop (text : Bytes) : Nat → Bytes → Except RDataError (List Bytes × Bytes)
  | 0, rest => .ok ([], rest)
  | n + 1, rest =>
      if hasPrefix rest [quote] then do
        let (s, remaining) ← readQuoted rest
        let (out, rest) ← takeQuotedLoop text n (trimSpace remaining)
        .ok (s :: out, rest)
      else .error (.expectedQuoted text)

def takeQuoted (text : Bytes) (n : Nat) : Except RDataError (List Bytes × Bytes) :=
  takeQuotedLoop text n (trimSpace text)

/-! ## Fields -/

/-- `parseUint`, with what the number is in its error. -/
def parseNumber (s : Bytes) (bits : Nat) (what : String) : Except RDataError Nat :=
  match parseUint s bits with
  | some v => .ok v
  | none => .error (.number what s)

/-- The text up to the first blank, and the rest. -/
def cutField (s : Bytes) : Bytes × Bytes :=
  let s := trimSpace s
  match s.findIdx? fun b => (ascii " \t").contains b with
  | none => (s, [])
  | some i => (s.take i, trimSpace (s.drop i))

/-- Strings of at most 255 bytes, each after its length. -/
def appendStrings (rtype : UInt16) : Bytes → List Bytes → Except RDataError Bytes
  | buf, [] => .ok buf
  | buf, s :: strs =>
      if 255 < s.length then .error (.stringTooLong rtype)
      else appendStrings rtype (buf ++ UInt8.ofNat s.length :: s) strs

/-- A string as a sequence of strings of at most 255 bytes. -/
def txtChunks : Nat → Bytes → Bytes
  | 0, p => UInt8.ofNat p.length :: p
  | fuel + 1, p =>
      if 255 < p.length then 255 :: p.take 255 ++ txtChunks fuel (p.drop 255)
      else UInt8.ofNat p.length :: p

def buildTXT (text : Bytes) : Except RDataError Bytes := do
  let parts ← if hasPrefix text [quote] then parseQuotedStrings text else .ok [text]
  let buf := parts.flatMap fun p => txtChunks p.length p
  .ok (if buf.length = 0 then [0] else buf)

def packNameRData (buf name : Bytes) : Except RDataError Bytes :=
  (packName buf name).mapError fun e => .name e (packNameLeft buf name)

/-! ## The formats -/

def buildA (text : Bytes) : Except RDataError Bytes :=
  match parseAddr text with
  | some (.v4 octets) => .ok octets
  | _ => .error (.invalidA text)

def buildAAAA (text : Bytes) : Except RDataError Bytes :=
  match parseAddr text with
  | some (.v6 octets) => if is4In6 octets then .error (.invalidAAAA text) else .ok octets
  | _ => .error (.invalidAAAA text)

def buildSingleName (rtype : UInt16) (text : Bytes) : Except RDataError Bytes :=
  if text = [] ∨ containsAny text (ascii " \t") then .error (.singleName rtype text)
  else packNameRData [] text

def buildMX (text : Bytes) : Except RDataError Bytes :=
  match fields text with
  | [pref, target] => do
      let pref ← parseNumber pref 16 "MX preference"
      packNameRData (putUint16 (UInt16.ofNat pref)) target
  | _ => .error (.fieldCount typeMX text)

def buildSRV (text : Bytes) : Except RDataError Bytes :=
  match fields text with
  | [priority, weight, port, target] => do
      let priority ← parseNumber priority 16 "SRV priority"
      let weight ← parseNumber weight 16 "SRV weight"
      let port ← parseNumber port 16 "SRV port"
      packNameRData
        (putUint16 (UInt16.ofNat priority) ++ putUint16 (UInt16.ofNat weight) ++
          putUint16 (UInt16.ofNat port)) target
  | _ => .error (.fieldCount typeSRV text)

def caaValue (value : Bytes) : Except RDataError Bytes :=
  if hasPrefix value [quote] then
    match parseQuotedStrings value with
    | .ok [value] => .ok value
    | _ => .error (.caaValue value)
  else .ok value

def buildCAA (text : Bytes) : Except RDataError Bytes :=
  match splitN text 32 3 with
  | [flags, tag, value] => do
      let flags ← parseNumber flags 8 "CAA flags"
      if tag = [] ∨ 255 < tag.length then .error .caaTag
      else do
        let value ← caaValue (trimSpace value)
        .ok ([UInt8.ofNat flags, UInt8.ofNat tag.length] ++ tag ++ value)
  | _ => .error (.fieldCount typeCAA text)

def buildNAPTR (text : Bytes) : Except RDataError Bytes := do
  let (orderStr, rest) := cutField text
  let (prefStr, rest) := cutField rest
  let order ← parseNumber orderStr 16 "NAPTR order"
  let pref ← parseNumber prefStr 16 "NAPTR preference"
  let (strs, remaining) ← takeQuoted rest 3
  let repl := trimSpace remaining
  if repl = [] ∨ containsAny repl (ascii " \t") then .error .naptrReplacement
  else do
    let buf ← appendStrings typeNAPTR
      (putUint16 (UInt16.ofNat order) ++ putUint16 (UInt16.ofNat pref)) strs
    packNameRData buf repl

def buildHINFO (text : Bytes) : Except RDataError Bytes :=
  match takeQuoted text 2 with
  | .ok (strs, rest) =>
      if trimSpace rest ≠ [] then .error (.fieldCount typeHINFO text)
      else appendStrings typeHINFO [] strs
  | .error _ => .error (.fieldCount typeHINFO text)

/-- Data in hexadecimal or base64, not empty. -/
def decodeData (decoded : Option Bytes) (invalid : RDataError) : Except RDataError Bytes :=
  match decoded with
  | some data => if data.length = 0 then .error invalid else .ok data
  | none => .error invalid

def buildSSHFP (text : Bytes) : Except RDataError Bytes :=
  match fields text with
  | alg :: fp :: digest :: more => do
      let alg ← parseNumber alg 8 "SSHFP algorithm"
      let fp ← parseNumber fp 8 "SSHFP fingerprint type"
      let digest ← decodeData (hexDecode (digest :: more).flatten) .sshfpFingerprint
      .ok ([UInt8.ofNat alg, UInt8.ofNat fp] ++ digest)
  | _ => .error (.fieldCount typeSSHFP text)

def buildTLSA (text : Bytes) : Except RDataError Bytes :=
  match fields text with
  | usage :: selector :: matching :: data :: more => do
      let usage ← parseNumber usage 8 "TLSA usage"
      let selector ← parseNumber selector 8 "TLSA selector"
      let matching ← parseNumber matching 8 "TLSA matching type"
      let data ← decodeData (hexDecode (data :: more).flatten) .tlsaData
      .ok ([UInt8.ofNat usage, UInt8.ofNat selector, UInt8.ofNat matching] ++ data)
  | _ => .error (.fieldCount typeTLSA text)

def buildDS (text : Bytes) : Except RDataError Bytes :=
  match fields text with
  | tag :: alg :: dt :: digest :: more => do
      let tag ← parseNumber tag 16 "DS key tag"
      let alg ← parseNumber alg 8 "DS algorithm"
      let dt ← parseNumber dt 8 "DS digest type"
      let digest ← decodeData (hexDecode (digest :: more).flatten) .dsDigest
      .ok (putUint16 (UInt16.ofNat tag) ++ [UInt8.ofNat alg, UInt8.ofNat dt] ++ digest)
  | _ => .error (.fieldCount typeDS text)

def buildDNSKEY (text : Bytes) : Except RDataError Bytes :=
  match fields text with
  | flags :: proto :: alg :: key :: more => do
      let flags ← parseNumber flags 16 "DNSKEY flags"
      let proto ← parseNumber proto 8 "DNSKEY protocol"
      let alg ← parseNumber alg 8 "DNSKEY algorithm"
      let key ← decodeData (base64Decode (key :: more).flatten) .dnskeyKey
      .ok (putUint16 (UInt16.ofNat flags) ++ [UInt8.ofNat proto, UInt8.ofNat alg] ++ key)
  | _ => .error (.fieldCount typeDNSKEY text)

/-- `BuildRData`: the RDATA of a type from its text. -/
def buildRData (rtype : UInt16) (text : Bytes) : Except RDataError Bytes :=
  let text := trimSpace text
  if rtype = typeA then buildA text
  else if rtype = typeAAAA then buildAAAA text
  else if rtype = typeNS ∨ rtype = typeCNAME ∨ rtype = typeDNAME ∨ rtype = typePTR then
    buildSingleName rtype text
  else if rtype = typeMX then buildMX text
  else if rtype = typeTXT then buildTXT text
  else if rtype = typeSRV then buildSRV text
  else if rtype = typeCAA then buildCAA text
  else if rtype = typeNAPTR then buildNAPTR text
  else if rtype = typeHINFO then buildHINFO text
  else if rtype = typeSSHFP then buildSSHFP text
  else if rtype = typeTLSA then buildTLSA text
  else if rtype = typeDS then buildDS text
  else if rtype = typeDNSKEY then buildDNSKEY text
  else .error (.unsupportedType rtype)

/-- `SupportedType`. -/
def supportedType (t : UInt16) : Bool :=
  [typeA, typeAAAA, typeNS, typeCNAME, typeDNAME, typePTR, typeMX, typeTXT, typeSRV, typeCAA,
    typeNAPTR, typeSSHFP, typeTLSA, typeDS, typeDNSKEY, typeHINFO].contains t

/-- A supported type in upper case is one of the mnemonics. -/
theorem mem_typeCodes_of_supported {t : Bytes} (upper : toUpper t = t)
    (supported : supportedType (typeCode t) = true) : (t, typeCode t) ∈ typeCodes := by
  have code : typeCode t = (typeCodes.lookup t).getD 0 := by rw [typeCode, upper]
  cases found : typeCodes.lookup t with
  | none =>
      rw [code, found] at supported
      exact absurd supported (by decide)
  | some c =>
      obtain ⟨before, after, split, -⟩ := List.lookup_eq_some_iff.mp found
      rw [code, found, split]
      exact List.mem_append_cons_self

/-- No two mnemonics have one code, but for `*` and `ANY`. -/
theorem mnemonic_unique : ∀ entry ∈ typeCodes, ∀ other ∈ typeCodes,
    supportedType entry.2 = true → entry.2 = other.2 → entry.1 = other.1 := by
  decide +kernel

/-- `BuildSOA`. -/
def buildSOA (primary admin : Bytes) (serial refresh retry expire minimum : UInt32) :
    Except PackNameError Bytes := do
  let buf ← packName [] primary
  let buf ← packName buf admin
  .ok ([serial, refresh, retry, expire, minimum].foldl (fun buf v => buf ++ putUint32 v) buf)

/-- The name at an offset of the RDATA, or nothing. -/
def nameIn (rdata : Bytes) (off : Nat) : Bytes :=
  match parseName rdata off with
  | .ok (name, _) => name
  | .error _ => []

/-- `RDataNames`: the name the RDATA points to. -/
def rdataNames (rtype : UInt16) (rdata : Bytes) : Bytes :=
  if rtype = typeNS ∨ rtype = typeCNAME ∨ rtype = typeDNAME ∨ rtype = typePTR then
    nameIn rdata 0
  else if rtype = typeMX then if 2 < rdata.length then nameIn rdata 2 else []
  else if rtype = typeSRV then if 6 < rdata.length then nameIn rdata 6 else []
  else []

end ShardDNS.DNS

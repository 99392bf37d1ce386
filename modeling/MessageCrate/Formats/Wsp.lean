import MessageCrate.Lib.Wire
import MessageCrate.Lib.Text

/- WSP value shapes and the multipart body (go-sms-mms/src/wsp.rs).

   A shape is a decoder over the bytes with a cursor. The source's `cur.data` and `cur.pos` are
   the decoder's bytes and index; `Error.offset` is its `at`.

     `Cursor::peek`, `next_byte`, `take`             ↔ `Wire.peek`, `nextByte`, `take`
     `uintvar`, `value_length`                       ↔ `uintvar`, `valueLength`
     `short_integer`, `long_integer`, `integer_value` ↔ `shortInteger`, `longInteger`, `integerValue`
     `text_string`, `encoded_string`, `decode_text`  ↔ `textString`, `encodedString`, `decodeText`
     `content_type`, its loop over the parameters    ↔ `contentType`, `paramTurn`
     `multipart`                                     ↔ `multipart`
     `part_from_headers`, its loop over the headers  ↔ `partFromHeaders`, `partTurn`

   Most values with a declared length are read alike (`lengthPrefixed`): the length, what stands
   in it, and a check that the cursor is where the length says. `content_type` has no such check.
   The decoders of lossy text are the standard library's. -/
namespace MessageCrate.Wsp

open Wire

/-- `String::from_utf8_lossy` and `String::from_utf16_lossy`. -/
structure Lossy where
  utf8 : List UInt8 → String
  utf16 : List Nat → String

/-! Numbers. -/

def u64Size : Nat := 2 ^ 64

/-- `uintvar`'s loop, and the error of one that does not end. -/
def uintvarLoop (start : Nat) : Nat → Nat → Decoder Nat
  | 0, _ => failAt start "uintvar longer than five bytes"
  | turns + 1, value => do
    let byte ← nextByte "uintvar"
    let value := value * 128 + byte.toNat % 128
    if byte.toNat < 128 then return value else uintvarLoop start turns value

def uintvar : Decoder Nat := do
  let start ← position
  uintvarLoop start 5 0

def valueLength : Decoder Nat := do
  let byte ← nextByte "value-length"
  if byte.toNat ≤ 30 then return byte.toNat
  else if byte = 31 then uintvar
  else failAt ((← position) - 1) "value-length above 31"

/-- Whether the byte has its high bit set. -/
def isHigh (b : UInt8) : Bool := 128 ≤ b.toNat

def shortInteger : Decoder UInt8 := fun data pos =>
  match data[pos]? with
  | some b => if isHigh b then .ok (b - 128, pos + 1) else fail "short-integer" data pos
  | none => fail "short-integer" data pos

/-- Big-endian bytes as a `u64`. -/
def bigEndian (bytes : List UInt8) : Nat :=
  bytes.foldl (fun acc b => (acc * 256 + b.toNat) % u64Size) 0

def longInteger : Decoder Nat := do
  let len ← nextByte "long-integer"
  if len = 0 ∨ 30 < len.toNat then
    failAt ((← position) - 1) "long-integer length outside 1 to 30"
  else
    let bytes ← take len.toNat "long-integer"
    return bigEndian bytes

def integerValue : Decoder Nat := do
  let next ← peek
  if next.any isHigh then return (← shortInteger).toNat else longInteger

/-! Text. -/

/-- Where a text starts: past a quote. -/
def textStart (data : List UInt8) (pos : Nat) : Nat :=
  if data[pos]? = some 0x7f ∨ data[pos]? = some 0x22 then pos + 1 else pos

def textString : Decoder (List UInt8) := fun data pos =>
  let start := textStart data pos
  match sliceFrom data start with
  | .error e => .error e
  | .ok rest =>
    match rest.findIdx? (· == 0) with
    | none => failAt start "text-string without a NUL" data start
    | some len =>
      match slice data start (start + len) with
      | .error e => .error e
      | .ok text => .ok (text, start + len + 1)

structure EncodedString where
  charset : Option Nat
  bytes : List UInt8
  deriving DecidableEq

/-- The check that a declared end is inside the bytes, where there is one. -/
def checkEnd (past : Option String) (start stop : Nat) : Decoder Unit := do
  match past with
  | none => return ()
  | some what => if (← size) < stop then failAt start what else return ()

/-- A value behind its length: the cursor has to end up where the length says. -/
def lengthPrefixed {α : Type} (past : Option String) (mismatch : String) (body : Decoder α) :
    Decoder α := do
  let start ← position
  let len ← valueLength
  let stop := (← position) + len
  checkEnd past start stop
  let v ← body
  if (← position) ≠ stop then failAt start mismatch else return v

/-- A charset and a text in it. -/
def charsetText : Decoder EncodedString := do
  let charset ← integerValue
  let bytes ← textString
  return ⟨some charset, bytes⟩

def encodedString : Decoder EncodedString := do
  let next ← peek
  if next.any (fun b => b.toNat ≤ 31) then
    lengthPrefixed (some "encoded-string length past the end")
      "encoded-string length does not match its text" charsetText
  else return ⟨none, ← textString⟩

/-- Pairs of bytes as big-endian units; an odd last byte is left out. -/
def utf16Units : List UInt8 → List Nat
  | high :: low :: rest => (high.toNat * 256 + low.toNat) :: utf16Units rest
  | _ => []

section lossy
variable (lossy : Lossy)

def decodeText (s : EncodedString) : String :=
  match s.charset with
  | some 4 => String.ofList (s.bytes.map fun b => Char.ofNat b.toNat)
  | some 1000 => lossy.utf16 (utf16Units s.bytes)
  | some 1015 => lossy.utf16 (utf16Units s.bytes)
  | _ => lossy.utf8 s.bytes

def paramText : Decoder String := do
  return decodeText lossy (← encodedString)

/-- A text string as UTF-8. -/
def lossyString : Decoder String := do
  return lossy.utf8 (← textString)

/-! Content types. -/

def wellKnownContentTypes : List String :=
  ["*/*", "text/*", "text/html", "text/plain", "text/x-hdml", "text/x-ttml", "text/x-vCalendar",
    "text/x-vCard", "text/vnd.wap.wml", "text/vnd.wap.wmlscript", "text/vnd.wap.wta-event",
    "multipart/*", "multipart/mixed", "multipart/form-data", "multipart/byteranges",
    "multipart/alternative", "application/*", "application/java-vm",
    "application/x-www-form-urlencoded", "application/x-hdmlc", "application/vnd.wap.wmlc",
    "application/vnd.wap.wmlscriptc", "application/vnd.wap.wta-eventc",
    "application/vnd.wap.uaprof", "application/vnd.wap.wtls-ca-certificate",
    "application/vnd.wap.wtls-user-certificate", "application/x-x509-ca-cert",
    "application/x-x509-user-cert", "image/*", "image/gif", "image/jpeg", "image/tiff",
    "image/png", "image/vnd.wap.wbmp", "application/vnd.wap.multipart.*",
    "application/vnd.wap.multipart.mixed", "application/vnd.wap.multipart.form-data",
    "application/vnd.wap.multipart.byteranges", "application/vnd.wap.multipart.alternative",
    "application/xml", "text/xml", "application/vnd.wap.wbxml", "application/x-x968-cross-cert",
    "application/x-x968-ca-cert", "application/x-x968-user-cert", "text/vnd.wap.si",
    "application/vnd.wap.sic", "text/vnd.wap.sl", "application/vnd.wap.slc", "text/vnd.wap.co",
    "application/vnd.wap.coc", "application/vnd.wap.multipart.related",
    "application/vnd.wap.sia", "text/vnd.wap.connectivity-xml",
    "application/vnd.wap.connectivity-wbxml", "application/pkcs7-mime",
    "application/vnd.wap.hashed-certificate", "application/vnd.wap.signed-certificate",
    "application/vnd.wap.cert-response", "application/xhtml+xml", "application/wml+xml",
    "text/css", "application/vnd.wap.mms-message", "application/vnd.wap.rollover-certificate",
    "application/vnd.wap.locc+wbxml", "application/vnd.wap.loc+xml",
    "application/vnd.syncml.dm+wbxml", "application/vnd.syncml.dm+xml",
    "application/vnd.syncml.notification", "application/vnd.wap.xhtml+xml",
    "application/vnd.wv.csp.cir", "application/vnd.oma.dd+xml",
    "application/vnd.oma.drm.message", "application/vnd.oma.drm.content",
    "application/vnd.oma.drm.rights+xml", "application/vnd.oma.drm.rights+wbxml"]

/-- Parameters by name; a name that comes again takes the place of the first. -/
def insertParam (params : List (String × String)) (name value : String) : List (String × String) :=
  (name, value) :: params.filter (fun p => p.1 != name)

structure ContentType where
  media : String
  params : List (String × String)
  deriving DecidableEq

def ContentType.isMultipart (ct : ContentType) : Bool :=
  "multipart/".toList.isPrefixOf ct.media.toList ||
    "application/vnd.wap.multipart.".toList.isPrefixOf ct.media.toList

/-- The content type that a number is assigned to. -/
def wellKnown (offset id : Nat) : Decoder String :=
  match wellKnownContentTypes[id]? with
  | some name => pure name
  | none => failAt offset "unassigned well-known content type"

def constrainedMedia : Decoder String := do
  let next ← peek
  if next.any isHigh then
    let offset ← position
    let id ← shortInteger
    wellKnown offset id.toNat
  else return Text.toAsciiLower (← lossyString lossy)

/-- The media of a content type that has a length. -/
def prefixedMedia : Decoder String := do
  let next ← peek
  if next.any (fun b => b.toNat ≤ 30) then
    let offset ← position
    let id ← longInteger
    wellKnown offset id
  else constrainedMedia lossy

/-- An untyped parameter's value. -/
def untypedValue : Decoder String := do
  let next ← peek
  if next.any isHigh then return toString (← integerValue) else lossyString lossy

/-- The value of the parameter with a code, under its name; `none` for a code that is not known. -/
def paramValue (code : Nat) : Option (String × Decoder String) :=
  if code = 0x01 then some ("Charset", do return toString (← integerValue))
  else if code = 0x03 then some ("Type", do return toString (← integerValue))
  else if code = 0x09 then some ("Type", constrainedMedia lossy)
  else if code = 0x05 ∨ code = 0x17 then some ("Name", paramText lossy)
  else if code = 0x06 ∨ code = 0x18 then some ("Filename", paramText lossy)
  else if code = 0x0a ∨ code = 0x19 then some ("Start", paramText lossy)
  else if code = 0x0b ∨ code = 0x1a then some ("Start-info", paramText lossy)
  else none

/-- `short_integer` where an error is an answer: it leaves the cursor. -/
def shortInteger? : Decoder (Option UInt8) := fun data pos =>
  match shortInteger data pos with
  | .ok (b, q) => .ok (some b, q)
  | .error _ => .ok (none, pos)

/-- A parameter, put to those before it. A code that is not known ends the loop. -/
def param (params : List (String × String)) :
    Decoder (List (String × String) ⊕ List (String × String)) := do
  match ← shortInteger? with
  | none =>
    let name ← lossyString lossy
    let value ← untypedValue lossy
    return .inl (insertParam params name value)
  | some code =>
    match paramValue lossy code.toNat with
    | none => return .inr params
    | some (name, value) => return .inl (insertParam params name (← value))

/-- One turn of the loop over the parameters up to the declared end. -/
def paramTurn (stop : Nat) (params : List (String × String)) :
    Decoder (List (String × String) ⊕ List (String × String)) := do
  if stop ≤ (← position) then return .inr params else param lossy params

/-- The media and the parameters of a content type that has a length. -/
def prefixedBody (stop : Nat) : Decoder ContentType := do
  let media ← prefixedMedia lossy
  let params ← whileLoop (paramTurn lossy stop) []
  return ⟨media, params⟩

def contentType : Decoder ContentType := do
  match ← peek with
  | none => fail "content-type"
  | some first =>
    if 31 < first.toNat then return ⟨← constrainedMedia lossy, []⟩
    else
      let start ← position
      let len ← valueLength
      let stop := (← position) + len
      checkEnd (some "content-type length past the end") start stop
      let ct ← prefixedBody lossy stop
      seek stop
      return ct

/-! Multipart bodies. -/

structure Part where
  contentType : ContentType
  contentLocation : Option String
  contentId : Option String
  data : List UInt8
  deriving DecidableEq

/-- `s` without the prefix, where it has it. -/
def stripStart (start s : List Char) : List Char := if start.isPrefixOf s then s.drop start.length else s

def stripEnd (stop s : List Char) : List Char :=
  if stop.isSuffixOf s then s.take (s.length - stop.length) else s

def stripAngleBrackets (raw : String) : String :=
  String.ofList (stripEnd ['>'] (stripStart ['<'] (stripStart "cid:".toList (Text.trimChars raw.toList))))

/-- One of a part's headers. A code that is not known ends the loop. -/
def partHeader (part : Part) : Decoder (Part ⊕ Part) := do
  match ← shortInteger? with
  | some code =>
    if code = 0x0e then return .inl { part with contentLocation := some (← paramText lossy) }
    else if code = 0x40 then
      return .inl { part with contentId := some (stripAngleBrackets (← lossyString lossy)) }
    else if code = 0x2e then
      let len ← valueLength
      let _ ← take len "content-disposition"
      return .inl part
    else return .inr part
  | none =>
    let name ← lossyString lossy
    let value ← lossyString lossy
    let name := Text.toAsciiLower name
    if name = "content-id" then
      return .inl { part with contentId := some (stripAngleBrackets value) }
    else if name = "content-location" then return .inl { part with contentLocation := some value }
    else return .inl part

/-- One turn of the loop over a part's headers. -/
def partTurn (part : Part) : Decoder (Part ⊕ Part) := do
  if (← size) ≤ (← position) then return .inr part else partHeader lossy part

/-- A part's headers, from a cursor of their own. -/
def partHeaders (data : List UInt8) : Decoder Part := do
  let ct ← contentType lossy
  whileLoop (partTurn lossy) ⟨ct, none, none, data⟩

def partFromHeaders (headers data : List UInt8) : Except Fail Part :=
  (partHeaders lossy data headers 0).map Prod.fst

/-- A result that was got elsewhere. -/
def lift {α : Type} (r : Except Fail α) : Decoder α := fun _ pos => r.map fun v => (v, pos)

def part : Decoder Part := do
  let headersLen ← uintvar
  let dataLen ← uintvar
  let headers ← take headersLen "part headers"
  let data ← take dataLen "part data"
  lift (partFromHeaders lossy headers data)

def parts : Nat → Decoder (List Part)
  | 0 => pure []
  | n + 1 => do
    let p ← part lossy
    return p :: (← parts n)

def multipart : Decoder (List Part) := do
  let start ← position
  let n ← uintvar
  if 256 < n then failAt start "multipart with more than 256 parts" else parts lossy n

end lossy

end MessageCrate.Wsp

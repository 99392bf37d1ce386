import MessageCrate.Formats.Wsp

/- MMS messages (go-sms-mms/src/mms.rs).

   A PDU is headers up to Content-Type and then the body. Every field code has one value shape
   (`Shape`): `fieldShape` is the source's table of codes, and `Shape.read` reads a shape.

     `decode`, its loop over the headers     ↔ `decode`, `headerTurn`
     `header`                                ↔ `header`
     `from_value`, `absolute_or_relative`    ↔ `fromValue`, `absoluteOrRelative`
     `previously_sent`, `mm_flags`           ↔ `previouslySent`, `mmFlags`
     `mbox_count`, `element_descriptor`      ↔ `mboxCount`, `elementDescriptor`
     `message_class`, `token`, `yes_no`      ↔ `messageClass`, `token`, `yesNoShape` -/
namespace MessageCrate.Mms

open Wire Wsp

inductive MessageType
  | sendReq
  | retrieveConf
  | other (t : Nat)
  deriving DecidableEq

structure Message where
  messageType : Option MessageType
  sender : Option String
  recipients : List String
  cc : List String
  bcc : List String
  date : Option Nat
  subject : Option String
  contentType : Option ContentType
  headers : List (String × String)
  parts : List Part
  deriving DecidableEq

def Message.empty : Message := ⟨none, none, [], [], [], none, none, none, [], []⟩

/-- `{:02x}`. -/
def hex2 (n : Nat) : String :=
  let digits := Nat.toDigits 16 n
  String.ofList (List.replicate (2 - digits.length) '0' ++ digits)

/-- A token whose names are listed in order from 0. -/
def token (names : List String) : Decoder String := do
  let v ← shortInteger
  return names.getD v.toNat ("0x" ++ hex2 v.toNat)

section lossy
variable (lossy : Lossy)

/-- An Encoded-string-value as text. -/
def string : Decoder String := do
  return decodeText lossy (← encodedString)

/-- What stands in a From-value. -/
def fromBody : Decoder (Option String) := do
  let t ← nextByte "from token"
  if t = 0x81 then return none
  else if t = 0x80 then return some (← string lossy)
  else failAt ((← position) - 1) "from address token"

def fromValue : Decoder (Option String) :=
  lengthPrefixed (some "from length past the end") "from length does not match its address"
    (fromBody lossy)

/-- A time token and its seconds. -/
def timeBody : Decoder (UInt8 × Nat) := do
  let t ← nextByte "time token"
  let seconds ← integerValue
  return (t, seconds)

def absoluteOrRelative : Decoder String := do
  let start ← position
  let (t, seconds) ← lengthPrefixed none "time value length does not match" timeBody
  if t = 0x80 then return "absolute:" ++ toString seconds
  else if t = 0x81 then return "relative:" ++ toString seconds
  else failAt (start + 1) "time token"

/-- A forwarded count with an address or a date. -/
def previouslySentBody (isDate : Bool) : Decoder String := do
  let count ← integerValue
  let value ← if isDate then (do return toString (← longInteger)) else string lossy
  return toString count ++ ":" ++ value

def previouslySent (isDate : Bool) : Decoder String :=
  lengthPrefixed none "previously-sent length does not match" (previouslySentBody lossy isDate)

def mmFlagsBody : Decoder String := do
  let action ← token ["Add", "Remove", "Filter"]
  let keyword ← string lossy
  return action ++ ":" ++ keyword

def mmFlags : Decoder String :=
  lengthPrefixed none "mm-flags length does not match" (mmFlagsBody lossy)

def mboxCountBody : Decoder String := do
  let kind ← token ["Message", "Size"]
  let count ← integerValue
  return kind ++ ":" ++ toString count

def mboxCount : Decoder String :=
  lengthPrefixed none "mbox count length does not match" mboxCountBody

/-- The reference is read and the rest of the value skipped. -/
def elementDescriptor : Decoder String := do
  let start ← position
  let len ← valueLength
  let stop := (← position) + len
  checkEnd (some "element-descriptor length past the end") start stop
  let reference ← lossyString lossy
  if stop < (← position) then failAt start "element-descriptor length does not match"
  else
    seek stop
    return reference

def messageClass : Decoder String := do
  let next ← peek
  if next.any isHigh then token ["Personal", "Advertisement", "Informational", "Auto"]
  else lossyString lossy

/-! The value shapes. -/

inductive Shape
  | string
  | version
  | long
  | previouslySent (isDate : Bool)
  | time
  | messageClass
  | token (names : List String)
  | short
  | attributes
  | integer
  | mmFlags
  | mboxCount
  | elementDescriptor

def Shape.read : Shape → Decoder String
  | .string => Mms.string lossy
  | .version => do
    let v ← shortInteger
    return toString (v.toNat / 16) ++ "." ++ toString (v.toNat % 16)
  | .long => do return toString (← longInteger)
  | .previouslySent isDate => Mms.previouslySent lossy isDate
  | .time => absoluteOrRelative
  | .messageClass => Mms.messageClass lossy
  | .token names => Mms.token names
  | .short => do return toString (← shortInteger).toNat
  | .attributes => do return "0x" ++ hex2 (← shortInteger).toNat
  | .integer => do return toString (← integerValue)
  | .mmFlags => Mms.mmFlags lossy
  | .mboxCount => Mms.mboxCount
  | .elementDescriptor => Mms.elementDescriptor lossy

end lossy

/-- `yes_no`. -/
def yesNoShape : Shape := .token ["yes", "no"]

/-- The name and the value shape of a field code, for the codes that are kept under their name. -/
def fieldShapes : List (Nat × String × Shape) :=
  [(0x18, "transaction-id", .string), (0x0b, "message-id", .string),
    (0x03, "content-location", .string), (0x13, "response-text", .string),
    (0x1a, "retrieve-text", .string), (0x1e, "reply-charging-id", .string),
    (0x0d, "mms-version", .version), (0x0e, "message-size", .long),
    (0x1f, "reply-charging-size", .long), (0x20, "previously-sent-by", .previouslySent false),
    (0x21, "previously-sent-date", .previouslySent true), (0x07, "delivery-time", .time),
    (0x08, "expiry", .time), (0x1d, "reply-charging-deadline", .time),
    (0x0a, "message-class", .messageClass), (0x06, "delivery-report", yesNoShape),
    (0x10, "read-report", yesNoShape), (0x11, "report-allowed", yesNoShape),
    (0x0f, "priority", .token ["Low", "Normal", "High"]),
    (0x14, "sender-visibility", .token ["Hide", "Show"]),
    (0x15, "status", .token ["Expired", "Retrieved", "Rejected", "Deferred", "Unrecognized",
      "Indeterminate", "Forwarded", "Unreachable"]),
    (0x12, "response-status", .short), (0x19, "retrieve-status", .short),
    (0x1b, "read-status", .token ["Read", "Deleted without being read"]),
    (0x1c, "reply-charging", .token ["Requested", "Requested text only", "Accepted",
      "Accepted text only"]),
    (0x22, "store", yesNoShape), (0x27, "stored", yesNoShape), (0x29, "totals", yesNoShape),
    (0x2b, "quotas", yesNoShape), (0x31, "distribution-indicator", yesNoShape),
    (0x3b, "drm-content", yesNoShape), (0x3c, "adaptation-allowed", yesNoShape),
    (0x23, "mm-state", .token ["Draft", "Sent", "New", "Retrieved", "Forwarded"]),
    (0x24, "mm-flags", .mmFlags), (0x25, "store-status", .short),
    (0x26, "store-status-text", .string), (0x28, "attributes", .attributes),
    (0x2a, "mbox-totals", .mboxCount), (0x2c, "mbox-quotas", .mboxCount),
    (0x2d, "message-count", .integer), (0x2f, "start", .integer), (0x33, "limit", .integer),
    (0x32, "element-descriptor", .elementDescriptor),
    (0x34, "recommended-retrieval-mode", .token ["Manual"]),
    (0x35, "recommended-retrieval-mode-text", .string), (0x36, "status-text", .string),
    (0x37, "applic-id", .string), (0x38, "reply-applic-id", .string),
    (0x39, "aux-applic-info", .string), (0x3d, "replace-id", .string),
    (0x3e, "cancel-id", .string),
    (0x3a, "content-class", .token ["text", "image-basic", "image-rich", "video-basic", "video-rich",
      "megapixel", "content-basic", "content-rich"]),
    (0x3f, "cancel-status", .token ["Cancel Request Successfully received",
      "Cancel Request corrupted"])]

def fieldShape (code : Nat) : Option (String × Shape) :=
  (fieldShapes.find? fun f => f.1 == code).map Prod.snd

section decode
variable (lossy : Lossy)

/-- The error of a token that is not one names the cursor it was looked for at. -/
def messageTypeToken : Decoder UInt8 := do
  match ← shortInteger? with
  | some t => return t
  | none => fail "message-type token"

/-- The message with the header `code` read. -/
def header (code : Nat) (msg : Message) : Decoder Message :=
  if code = 0x0c then do
    let t ← messageTypeToken
    return { msg with messageType := some (if t = 0x00 then .sendReq
      else if t = 0x04 then .retrieveConf else .other (t.toNat + 128)) }
  else if code = 0x09 then do
    return { msg with sender := ← fromValue lossy }
  else if code = 0x17 then do
    return { msg with recipients := msg.recipients ++ [← string lossy] }
  else if code = 0x02 then do
    return { msg with cc := msg.cc ++ [← string lossy] }
  else if code = 0x01 then do
    return { msg with bcc := msg.bcc ++ [← string lossy] }
  else if code = 0x05 then do
    return { msg with date := some (← longInteger) }
  else if code = 0x16 then do
    return { msg with subject := some (← string lossy) }
  else
    match fieldShape code with
    | none => do failAt ((← position) - 1) "unknown header field code"
    | some (name, shape) => do
      return { msg with headers := insertParam msg.headers name (← shape.read lossy) }

/-- The error of a byte that is no field code names the cursor it was looked for at. -/
def fieldCode : Decoder UInt8 := do
  match ← shortInteger? with
  | some code => return code
  | none => fail "header field code"

/-- The rest of the bytes. -/
def restOf : Decoder (List UInt8) := fun data pos =>
  (sliceFrom data pos).map fun rest => (rest, pos)

/-- A body that is no multipart is one part. -/
def singlePart (ct : ContentType) : Decoder (List Part) := do
  let rest ← restOf
  return [⟨ct, none, none, rest⟩]

/-- One turn of the loop over the headers, and the body behind the last. -/
def headerTurn (msg : Message) : Decoder (Message ⊕ Message) := do
  let code ← fieldCode
  if code = 0x04 then
    let ct ← contentType lossy
    let parts ← if ct.isMultipart then multipart lossy else singlePart ct
    return .inr { msg with parts := parts, contentType := some ct }
  else return .inl (← header lossy code.toNat msg)

def decode (data : List UInt8) : Except Fail Message :=
  if data.head? ≠ some 0x8c then .error (.shape ⟨0, "X-Mms-Message-Type header"⟩)
  else (whileLoop (headerTurn lossy) Message.empty data 0).map Prod.fst

end decode

end MessageCrate.Mms

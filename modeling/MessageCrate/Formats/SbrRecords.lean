import MessageCrate.Formats.SbrParts
import MessageCrate.Formats.References
import MessageCrate.Ir.Handle

/- The messages of an SMS Backup & Restore file (sbr/src/read.rs).

     `attrs`, `addr`                            ↔ `attrs`, `addr`
     `contact_name`, `raw_name`, `non_null`     ↔ `contactName`, `rawName`, `nonNull`
     `parse_sms`, `timestamp_from_date`         ↔ `parseSms`, `timestampFromDate`
     `parse_mms`                                ↔ `parseMms`
     `mms_participants`, `mms_peers`            ↔ `mmsParticipants`, `mmsPeers`
     `mms_sender`, `is_owner`                   ↔ `mmsSender`, `isOwner`
     `MmsConversation::for_peers`               ↔ `MmsConversation.forPeers`
     `group_chat_key`, `group_title`            ↔ `groupChatKey`, `groupTitle`

   The owner's handles are any test of a handle, and `toLowercase` is the standard library's. A
   record has its milliseconds, of which the source keeps the quotient by 1000. -/
namespace MessageCrate.Sbr
open MmsParts Utf8 Text

inductive ConversationKind
  | individual
  | group
  deriving DecidableEq

structure MmsAddr where
  address : String
  addrType : String
  attrs : Attrs

def addr (attrs : Attrs) : MmsAddr where
  address := get attrs "address"
  addrType := get attrs "type"
  attrs := attrs

inductive SourceFields
  | sms (attrs : Attrs)
  | mms (attrs : Attrs) (parts addrs : List Attrs)

structure Record where
  chatKey : String
  conversationKind : ConversationKind
  groupTitle : Option String
  participants : List (Handle × Option String)
  timestampMillis : Int
  isFromMe : Bool
  sender : Option Handle
  senderDisplayName : Option String
  text : List Char
  subject : String
  attachments : List AttachmentBlob
  messageKind : String
  dateMs : String
  contactName : String
  androidType : String
  sourceFields : SourceFields

structure ParseStats where
  smsSeen : Nat
  mmsSeen : Nat
  skippedInvalidDate : Nat
  skippedUnknownAddress : Nat
  skippedUnknownType : Nat
  skippedDraftOrOutbox : Nat
  skippedEmptyParticipants : Nat
  skippedUnreadablePart : Nat
  droppedCharacterReferences : Nat
  deriving DecidableEq

/-! Attributes. -/

/-- One attribute more, and the references dropped in it. -/
def readAttr (html : String → Str) (read : Attrs × Nat) (raw : String × String) : Attrs × Nat :=
  let value := (decodeReferences (fun cs => (html (String.ofList cs)).chars) raw.2.toList read.2).getD
    ([], read.2)
  (read.1.insert (toAsciiLower raw.1) (String.ofList value.1), value.2)

/-- An element's attributes, with `dropped` counted on. -/
def attrs (html : String → Str) (raw : List (String × String)) (dropped : Nat) : Attrs × Nat :=
  raw.foldl (readAttr html) (fun _ => none, dropped)

/-- The name that a contact name gives a person. -/
def contactName (raw : String) (kind : ConversationKind) : Option String :=
  if kind = .group then none
  else
    let value := trim raw
    if value = "" || eqIgnoreAsciiCase value.toList "null".toList ||
      eqIgnoreAsciiCase value.toList "(Unknown)".toList then none
    else some value

def rawName (attrs : Attrs) : String :=
  let value := get attrs "contact_name"
  if value = "" then get attrs "name" else value

def nonNull (value : String) : String :=
  let value := trim value
  if value = "" || eqIgnoreAsciiCase value.toList "null".toList then "" else value

/-! Dates. -/

/-- A sign and what follows it. -/
def signed : List Char → Bool × List Char
  | '-' :: digits => (true, digits)
  | '+' :: digits => (false, digits)
  | digits => (false, digits)

/-- `str::parse::<i64>`. -/
def parseI64 (s : String) : Option Int :=
  let (negative, digits) := signed s.toList
  if digits.isEmpty || !digits.all Char.isDigit then none
  else
    let n : Nat := digits.foldl (fun n c => n * 10 + (c.toNat - 48)) 0
    let value : Int := if negative then -(n : Int) else (n : Int)
    if -9223372036854775808 ≤ value ∧ value ≤ 9223372036854775807 then some value else none

def maxDateMs : Int := 253402300799999

/-- The raw value and its milliseconds. -/
def timestampFromDate (attrs : Attrs) (stats : ParseStats) : Option (String × Int) × ParseStats :=
  let dateMs := get attrs "date"
  match (parseI64 dateMs).filter (fun ms => 0 ≤ ms ∧ ms ≤ maxDateMs) with
  | some millis => (some (dateMs, millis), stats)
  | none => (none, { stats with skippedInvalidDate := stats.skippedInvalidDate + 1 })

section records
variable (x : Crates) (toLowercase : String → String) (owners : Option (Handle → Bool))

/-! SMS. -/

def addressHandle (raw : String) : Option Handle :=
  if eqIgnoreAsciiCase (trim raw).toList "insert-address-token".toList then none
  else Handle.parse toLowercase raw

/-- The record of an SMS with a date and an address. -/
def smsRecord (attrs : Attrs) (address : Handle) (androidType dateMs : String) (millis : Int) :
    Record :=
  let isFromMe : Bool := androidType = "2"
  let rawName := rawName attrs
  let hint := contactName rawName .individual
  { chatKey := address.key
    conversationKind := .individual
    groupTitle := none
    participants := [(address, hint)]
    timestampMillis := millis
    isFromMe
    sender := if isFromMe then none else some address
    senderDisplayName := if isFromMe then none else hint
    text := (decodeBody x (get attrs "body")).chars
    subject := nonNull (get attrs "subject")
    attachments := []
    messageKind := "sms"
    dateMs
    contactName := rawName
    androidType
    sourceFields := .sms attrs }

def parseSms (attrs : Attrs) (stats : ParseStats) : Option Record × ParseStats :=
  let stats := { stats with smsSeen := stats.smsSeen + 1 }
  match timestampFromDate attrs stats with
  | (none, stats) => (none, stats)
  | (some (dateMs, millis), stats) =>
    match addressHandle toLowercase (get attrs "address") with
    | none => (none, { stats with skippedUnknownAddress := stats.skippedUnknownAddress + 1 })
    | some address =>
      let androidType := trim (get attrs "type")
      if androidType = "1" ∨ androidType = "2" then
        (some (smsRecord x attrs address androidType dateMs millis), stats)
      else if androidType = "3" ∨ androidType = "4" then
        (none, { stats with skippedDraftOrOutbox := stats.skippedDraftOrOutbox + 1 })
      else (none, { stats with skippedUnknownType := stats.skippedUnknownType + 1 })

/-! MMS. -/

def mmsParticipants (attrs : Attrs) (addrs : List MmsAddr) : List Handle :=
  (((get attrs "address").toList.splitOn '~').map String.ofList ++ addrs.map MmsAddr.address).filterMap
    (addressHandle toLowercase)

def isOwner (address : Handle) : Bool := owners.any fun o => o address

/-- `dedup_by` on the key: of handles next to each other with one key, the first. -/
def dedupByKey : List Handle → List Handle
  | [] => []
  | h :: hs =>
    match dedupByKey hs with
    | [] => [h]
    | next :: rest => if h.key = next.key then h :: rest else h :: next :: rest

def mmsPeers (participants : List Handle) : List Handle :=
  dedupByKey ((participants.filter fun p => !isOwner owners p).insertionSort fun a b => a.key ≤ b.key)

def mmsSender (addrs : List MmsAddr) (peers : List Handle) : Option Handle :=
  let sender := ((addrs.find? fun a => a.addrType = "137").bind fun a =>
    addressHandle toLowercase a.address).filter fun a => !isOwner owners a
  sender.or (match peers with
    | [peer] => some peer
    | _ => none)

def groupTitle (peers : List String) : String :=
  let shown := ", ".intercalate (peers.take 4)
  if peers.length ≤ 4 then "Group: " ++ shown
  else "Group: " ++ shown ++ ", and " ++ toString (peers.length - 4) ++ " others"

def groupChatKey (peers : List String) : String :=
  let rawKey := "group-" ++ "_".intercalate peers
  if 180 < size rawKey.toList then
    "group-" ++ String.ofList ((x.sha256Hex (encode rawKey.toList)).toList.take 16)
  else rawKey

structure MmsConversation where
  chatKey : String
  kind : ConversationKind
  groupTitle : Option String
  participants : List (Handle × Option String)

def MmsConversation.forPeers (peers : List Handle) (rawName : String) : MmsConversation :=
  match peers with
  | [peer] => ⟨peer.key, .individual, none, [(peer, contactName rawName .individual)]⟩
  | peers =>
    ⟨groupChatKey x (peers.map Handle.key), .group, some (Sbr.groupTitle (peers.map Handle.key)),
      peers.map fun p => (p, none)⟩

/-- The record of an MMS with a date and peers. -/
def mmsRecord (attrs : Attrs) (parts : List MmsPart) (addrs : List MmsAddr) (peers : List Handle)
    (msgBox dateMs : String) (millis : Int) : Record :=
  let isFromMe : Bool := msgBox = "2"
  let body := mmsBody x parts
  let rawName := rawName attrs
  let conversation := MmsConversation.forPeers x peers rawName
  { chatKey := conversation.chatKey
    conversationKind := conversation.kind
    groupTitle := conversation.groupTitle
    participants := conversation.participants
    timestampMillis := millis
    isFromMe
    sender := if isFromMe then none else mmsSender toLowercase owners addrs peers
    senderDisplayName := if isFromMe then none else contactName rawName conversation.kind
    text := body.1
    subject := nonNull (get attrs "sub")
    attachments := body.2.1
    messageKind := "mms"
    dateMs
    contactName := rawName
    androidType := msgBox
    sourceFields := .mms attrs (parts.map fun p => partFields p (decodePartData x p.data))
      (addrs.map MmsAddr.attrs) }

def parseMms (attrs : Attrs) (parts : List MmsPart) (addrs : List MmsAddr) (stats : ParseStats) :
    Option Record × ParseStats :=
  let stats := { stats with mmsSeen := stats.mmsSeen + 1 }
  match timestampFromDate attrs stats with
  | (none, stats) => (none, stats)
  | (some (dateMs, millis), stats) =>
    let msgBox := trim (get attrs "msg_box")
    if ["3", "4", "5", "6"].contains msgBox then
      (none, { stats with skippedDraftOrOutbox := stats.skippedDraftOrOutbox + 1 })
    else
      let participants := mmsParticipants toLowercase attrs addrs
      if participants.isEmpty then
        (none, { stats with skippedEmptyParticipants := stats.skippedEmptyParticipants + 1 })
      else
        let peers := mmsPeers owners participants
        if peers.isEmpty then
          (none, { stats with skippedUnknownAddress := stats.skippedUnknownAddress + 1 })
        else
          (some (mmsRecord x toLowercase owners attrs parts addrs peers msgBox dateMs millis),
            { stats with
              skippedUnreadablePart := stats.skippedUnreadablePart + (mmsBody x parts).2.2 })

end records

end MessageCrate.Sbr

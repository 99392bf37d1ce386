import MessageCrate.Lib.Lines
import MessageCrate.Search.Value

/- mboxrd mailboxes (mail/src/lib.rs, mail/src/parse.rs).

   A record is a `From ` line that names the sender and the time, the message's EML with every
   line of the form `>*From ` quoted once more, and an empty line. The reader takes every line
   that starts with `From ` for the start of a record.

     `escape_mboxrd_line`, `unescape_mboxrd_line` ↔ `escapeMboxrdLine`, `unescapeMboxrdLine`
     `envelope_sender`, `peer_handle`             ↔ `envelopeSender`, `peerHandle`
     `mbox_asctime_utc`                           ↔ `mboxAsctimeUtc`
     `write_mboxrd_record`                        ↔ `writeMboxrdRecord`
     `split_mboxrd`, `join_eml_lines`             ↔ `splitMboxrd`, `joinEmlLines`

   The EML is another crate's work (`mail_builder`), so a record is written from its message and
   its EML. Of a message there is what the `From ` line is made of. -/
namespace MessageCrate.Mail

open Lines

inductive Direction
  | incoming
  | outgoing

structure MailMessage where
  chatIdentifier : List Char
  conversationType : List Char
  participants : List (List Char)
  ownerHandle : List Char
  direction : Direction
  senderHandle : Option (List Char)
  timestampUnixMs : Int

/-! The envelope. -/

/-- `message_ir::trimmed`. -/
def trimmed (s : List Char) : Option (List Char) :=
  let t := Text.trimChars s
  if t.isEmpty then none else some t

/-- The other side of a 1:1 chat. -/
def peerHandle (msg : MailMessage) : Option (List Char) :=
  if msg.conversationType.map Char.toLower = "group".toList then none
  else
    (msg.participants.find? (· != msg.ownerHandle)).or
      (if msg.chatIdentifier ≠ msg.ownerHandle then some msg.chatIdentifier else none)

/-- The handle a record is from. -/
def envelopeHandle (msg : MailMessage) : List Char :=
  match msg.direction with
  | .incoming =>
    ((msg.senderHandle.bind trimmed).or ((peerHandle msg).bind trimmed)).getD "unknown".toList
  | .outgoing =>
    let owner := Text.trimChars msg.ownerHandle
    if owner.isEmpty then "me".toList else owner

def isAddressChar (c : Char) : Bool :=
  c.isAlphanum || c == '+' || c == '-' || c == '_' || c == '.'

def envelopeSender (msg : MailMessage) : List Char :=
  let handle := envelopeHandle msg
  if handle.contains '@' then
    handle.map (fun c => if c = '@' then '=' else c) ++ "@handle.local".toList
  else if handle.all isAddressChar then handle ++ "@sms.local".toList
  else "MAILER-DAEMON@message-crate.local".toList

def weekdays : List String := ["Sun", "Mon", "Tue", "Wed", "Thu", "Fri", "Sat"]

def months : List String :=
  ["Jan", "Feb", "Mar", "Apr", "May", "Jun", "Jul", "Aug", "Sep", "Oct", "Nov", "Dec"]

/-- `%e`. -/
def spacePadded (n : Nat) : String := (if n < 10 then " " else "") ++ String.ofList (Nat.toDigits 10 n)

/-- `%Y`. -/
def formatYear (y : Int) : String :=
  if 0 ≤ y ∧ y ≤ 9999 then padded 4 y.toNat
  else (if y < 0 then "-" else "+") ++ padded 4 y.natAbs

/-- The time in the form `Wed Jun 30 21:49:08 1993`; `none` for one past chrono's calendar. -/
def mboxAsctimeUtc (secs : Int) : Option (List Char) :=
  (NaiveDate.ofDay (secs / 86400)).map fun date =>
    let ofDay := (secs % 86400).toNat
    (weekdays.getD ((date.day + 4) % 7).toNat "" ++ " " ++
      months.getD (date.month - 1).toNat "" ++ " " ++ spacePadded date.dayOfMonth.toNat ++ " " ++
      padded 2 (ofDay / 3600) ++ ":" ++ padded 2 (ofDay / 60 % 60) ++ ":" ++ padded 2 (ofDay % 60) ++
      " " ++ formatYear date.year).toList

/-! Lines. -/

/-- Whether the line starts with `From `. -/
def startsFrom (line : List Char) : Bool := "From ".toList.isPrefixOf line

def escapeMboxrdLine (line : List Char) : List Char :=
  if startsFrom (line.dropWhile (· == '>')) then '>' :: line else line

def unescapeMboxrdLine (line : List Char) : List Char :=
  if 0 < (line.takeWhile (· == '>')).length ∧ startsFrom (line.dropWhile (· == '>')) then
    line.drop 1
  else line

/-! The writer. -/

def isBreak (c : Char) : Bool := c == '\r' || c == '\n'

/-- `text.trim_end_matches(['\r', '\n'])`. -/
def trimBreaks (text : List Char) : List Char := text.rdropWhile isBreak

/-- One record; `none` where the message's time is not in chrono's calendar. -/
def writeMboxrdRecord (msg : MailMessage) (eml : List Char) : Option (List Char) :=
  (mboxAsctimeUtc (msg.timestampUnixMs / 1000)).map fun asctime =>
    written ["From ".toList ++ envelopeSender msg ++ " ".toList ++ asctime] ++
      written (((trimBreaks eml).splitOn '\n').map (fun line => escapeMboxrdLine (stripCr line))) ++
      written [[]]

/-- Records appended one after another. -/
def writeRecords : List (MailMessage × List Char) → Option (List Char)
  | [] => some []
  | r :: rest => do
    let record ← writeMboxrdRecord r.1 r.2
    let others ← writeRecords rest
    return record ++ others

/-! The reader. -/

def joinEmlLines (lines : List (List Char)) : List Char :=
  (joinLines lines).rdropWhile (· == '\n') ++ ['\n']

/-- The records closed so far, and the lines of the open one. -/
structure Splitting where
  records : List (List Char)
  current : Option (List (List Char))

def Splitting.closed (s : Splitting) : List (List Char) :=
  s.records ++ (s.current.map joinEmlLines).toList

def splitLine (s : Splitting) (line : List Char) : Splitting :=
  let line := stripCr line
  if startsFrom line then ⟨s.closed, some []⟩
  else ⟨s.records, s.current.map (· ++ [unescapeMboxrdLine line])⟩

def splitMboxrd (text : List Char) : List (List Char) :=
  ((text.splitOn '\n').foldl splitLine ⟨[], none⟩).closed

/-! What a record should come back as. -/

/-- An EML with every CRLF turned into LF and its trailing line breaks replaced by one. -/
def unified (eml : List Char) : List Char := crlfToLf (trimBreaks eml) ++ ['\n']

/-- The sender's handle holds no line feed where it holds an `@`. -/
def MailMessage.OneLine (msg : MailMessage) : Prop :=
  '@' ∈ envelopeHandle msg → '\n' ∉ envelopeHandle msg

instance (msg : MailMessage) : Decidable msg.OneLine :=
  inferInstanceAs (Decidable ('@' ∈ envelopeHandle msg → '\n' ∉ envelopeHandle msg))

/-- No line of the EML, but for its trailing line breaks, ends in two carriage returns or more. -/
def SingleCr (eml : List Char) : Prop :=
  ∀ line ∈ (trimBreaks eml).splitOn '\n', ¬ ['\r', '\r'] <:+ line

instance (eml : List Char) : Decidable (SingleCr eml) := List.decidableBAll _ _

end MessageCrate.Mail

import MessageCrate.Import.Identities

/- Staging: the records of an import's files turned into staged rows
   (`imports_api/contact_name.rs` and `imports_api/staging.rs`).

   Every person an import meets gets a contact: a one-to-one chat's identifier and a
   participant each time, a sender the first time the run meets its identity. A group's id and
   the account holder's own address get a handle and no contact. A run remembers the ids it
   resolved, senders and participants by identity and the holder's addresses as written.

   A conversation is staged by a series of `Move`s, each a statement or two and what it
   decides: `stageMoves` lists them in the order the run makes them. The messages are
   resolved, all of them, before the first is written.

   Correspondence (Rust ↔ Lean):
     `FileStaging::stage`                     ↔ `stageMoves`
     `insert_participant`                     ↔ `Stage.participant`
     one round of `resolve_message_rows`      ↔ `Stage.message`
     `flush_staging_message_chunk`            ↔ `Stage.rows`, `Stage.tapback`, `Stage.insertTapbacks`
     `StagingInserts`                         ↔ `handles` and `owners` of `Stage`
     `by_sort.remove(&row.sort_order)`        ↔ `inserted`, by a row's place in its conversation

   Left out: the attachments, which are stored on disk before a conversation's first row, and
   what a run counts and records. -/
namespace MessageCrate
open Text Grouping SqlTable

/-! Records. -/

/-- One participant as the conversation header records it. -/
structure StagedParticipant where
  handle : String
  nameAlias : Option String
  handleType : Option HandleType
  deriving DecidableEq, Repr

/-- A conversation header, with the source it resolved to. -/
structure StagedConversation where
  chatIdentifier : String
  platformService : Option String
  conversationType : String
  groupTitle : Option String
  exportedAt : Option String
  participants : List StagedParticipant
  source : String
  deriving DecidableEq, Repr

/-- One reaction on an imported message. -/
structure TapbackRecord where
  partIndex : Int
  kind : String
  emoji : Option String
  isFromMe : Bool
  sender : Option String
  deriving DecidableEq, Repr

/-- One message of an imported conversation. -/
structure MessageRecord where
  guid : String
  timestamp : String
  isFromMe : Bool
  sender : Option String
  senderHandleType : Option HandleType
  owner : Option String
  service : Option String
  subject : Option String
  text : Option String
  isAnnouncement : Bool
  announcement : Option String
  tapbacks : List TapbackRecord
  isReply : Bool
  threadOriginatorGuid : Option String
  threadOriginatorPart : Option Int
  numReplies : Int
  deriving DecidableEq, Repr

/-- A message resolved, ready for the insert. -/
structure PendingStagingMessage where
  msg : MessageRecord
  senderHandleId : Option Int
  ownerHandleId : Option Int
  senderPlatform : String
  body : Option String
  sortOrder : Int
  deriving DecidableEq, Repr

/-- What an import runs under, and the production tables, which staging only reads. -/
structure ImportContext where
  toLowercase : String → String
  walk : Walk
  accountId : Int
  importId : Option Int
  /-- The account's identities when the run starts, by address and type. -/
  identities : List (String × HandleType)
  db : Db

/-! The contact of a handle. -/

section
variable (ctx : ImportContext)

/-- A handle on no contact joins the contact a sibling of it is on. -/
def ensureSiblingContactLink (handleId : Int) (book : Book) : Option (Book × Option Int) :=
  match book.contactIdForHandle ctx.accountId handleId with
  | some existing => some (book, some existing)
  | none =>
    match book.contactIdOfSiblingHandle ctx.accountId ctx.walk handleId with
    | none => some (book, none)
    | some contactId => do
      let (book, _) ← book.linkHandleToContact ctx.accountId handleId contactId .imported
      return (book, some contactId)

/-- The handle moves to a fresh contact; with it, off a trashed one, go its siblings there,
and the trashed contact is discarded. -/
def moveToFreshContact (s : Staging) (handleId : Int) (name : String) (trashed : Option Int)
    (book : Book) : Option Book := do
  let (book, contactId) := book.createContact ctx.accountId name .imported
  let (book, _) ← moveIdentity ctx.accountId ctx.db s handleId (.to contactId .imported) book
  match trashed with
  | none => return book
  | some trashed =>
    let book ← (book.siblingsOnContact ctx.accountId handleId trashed).foldlM
      (fun book sibling => do
        let (book, _) ←
          moveIdentity ctx.accountId ctx.db s sibling (.to contactId .imported) book
        return book) book
    discardTrashedContact ctx.accountId ctx.db s trashed book

/-- The contact that owns a handle, made when nothing owns it yet or when a trashed one
does. -/
def ensureContactForHandle (s : Staging) (handleId : Int) (backupName : Option String)
    (book : Book) : Option Book := do
  let name := (backupName.bind trimmed).getD ""
  let (book, found) ← ensureSiblingContactLink ctx handleId book
  match found with
  | some existing =>
    if book.isContactTrashed ctx.accountId existing then
      moveToFreshContact ctx s handleId name (some existing) book
    else return book.proposeName ctx.accountId existing name .imported
  | none => moveToFreshContact ctx s handleId name none book

/-- Whether an address is one of the account's identities, on any service. -/
def isAccountIdentity (address : String) (handleType : HandleType) : Bool :=
  ctx.identities.contains ((normalizeTypedHandle ctx.toLowercase address handleType).1, handleType)

end

/-! One import's state. -/

/-- The conversation being staged. -/
structure Current where
  conversationId : Int
  source : String
  platform : HandleService
  headerTypes : List (String × HandleType)
  firstSortOrder : Int
  deriving DecidableEq, Repr

/-- What an import has resolved and staged so far. `resolved` is each identity it asked a
handle for and the id it got, which no code reads. -/
structure Stage where
  book : Book
  staging : Staging
  handles : HandleIdCache
  owners : List ((String × String) × Int)
  current : Option Current
  pending : List PendingStagingMessage
  /-- The rows of the chunk being flushed that went in, with their ids. -/
  inserted : List (PendingStagingMessage × Int)
  taps : List (New TapbackRow)
  resolved : List (HandleKey × Int)

/-- The staging tables when an import begins: each import clears what it staged. -/
def Staging.empty : Staging :=
  ⟨Table.empty, Table.empty, Table.empty, Table.empty, Table.empty⟩

def Stage.start (book : Book) : Stage :=
  ⟨book, Staging.empty, [], [], none, [], [], [], []⟩

/-! Headers. -/

/-- The type the header gives each participant address that has one; of two, the last. -/
def headerHandleTypes (participants : List StagedParticipant) : List (String × HandleType) :=
  (participants.filterMap (fun p => p.handleType.map (fun t => (trim p.handle, t)))).reverse

/-- Platform for chat and participant handles. -/
def platformFor (platformService : Option String) (source : String) : HandleService :=
  match platformService with
  | some s => HandleService.parse s
  | none => if toAsciiLower source = "whatsapp" then .whatsapp else .phone

def StagedConversation.platform (c : StagedConversation) : HandleService :=
  platformFor c.platformService c.source

def StagedConversation.isIndividual (c : StagedConversation) : Bool :=
  toAsciiLower c.conversationType = "individual"

/-- `Path::file_stem` of a file name: what stands before the last dot, unless nothing does. -/
def fileStem (name : String) : String :=
  let before := (name.toList.reverse.dropWhile (· ≠ '.')).tail.reverse
  if before = [] then name else String.ofList before

/-- Whether a file holds the messages with no conversation of their own. -/
def isOrphanedExport (sourceFile : String) : Bool :=
  toAsciiLower (fileStem sourceFile) = "orphaned"

/-- The type of a conversation's chat handle: a group's id is nobody's address. -/
def StagedConversation.chatHandleType (c : StagedConversation) : HandleType :=
  if c.isIndividual then
    ((headerHandleTypes c.participants).lookup (trim c.chatIdentifier)).getD
      (inferHandleTypeFromShape c.chatIdentifier)
  else .other

/-- A staged conversation; a row on its handle keeps its title and export time unless it has
none. -/
def stagedConversation (accountId chatHandleId : Int) (sourceFile : String)
    (c : StagedConversation) : Table.Upsert ConversationRow where
  new := {
    row := fun i => {
      id := i
      accountId := accountId
      chatHandleId := chatHandleId
      conversationType := c.conversationType
      groupTitle := c.groupTitle
      exportedAt := c.exportedAt
      sourceFile := sourceFile }
    key := some (accountId, chatHandleId)
    id_row := fun _ => rfl
    key_row := fun _ => rfl }
  change := {
    apply := fun row => { row with
      groupTitle := row.groupTitle <|> c.groupTitle
      exportedAt := row.exportedAt <|> c.exportedAt }
    id_apply := fun _ => rfl
    key_apply := fun _ => Or.inl rfl }
  keeps _ := rfl
  settled_row _ := by
    cases c.groupTitle <;> cases c.exportedAt <;> rfl
  settled row := by
    obtain ⟨id, accountId, chatHandleId, conversationType, title, exported, sourceFile⟩ := row
    cases title <;> cases exported <;> cases c.groupTitle <;> cases c.exportedAt <;> rfl

/-- The `sort_order` the next staged message of the conversation on a handle takes. -/
def firstSortOrder (accountId chatHandleId : Int) (db : Db) (s : Staging) : Int :=
  let stored := db.messages.rows.filter (fun m => db.conversations.rows.any (fun c =>
    c.id = m.conversationId ∧ c.accountId = accountId ∧ c.chatHandleId = chatHandleId))
  let staged := s.messages.rows.filter (fun m => s.conversations.rows.any (fun c =>
    c.id = m.conversationId ∧ c.accountId = accountId ∧ c.chatHandleId = chatHandleId))
  match (stored.map MessageRow.sortOrder ++ staged.map StagingMessageRow.sortOrder).max? with
  | some last => last + 1
  | none => 0

namespace Stage
variable (ctx : ImportContext)

/-- A handle through the cache, and whether the cache had it. -/
def resolve (raw : String) (handleType : HandleType) (service : String) (st : Stage) :
    Option (Stage × Int × Bool) := do
  let (book, handles, id, _, cached) ← upsertHandleRowCached ctx.toLowercase ctx.accountId raw
    handleType (some service) st.handles st.book
  return ({ st with
    book := book
    handles := handles
    resolved := (handleKey ctx.toLowercase raw handleType (some service), id) :: st.resolved },
    id, cached)

/-- The contact of a handle, in the state's own tables. -/
def ensureContact (handleId : Int) (backupName : Option String) (st : Stage) : Option Stage := do
  let book ← ensureContactForHandle ctx st.staging handleId backupName st.book
  return { st with book := book }

/-- A conversation's handle, the contact of a one-to-one chat, and the staged row. -/
def conversation (sourceFile : String) (c : StagedConversation) (st : Stage) : Option Stage := do
  let (st, chatHandleId, _) ← st.resolve ctx c.chatIdentifier c.chatHandleType c.platform.asStr
  -- Exporters write `orphaned.jsonl` under an `individual` header.
  let st ←
    if c.isIndividual && !isOrphanedExport sourceFile then st.ensureContact ctx chatHandleId none
    else some st
  let conversations := st.staging.conversations.upsert
    (stagedConversation ctx.accountId chatHandleId sourceFile c)
  let row ← conversations.find? (ctx.accountId, chatHandleId)
  return { st with
    staging := { st.staging with conversations := conversations }
    current := some {
      conversationId := row.id
      source := c.source
      platform := c.platform
      headerTypes := headerHandleTypes c.participants
      firstSortOrder := firstSortOrder ctx.accountId chatHandleId ctx.db
        { st.staging with conversations := conversations } }
    pending := []
    inserted := []
    taps := [] }

/-- A participant's handle and contact, and the staged row. The account holder is never a
participant. -/
def participant (p : StagedParticipant) (st : Stage) : Option Stage := do
  let current ← st.current
  let handleType := p.handleType.getD (inferHandleTypeFromShape p.handle)
  if isAccountIdentity ctx p.handle handleType then return st
  let (st, handleId, _) ← st.resolve ctx p.handle handleType current.platform.asStr
  let backupName := p.nameAlias.bind trimmed
  let st ← st.ensureContact ctx handleId backupName
  return { st with staging := { st.staging with
    participants := st.staging.participants.insertOrIgnore {
      row := fun i => ⟨i, current.conversationId, handleId, backupName⟩
      key := some (current.conversationId, handleId)
      id_row := fun _ => rfl
      key_row := fun _ => rfl } } }

/-- The handle of an incoming sender, and its contact the first time the run meets it. -/
def resolveSender (isFromMe : Bool) (address : Option String) (handleType : Option HandleType)
    (platform : String) (st : Stage) : Option (Stage × Option Int) :=
  if isFromMe then some (st, none)
  else
    match address.bind trimmed with
    | none => some (st, none)
    | some address => do
      let handleType := handleType.getD (inferHandleTypeFromShape address)
      let (st, handleId, cached) ← st.resolve ctx address handleType platform
      -- A handle in the cache is taken to have its contact.
      let st ←
        if !cached && !isAccountIdentity ctx address handleType then
          st.ensureContact ctx handleId none
        else some st
      return (st, some handleId)

/-- The handle of the account holder's own address on a message. It gets no contact. -/
def resolveOwner (address : Option String) (platform : String) (st : Stage) :
    Option (Stage × Option Int) :=
  match address with
  | none => some (st, none)
  | some address =>
    match st.owners.lookup (address, platform) with
    | some id => some (st, some id)
    | none => do
      let (book, id, _) ← upsertHandleRow ctx.toLowercase ctx.accountId address
        (inferHandleTypeFromShape address) (some platform) st.book
      return ({ st with
        book := book
        owners := ((address, platform), id) :: st.owners
        resolved := (handleKey ctx.toLowercase address (inferHandleTypeFromShape address)
          (some platform), id) :: st.resolved }, some id)

/-- Body text without Apple's attachment placeholder, or `none` when blank. -/
def cleanBody (text : Option String) : Option String :=
  (text.map (fun s => trim (String.ofList (s.toList.filter (· ≠ '\uFFFC'))))).filter (· ≠ "")

/-- Whether the header types a sender, and as what. -/
def senderType (headerTypes : List (String × HandleType)) (msg : MessageRecord) :
    Option HandleType :=
  (msg.sender.bind (fun address => headerTypes.lookup (trim address))) <|> msg.senderHandleType

/-- A message's body, sender and owner, in a row ready for the insert. -/
def message (msg : MessageRecord) (st : Stage) : Option Stage := do
  let current ← st.current
  let body :=
    if msg.isAnnouncement then cleanBody msg.announcement <|> cleanBody msg.text
    else cleanBody msg.text
  let senderPlatform := (match msg.service with
    | some service => HandleService.parse service
    | none => current.platform).asStr
  let (st, senderHandleId) ← st.resolveSender ctx msg.isFromMe msg.sender
    (senderType current.headerTypes msg) senderPlatform
  let (st, ownerHandleId) ← st.resolveOwner ctx msg.owner senderPlatform
  return { st with pending := st.pending ++ [{
    msg := msg
    senderHandleId := senderHandleId
    ownerHandleId := ownerHandleId
    senderPlatform := senderPlatform
    body := body
    sortOrder := current.firstSortOrder + st.pending.length }] }

/-- The staged row of a message. -/
def stagingMessage (current : Current) (p : PendingStagingMessage) (h : p.msg.guid ≠ "") :
    New StagingMessageRow where
  row i := {
    id := i
    conversationId := current.conversationId
    accountId := ctx.accountId
    source := current.source
    guid := p.msg.guid
    guid_ne := h
    timestamp := p.msg.timestamp
    isFromMe := if p.msg.isFromMe then 1 else 0
    senderHandleId := p.senderHandleId
    ownerHandleId := p.ownerHandleId
    service := p.msg.service
    subject := p.msg.subject
    body := p.body
    isAnnouncement := if p.msg.isAnnouncement then 1 else 0
    isReply := if p.msg.isReply then 1 else 0
    threadOriginatorGuid := p.msg.threadOriginatorGuid
    threadOriginatorPart := p.msg.threadOriginatorPart
    numReplies := p.msg.numReplies
    sortOrder := p.sortOrder
    importId := ctx.importId }
  key := some (ctx.accountId, current.source, p.msg.guid)
  id_row _ := rfl
  key_row _ := rfl

/-- One row of the chunk: inserted, skipped when its guid is staged, refused without one. -/
def insertMessageRow (current : Current) (p : PendingStagingMessage) (st : Stage) :
    Option Stage :=
  if h : p.msg.guid ≠ "" then
    match st.staging.messages.insert (stagingMessage ctx current p h) with
    | some messages => some { st with
        staging := { st.staging with messages := messages }
        inserted := st.inserted ++ [(p, st.staging.messages.nextId)] }
    | none => some st
  else none

/-- The next chunk of messages, written. -/
def rows (count : Nat) (st : Stage) : Option Stage := do
  let current ← st.current
  (st.pending.take count).foldlM (fun st p => insertMessageRow ctx current p st)
    { st with pending := st.pending.drop count, inserted := [] }

/-- The staged row of a tapback. -/
def stagingTapback (messageId : Int) (tap : TapbackRecord) (senderHandleId : Option Int) :
    New TapbackRow where
  row i := ⟨i, messageId, tap.partIndex, tap.kind, tap.emoji, if tap.isFromMe then 1 else 0,
    senderHandleId⟩
  key := none
  id_row _ := rfl
  key_row _ := rfl

/-- A tapback's sender, resolved, if the message it is on went in. The type is read from the
address's shape. -/
def tapback (index : Nat) (tap : TapbackRecord) (st : Stage) : Option Stage := do
  let current ← st.current
  match st.inserted.find? (fun row => row.1.sortOrder = current.firstSortOrder + index) with
  | none => return st
  | some (p, messageId) =>
    let (st, senderHandleId) ← st.resolveSender ctx tap.isFromMe tap.sender none p.senderPlatform
    return { st with taps := st.taps ++ [stagingTapback messageId tap senderHandleId] }

/-- The chunk's tapbacks, written. -/
def insertTapbacks (st : Stage) : Stage :=
  { st with
    staging := { st.staging with tapbacks := st.staging.tapbacks.insertOrIgnoreAll st.taps }
    inserted := []
    taps := [] }

end Stage

/-! Runs. -/

/-- One thing an import does while it stages a conversation. -/
inductive Move where
  | conversation (sourceFile : String) (c : StagedConversation)
  | participant (p : StagedParticipant)
  | message (msg : MessageRecord)
  | rows (count : Nat)
  | tapback (index : Nat) (tap : TapbackRecord)
  | insertTapbacks

/-- The state after a move; `none` when it fails, and the import with it. -/
def Stage.step (ctx : ImportContext) (move : Move) (st : Stage) : Option Stage :=
  match move with
  | .conversation sourceFile c => st.conversation ctx sourceFile c
  | .participant p => st.participant ctx p
  | .message msg => st.message ctx msg
  | .rows count => st.rows ctx count
  | .tapback index tap => st.tapback ctx index tap
  | .insertTapbacks => some st.insertTapbacks

def Stage.run (ctx : ImportContext) (moves : List Move) (st : Stage) : Option Stage :=
  moves.foldlM (fun st move => st.step ctx move) st

/-- The most message rows one statement takes. -/
def messageChunkRows : Nat := 55

/-- One chunk flushed: its rows, then each row's tapbacks in turn, then those written. -/
def flushMoves (chunk : List (MessageRecord × Nat)) : List Move :=
  .rows chunk.length ::
    (chunk.flatMap (fun row => row.1.tapbacks.map (Move.tapback row.2)) ++ [.insertTapbacks])

/-- One conversation staged. -/
def stageMoves (sourceFile : String) (c : StagedConversation) (messages : List MessageRecord) :
    List Move :=
  .conversation sourceFile c :: (c.participants.map .participant ++ messages.map .message ++
    (messages.zipIdx.toChunks messageChunkRows).flatMap flushMoves)

/-- A record of a file. -/
inductive ExportRecord where
  | conversation (c : StagedConversation)
  | message (msg : MessageRecord)

/-- Each header with the messages that follow it. A message before the first header is
refused when the file is read. -/
def groupRecords : Option (StagedConversation × List MessageRecord) → List ExportRecord →
    List (StagedConversation × List MessageRecord)
  | pending, [] => pending.toList
  | pending, .conversation c :: rest => pending.toList ++ groupRecords (some (c, [])) rest
  | some (c, messages), .message msg :: rest =>
    groupRecords (some (c, messages ++ [msg])) rest
  | none, .message _ :: rest => groupRecords none rest

/-- One file staged. -/
def importFileMoves (sourceFile : String) (records : List ExportRecord) : List Move :=
  (groupRecords none records).flatMap (fun p => stageMoves sourceFile p.1 p.2)

/-- Every file staged, in order. -/
def stageAllFiles (files : List (String × List ExportRecord)) : List Move :=
  files.flatMap (fun file => importFileMoves file.1 file.2)

end MessageCrate

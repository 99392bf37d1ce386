import MessageCrate.Lib.SqlTable
import MessageCrate.Lib.Text

/- The production tables an import writes (`schema/sql/messages.sql`), the full-text index
   beside them (`fts_virtual.sql`), and the sync triggers (`fts_triggers_create.sql`).

   A statement on `messages` or `attachments` is written here as SQLite runs it: row by
   row, each row's triggers after it, and for a deleted row the foreign-key cascades once
   the row is gone, which fire the child tables' triggers in turn. While the triggers are
   dropped (`triggers` is `false`) a statement leaves the index alone.

   Correspondence (SQL ↔ Lean):
     `messages_fts_ai`, `_ad`, `_au`        ↔ `insertMessage`, `deleteMessage`, `updateMessage`
     `attachments_fts_ai`, `_ad`, `_au`     ↔ `insertAttachment`, `deleteAttachment`,
                                              `updateAttachment`
     the `SELECT` every trigger indexes by  ↔ `ftsRow`
     `DELETE` then `INSERT … SELECT`        ↔ `reindex`

   Left out: the columns of a handle nothing here reads, and the tables that only point at
   messages (tags, export pages). -/
namespace MessageCrate
open Text SqlTable

/-! Rows. -/

structure ConversationRow where
  id : Int
  accountId : Int
  chatHandleId : Int
  conversationType : String
  groupTitle : Option String
  exportedAt : Option String
  sourceFile : String
  deriving DecidableEq, Repr

structure ParticipantRow where
  id : Int
  conversationId : Int
  handleId : Int
  nameAlias : Option String
  deriving DecidableEq, Repr

structure MessageRow where
  id : Int
  conversationId : Int
  accountId : Int
  source : String
  guid : Option String
  timestamp : String
  isFromMe : Int
  senderHandleId : Option Int
  ownerHandleId : Option Int
  service : Option String
  subject : Option String
  body : Option String
  isAnnouncement : Int
  isReply : Int
  threadOriginatorGuid : Option String
  threadOriginatorPart : Option Int
  numReplies : Int
  sortOrder : Int
  contentKey : Option String
  duplicateOf : Option Int
  importId : Option Int
  deriving DecidableEq, Repr

structure AttachmentRow where
  id : Int
  messageId : Int
  path : Option String
  originalName : Option String
  mimeType : Option String
  isSticker : Int
  transcription : Option String
  sha256 : Option String
  assetsPath : Option String
  sizeBytes : Option Int
  missingReason : Option String
  deriving DecidableEq, Repr

structure TapbackRow where
  id : Int
  messageId : Int
  partIndex : Int
  kind : String
  emoji : Option String
  isFromMe : Int
  senderHandleId : Option Int
  deriving DecidableEq, Repr

/-- One row of `messages_fts`. -/
structure FtsRow where
  rowid : Int
  body : String
  subject : String
  attachmentText : String
  deriving DecidableEq, Repr

/-- `UNIQUE(account_id, chat_handle_id)`. -/
instance : Row ConversationRow (Int × Int) where
  id := ConversationRow.id
  key c := some (c.accountId, c.chatHandleId)

/-- `UNIQUE(conversation_id, handle_id)`. -/
instance : Row ParticipantRow (Int × Int) where
  id := ParticipantRow.id
  key p := some (p.conversationId, p.handleId)

/-- `ix_messages_account_source_guid`, over the rows that have a guid. -/
def MessageRow.guidKey (m : MessageRow) : Option (Int × String × String) :=
  match m.guid with
  | some guid => if guid ≠ "" then some (m.accountId, m.source, guid) else none
  | none => none

instance : Row MessageRow (Int × String × String) where
  id := MessageRow.id
  key := MessageRow.guidKey

instance : Row AttachmentRow Empty where
  id := AttachmentRow.id
  key _ := none

instance : Row TapbackRow Empty where
  id := TapbackRow.id
  key _ := none

/-- The tables promotion writes, and whether the sync triggers are installed. -/
structure Db where
  conversations : Table ConversationRow
  participants : Table ParticipantRow
  messages : Table MessageRow
  attachments : Table AttachmentRow
  tapbacks : Table TapbackRow
  messagesFts : List FtsRow
  triggers : Bool

namespace Db

/-- The database as the schema leaves it: empty, with its triggers. -/
def empty : Db where
  conversations := Table.empty
  participants := Table.empty
  messages := Table.empty
  attachments := Table.empty
  tapbacks := Table.empty
  messagesFts := []
  triggers := true

/-! The index row of a message. -/

/-- `trim(coalesce(original_name, '') || ' ' || coalesce(transcription, ''))`. -/
def attachmentTerms (a : AttachmentRow) : String :=
  sqlTrim (a.originalName.getD "" ++ " " ++ a.transcription.getD "")

/-- The names and transcriptions of a message's attachments, joined by a space. -/
def attachmentText (db : Db) (messageId : Int) : String :=
  String.intercalate " "
    ((db.attachments.rows.filter (fun a => a.messageId = messageId)).map attachmentTerms)

/-- What the index holds of a message. -/
def ftsRow (db : Db) (m : MessageRow) : FtsRow where
  rowid := m.id
  body := m.body.getD ""
  subject := m.subject.getD ""
  attachmentText := db.attachmentText m.id

/-- `DELETE FROM messages_fts WHERE rowid = id`. -/
def ftsDelete (id : Int) (db : Db) : Db :=
  { db with messagesFts := db.messagesFts.filter (fun f => f.rowid ≠ id) }

/-- Removes a message's index row and writes it again whole, if the message is there. -/
def reindex (id : Int) (db : Db) : Db :=
  { db with
    messagesFts := db.messagesFts.filter (fun f => f.rowid ≠ id) ++
      (db.messages.rows.filter (fun m => m.id = id)).map db.ftsRow }

/-! Statements on attachments. -/

/-- One inserted attachment, and `attachments_fts_ai`. -/
def insertAttachment (n : New AttachmentRow) (db : Db) : Db :=
  let row := n.row db.attachments.nextId
  let db := { db with attachments := db.attachments.insertOrIgnore n }
  if db.triggers then db.reindex row.messageId else db

/-- One deleted attachment, and `attachments_fts_ad`. -/
def deleteAttachment (db : Db) (a : AttachmentRow) : Db :=
  let db := { db with attachments := db.attachments.delete (fun a' : AttachmentRow => a'.id = a.id) }
  if db.triggers then db.reindex a.messageId else db

/-- The new name and transcription of an attachment. -/
def attachmentChange (id : Int) (originalName transcription : Option String) :
    Change AttachmentRow where
  apply a :=
    if a.id = id then { a with originalName := originalName, transcription := transcription }
    else a
  id_apply a := by
    split <;> rfl
  key_apply _ := Or.inl rfl

/-- `UPDATE attachments SET original_name = …, transcription = … WHERE id = id`, and
`attachments_fts_au`. -/
def updateAttachment (id : Int) (originalName transcription : Option String) (db : Db) : Db :=
  let touched := db.attachments.rows.filter (fun a => a.id = id)
  let db := { db with
    attachments := db.attachments.update (attachmentChange id originalName transcription) }
  if db.triggers then touched.foldl (fun db a => db.reindex a.messageId) db else db

/-! Statements on messages. -/

/-- One inserted message and `messages_fts_ai`; nothing when its guid is taken. -/
def insertMessage (n : New MessageRow) (db : Db) : Db :=
  if db.messages.holds n.key then db
  else
    let row := n.row db.messages.nextId
    let db := { db with messages := db.messages.insertOrIgnore n }
    if db.triggers then { db with messagesFts := db.messagesFts ++ [db.ftsRow row] } else db

/-- `duplicate_of … ON DELETE SET NULL`. -/
def clearDuplicateOf (ids : Int → Bool) : Change MessageRow where
  apply m := if m.duplicateOf.any ids then { m with duplicateOf := none } else m
  id_apply m := by
    split <;> rfl
  key_apply m := by
    split <;> exact Or.inl rfl

/-- One deleted message: the row, then what cascades from it, then `messages_fts_ad`. -/
def deleteMessage (db : Db) (m : MessageRow) : Db :=
  let db := { db with
    messages := (db.messages.delete (fun m' : MessageRow => m'.id = m.id)).update
      (clearDuplicateOf (fun id => id = m.id)) }
  let db := (db.attachments.rows.filter (fun a => a.messageId = m.id)).foldl deleteAttachment db
  let db := { db with tapbacks := db.tapbacks.delete (fun t : TapbackRow => t.messageId = m.id) }
  if db.triggers then db.ftsDelete m.id else db

/-- The new body and subject of a message. -/
def messageChange (id : Int) (body subject : Option String) : Change MessageRow where
  apply m := if m.id = id then { m with body := body, subject := subject } else m
  id_apply m := by
    split <;> rfl
  key_apply m := by
    split <;> exact Or.inl rfl

/-- `UPDATE messages SET body = …, subject = … WHERE id = id`, and `messages_fts_au`. -/
def updateMessage (id : Int) (body subject : Option String) (db : Db) : Db :=
  let touched := db.messages.rows.filter (fun m => m.id = id)
  let db := { db with messages := db.messages.update (messageChange id body subject) }
  if db.triggers then touched.foldl (fun db m => db.reindex m.id) db else db

/-! Statements on conversations. -/

/-- One deleted conversation: the row, then its participants and its messages. -/
def deleteConversation (db : Db) (c : ConversationRow) : Db :=
  let db := { db with conversations := db.conversations.delete (fun c' : ConversationRow => c'.id = c.id) }
  let db := { db with
    participants := db.participants.delete (fun p : ParticipantRow => p.conversationId = c.id) }
  (db.messages.rows.filter (fun m => m.conversationId = c.id)).foldl deleteMessage db

/-- The account a conversation belongs to. -/
def accountOf (db : Db) (conversationId : Int) : Option Int :=
  (db.conversations.rows.find? (fun c => c.id = conversationId)).map ConversationRow.accountId

/-- Message ids for one source within one account. -/
def isOfSource (db : Db) (accountId : Int) (source : String) (m : MessageRow) : Bool :=
  m.source = source ∧ db.accountOf m.conversationId = some accountId

/-- The ids `MESSAGE_IDS_FOR_SOURCE` selects. -/
def messageIdsForSource (db : Db) (accountId : Int) (source : String) (id : Int) : Bool :=
  db.messages.rows.any (fun m => m.id = id ∧ db.isOfSource accountId source m)

/-- Deletes the messages of one import source within one account, and what hangs off them. -/
def deleteMessagesForSource (accountId : Int) (source : String) (db : Db) : Db :=
  let ids := db.messageIdsForSource accountId source
  let db := (db.attachments.rows.filter (fun a => ids a.messageId)).foldl deleteAttachment db
  let db := { db with tapbacks := db.tapbacks.delete (fun t : TapbackRow => ids t.messageId) }
  let db := { db with messages := db.messages.update (clearDuplicateOf ids) }
  (db.messages.rows.filter (db.isOfSource accountId source)).foldl deleteMessage db

/-! One table written, the others left alone. -/

@[simps] def setConversations (db : Db) (t : Table ConversationRow) : Db :=
  { db with conversations := t }

@[simps] def setParticipants (db : Db) (t : Table ParticipantRow) : Db :=
  { db with participants := t }

@[simps] def setMessages (db : Db) (t : Table MessageRow) : Db := { db with messages := t }

@[simps] def setAttachments (db : Db) (t : Table AttachmentRow) : Db :=
  { db with attachments := t }

@[simps] def setTapbacks (db : Db) (t : Table TapbackRow) : Db := { db with tapbacks := t }

@[simps] def pauseTriggers (db : Db) : Db := { db with triggers := false }

end Db

end MessageCrate

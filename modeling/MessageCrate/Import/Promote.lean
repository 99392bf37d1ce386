import MessageCrate.Dedupe.Run
import MessageCrate.Import.Tables

/- Promotion: the staged rows of one import copied into the production tables
   (`crates/server/server/src/imports_api/promote.rs` and the promotion half of
   `db/staging.rs`).

   A promotion runs in the import's one transaction. It upserts the conversations and maps
   their staging ids to production ids, inserts the participants and the messages, maps the
   messages, inserts what hangs off them, and indexes what is new for full-text search with
   the sync triggers paused meanwhile. A query without an `ORDER BY` is read in the order of
   a `Walk`, and each promotion may have its own.

   Correspondence (Rust ↔ Lean):
     `_promote_conv_map`, `_promote_msg_map`  ↔ `convMap`, `msgMap`, lists of id pairs
     `IS NOT DISTINCT FROM`                   ↔ `=` on `Option`
     `Promote::promote_messages` and after    ↔ `promoteMessages`, `promoteAttachments`,
                                                `promoteTapbacks`, `indexFts`
     a refused write, a `bail!`               ↔ `none`

   The index drop and rebuild of a large batch and the log lines change no row and are left
   out; `found` of the attachments' log line is kept beside the counts. -/
namespace MessageCrate
open Grouping SqlTable

/-- A staged message: no content key and no flag yet, and never without a guid. -/
structure StagingMessageRow where
  id : Int
  conversationId : Int
  accountId : Int
  source : String
  guid : String
  guid_ne : guid ≠ ""
  timestamp : String
  isFromMe : Int
  senderHandleId : Option Int
  ownerHandleId : Option Int
  service : Option String
  subject : Option String
  body : Option String
  isAnnouncement : Int
  isReply : Int
  threadOriginatorGuid : Option String
  threadOriginatorPart : Option Int
  numReplies : Int
  sortOrder : Int
  importId : Option Int
  deriving DecidableEq

/-- `ix_staging_messages_account_source_guid`. -/
instance : Row StagingMessageRow (Int × String × String) where
  id := StagingMessageRow.id
  key m := some (m.accountId, m.source, m.guid)

/-- The staging tables, scratch copies of the production ones. -/
structure Staging where
  conversations : Table ConversationRow
  participants : Table ParticipantRow
  messages : Table StagingMessageRow
  attachments : Table AttachmentRow
  tapbacks : Table TapbackRow

/-- The handles a content key reads: each one's normalized value, and whether an account
holds it as its own. -/
structure Handles where
  normalized : Int → String
  isHolder : Int → Int → Bool

inductive ImportMode where
  | append
  | replace
  deriving DecidableEq, Repr

structure PromoteStats where
  conversations : Nat
  participants : Nat
  messages : Nat
  attachments : Nat
  /-- Attachments stored without a file that took one. -/
  found : Nat
  tapbacks : Nat
  messagesDeduped : Nat
  messagesAppended : Nat
  deriving DecidableEq, Repr

/-! Conversations and participants. -/

/-- A staged conversation into `conversations`. A row already there keeps its title and
export time when the staged row has none. -/
def ConversationRow.upsert (sc : ConversationRow) : Table.Upsert ConversationRow where
  new := {
    row := fun i => { sc with id := i }
    key := some (sc.accountId, sc.chatHandleId)
    id_row := fun _ => rfl
    key_row := fun _ => rfl }
  change := {
    apply := fun c => { c with
      conversationType := sc.conversationType
      groupTitle := sc.groupTitle <|> c.groupTitle
      exportedAt := sc.exportedAt <|> c.exportedAt
      sourceFile := sc.sourceFile }
    id_apply := fun _ => rfl
    key_apply := fun _ => Or.inl rfl }
  keeps _ := rfl
  settled_row _ := by
    cases sc.groupTitle <;> cases sc.exportedAt <;> rfl
  settled _ := by
    cases sc.groupTitle <;> cases sc.exportedAt <;> rfl

/-- A staged participant under production conversation `prodId`. -/
def ParticipantRow.promoted (sp : ParticipantRow) (prodId : Int) : New ParticipantRow where
  row i := { sp with id := i, conversationId := prodId }
  key := some (prodId, sp.handleId)
  id_row _ := rfl
  key_row _ := rfl

namespace Staging
variable (s : Staging) (accountId : Int)

/-- The account's staged conversations. -/
def conversationsOf : List ConversationRow :=
  s.conversations.rows.filter (fun c => c.accountId = accountId)

/-- `_promote_conv_map`: the staged conversations beside the production ones of their key. -/
def convMap (db : Db) : List (Int × Int) :=
  idMap ConversationRow.id (fun sc =>
    (db.conversations.find? (sc.accountId, sc.chatHandleId)).map ConversationRow.id)
    (s.conversationsOf accountId)

end Staging

section
variable (w : Walk) (s : Staging) (accountId : Int)

/-- Upserts the staged conversations; the map, and how many of them are new. -/
def promoteConversations (db : Db) : Db × List (Int × Int) × Nat :=
  let maxBefore := db.conversations.maxId
  let db := { db with conversations :=
    db.conversations.upsertAll ((w.order (s.conversationsOf accountId)).map ConversationRow.upsert) }
  let map := s.convMap accountId db
  (db, map, map.countP (fun p => maxBefore < p.2))

/-- The rows the staged participants make under their production conversations. -/
def newParticipants (convMap : List (Int × Int)) : List (New ParticipantRow) :=
  (w.order s.participants.rows).filterMap (fun sp =>
    (convMap.lookup sp.conversationId).map sp.promoted)

/-- Inserts the staged participants, skipping any production already has. -/
def promoteParticipants (convMap : List (Int × Int)) (db : Db) : Db × Nat :=
  let db' := { db with
    participants := db.participants.insertOrIgnoreAll (newParticipants w s convMap) }
  (db', db'.participants.rows.length - db.participants.rows.length)

/-! Messages. -/

/-- A staged message under production conversation `prodId`. -/
def StagingMessageRow.promoted (sm : StagingMessageRow) (prodId : Int) : New MessageRow where
  row i := {
    id := i
    conversationId := prodId
    accountId := sm.accountId
    source := sm.source
    guid := some sm.guid
    timestamp := sm.timestamp
    isFromMe := sm.isFromMe
    senderHandleId := sm.senderHandleId
    ownerHandleId := sm.ownerHandleId
    service := sm.service
    subject := sm.subject
    body := sm.body
    isAnnouncement := sm.isAnnouncement
    isReply := sm.isReply
    threadOriginatorGuid := sm.threadOriginatorGuid
    threadOriginatorPart := sm.threadOriginatorPart
    numReplies := sm.numReplies
    sortOrder := sm.sortOrder
    contentKey := none
    duplicateOf := none
    importId := sm.importId }
  key := some (sm.accountId, sm.source, sm.guid)
  id_row _ := rfl
  key_row _ := by simp [Row.key, MessageRow.guidKey, sm.guid_ne]

/-- How many messages the account has staged. -/
def countStagedMessages : Nat :=
  s.messages.rows.countP (fun m => (s.conversationsOf accountId).any (fun c => c.id = m.conversationId))

/-- The account's staged messages under a mapped conversation, in id order, each with its
production conversation. -/
def stagedMessages (convMap : List (Int × Int)) : List (StagingMessageRow × Int) :=
  ((s.messages.rows.insertionSort (fun m m' => m.id ≤ m'.id)).filter
    (fun m => m.accountId = accountId)).filterMap (fun m =>
      (convMap.lookup m.conversationId).map (fun prodId => (m, prodId)))

/-- Messages are inserted in staging-id ranges this wide. -/
def promoteMessageBatch : Int := 50000

/-- The `(lo exclusive, hi inclusive)` id ranges that cover the ids above `lo` up to
`maxId`. -/
def messageChunks (lo maxId : Int) : List (Int × Int) :=
  if lo < maxId then
    let hi := min (lo + promoteMessageBatch) maxId
    (lo, hi) :: messageChunks hi maxId
  else []
termination_by (maxId - lo).toNat
decreasing_by
  unfold promoteMessageBatch
  omega

/-- The staged messages of one range. -/
def inRange (staged : List (StagingMessageRow × Int)) (range : Int × Int) :
    List (StagingMessageRow × Int) :=
  staged.filter (fun p => range.1 < p.1.id ∧ p.1.id ≤ range.2)

/-- The ranges the staged messages are inserted in. -/
def stagedChunks (staged : List (StagingMessageRow × Int)) :
    List (List (StagingMessageRow × Int)) :=
  match (staged.map (fun p => p.1.id)).min?, (staged.map (fun p => p.1.id)).max? with
  | some minId, some maxId => (messageChunks (minId - 1) maxId).map (inRange staged)
  | _, _ => []

/-- The rows one range inserts. -/
def newMessages (staged : List (StagingMessageRow × Int)) : List (New MessageRow) :=
  staged.map (fun p => p.1.promoted p.2)

/-- Append mode: rows production already has are skipped by the guid index. -/
def insertMessagesAppend (staged : List (StagingMessageRow × Int)) (db : Db) : Db :=
  (stagedChunks staged).foldl
    (fun db chunk => (newMessages chunk).foldl (fun db n => db.insertMessage n) db) db

/-- Pairs the staged ids of one range with the account's production ids that appeared above
`maxBefore`, in order; `none` when the two counts differ. -/
def zipNewMessageIds (staged : List Int) (maxBefore : Int) (db : Db) :
    Option (List (Int × Int)) :=
  let prodIds := ((db.messages.rows.filter
    (fun m => maxBefore < m.id ∧ m.accountId = accountId)).map MessageRow.id).insertionSort (· ≤ ·)
  if staged.length = prodIds.length then some (staged.zip prodIds) else none

/-- One range of replace mode: every staged row is new, so a taken guid is an error. -/
def insertRangeReplace (acc : Db × List (Int × Int)) (chunk : List (StagingMessageRow × Int)) :
    Option (Db × List (Int × Int)) := do
  let db ← (newMessages chunk).foldlM (fun db n =>
    if db.messages.holds n.key then none else some (db.insertMessage n)) acc.1
  let pairs ← zipNewMessageIds accountId (chunk.map (fun p => p.1.id)) acc.1.messages.maxId db
  return (db, acc.2 ++ pairs)

/-- Replace mode: each range is inserted and its production ids zipped onto the staged ids
straight away. -/
def insertMessagesReplace (staged : List (StagingMessageRow × Int)) (db : Db) :
    Option (Db × List (Int × Int)) :=
  (stagedChunks staged).foldlM (insertRangeReplace accountId) (db, [])

/-- Inserts the staged messages; the pairs the mode knows already. -/
def insertMessages (mode : ImportMode) (staged : List (StagingMessageRow × Int)) (db : Db) :
    Option (Db × List (Int × Int)) :=
  match mode with
  | .replace => insertMessagesReplace accountId staged db
  | .append => some (insertMessagesAppend staged db, [])

/-- `_promote_msg_map`: `pairs`, then every staged row beside the production message of its
guid, which takes the place of its pair. -/
def writeMessageMap (staged : List (StagingMessageRow × Int)) (pairs : List (Int × Int))
    (db : Db) : List (Int × Int) :=
  let joined := idMap (fun p : StagingMessageRow × Int => p.1.id) (fun p =>
    (db.messages.find? (p.1.accountId, p.1.source, p.1.guid)).map MessageRow.id) staged
  joined ++ pairs.filter (fun p => (joined.lookup p.1).isNone)

/-- Inserts the staged messages with the triggers paused. Answers the message map, the
highest message id there was before, and how many rows went in. -/
def promoteMessages (mode : ImportMode) (convMap : List (Int × Int)) (db : Db) :
    Option (Db × List (Int × Int) × Int × Nat) := do
  let staged := stagedMessages s accountId convMap
  let db := { db with triggers := false }
  let messagesBefore := db.messages.maxId
  let (db', pairs) ← insertMessages accountId mode staged db
  return (db', writeMessageMap staged pairs db', messagesBefore,
    db'.messages.rows.length - db.messages.rows.length)

/-! Attachments and tapbacks. -/

/-- The same attachment of one message, when it has a path. -/
def AttachmentRow.SamePath (a sa : AttachmentRow) : Prop :=
  a.path = sa.path ∧ a.originalName = sa.originalName ∧ a.isSticker = sa.isSticker

instance (a sa : AttachmentRow) : Decidable (a.SamePath sa) := by
  unfold AttachmentRow.SamePath
  infer_instance

/-- The same attachment of one message: by its path, and in every field without one. -/
def AttachmentRow.Same (a sa : AttachmentRow) : Prop :=
  a.SamePath sa ∧
    (sa.path ≠ none ∨
      (a.mimeType = sa.mimeType ∧ a.transcription = sa.transcription ∧ a.sha256 = sa.sha256 ∧
        a.assetsPath = sa.assetsPath ∧ a.sizeBytes = sa.sizeBytes ∧
        a.missingReason = sa.missingReason))

instance (a sa : AttachmentRow) : Decidable (a.Same sa) := by
  unfold AttachmentRow.Same
  infer_instance

/-- The staged attachments of the mapped messages, each with its production message. -/
def stagedAttachments (msgMap : List (Int × Int)) : List (AttachmentRow × Int) :=
  (w.order s.attachments.rows).filterMap (fun sa =>
    (msgMap.lookup sa.messageId).map (fun prodId => (sa, prodId)))

/-- The staged row a stored attachment takes its file from, if there is one: SQLite takes any
row that fits. -/
def fileFor (staged : List (AttachmentRow × Int)) (a : AttachmentRow) : Option AttachmentRow :=
  if a.sha256 = none then
    (staged.find? (fun f => f.1.path ≠ none ∧ f.1.sha256 ≠ none ∧ a.messageId = f.2 ∧
      a.SamePath f.1)).map Prod.fst
  else none

/-- Gives the attachments stored without a file the file of a staged row. -/
def fillFile (staged : List (AttachmentRow × Int)) : Change AttachmentRow where
  apply a :=
    match fileFor staged a with
    | some f => { a with
        sha256 := f.sha256
        assetsPath := f.assetsPath
        sizeBytes := f.sizeBytes
        mimeType := f.mimeType <|> a.mimeType
        missingReason := none }
    | none => a
  id_apply a := by
    split <;> rfl
  key_apply _ := Or.inl rfl

/-- A staged attachment under production message `prodId`. -/
def AttachmentRow.promoted (sa : AttachmentRow) (prodId : Int) : New AttachmentRow where
  row i := { sa with id := i, messageId := prodId }
  key := none
  id_row _ := rfl
  key_row _ := rfl

/-- The rows the staged attachments make that production does not have. -/
def newAttachments (staged : List (AttachmentRow × Int)) (stored : List AttachmentRow) :
    List (New AttachmentRow) :=
  (staged.filter (fun p => !stored.any (fun a => a.messageId = p.2 ∧ a.Same p.1))).map
    (fun p => p.1.promoted p.2)

/-- Inserts the staged attachments under their production messages. Whether production has a
row already is read before any goes in. Answers how many rows took a file and how many went
in. -/
def promoteAttachments (msgMap : List (Int × Int)) (db : Db) : Db × Nat × Nat :=
  let staged := stagedAttachments w s msgMap
  let filled := db.attachments.rows.countP (fun a => (fileFor staged a).isSome)
  let db := { db with attachments := db.attachments.update (fillFile staged) }
  let news := newAttachments staged db.attachments.rows
  (news.foldl (fun db n => db.insertAttachment n) db, filled, news.length)

/-- The same tapback of one message, field for field. -/
def TapbackRow.Same (t st : TapbackRow) : Prop :=
  t.partIndex = st.partIndex ∧ t.kind = st.kind ∧ t.emoji = st.emoji ∧
    t.isFromMe = st.isFromMe ∧ t.senderHandleId = st.senderHandleId

instance (t st : TapbackRow) : Decidable (t.Same st) := by
  unfold TapbackRow.Same
  infer_instance

/-- A staged tapback under production message `prodId`. -/
def TapbackRow.promoted (st : TapbackRow) (prodId : Int) : New TapbackRow where
  row i := { st with id := i, messageId := prodId }
  key := none
  id_row _ := rfl
  key_row _ := rfl

/-- The staged tapbacks of the mapped messages, each with its production message. -/
def stagedTapbacks (msgMap : List (Int × Int)) : List (TapbackRow × Int) :=
  (w.order s.tapbacks.rows).filterMap (fun st =>
    (msgMap.lookup st.messageId).map (fun prodId => (st, prodId)))

/-- The rows the staged tapbacks make that production does not have. -/
def newTapbacks (staged : List (TapbackRow × Int)) (stored : List TapbackRow) :
    List (New TapbackRow) :=
  (staged.filter (fun p => !stored.any (fun t => t.messageId = p.2 ∧ t.Same p.1))).map
    (fun p => p.1.promoted p.2)

/-- Inserts the staged tapbacks under their production messages, skipping any row production
already has. -/
def promoteTapbacks (msgMap : List (Int × Int)) (db : Db) : Db × Nat :=
  let news := newTapbacks (stagedTapbacks w s msgMap) db.tapbacks.rows
  ({ db with tapbacks := db.tapbacks.insertOrIgnoreAll news }, news.length)

/-! The index. -/

/-- Indexes the new messages and the existing ones that gained an attachment, and puts the
triggers back. -/
def indexFts (msgMap : List (Int × Int)) (messagesBefore attachmentsBefore : Int) (db : Db) :
    Db :=
  let gained := (db.attachments.rows.filter
    (fun a => attachmentsBefore < a.id ∧ a.messageId ≤ messagesBefore)).map AttachmentRow.messageId
  let ids := (((msgMap.map Prod.snd).filter (fun id => messagesBefore < id)) ++ gained).dedup
  { db with
    messagesFts := db.messagesFts.filter (fun f => f.rowid ∉ gained) ++
      (w.order ids).flatMap (fun id =>
        (db.messages.rows.filter (fun m => m.id = id)).map db.ftsRow)
    triggers := true }

/-- Every phase between the wipe and the content keys, in the order the maps need. -/
def promoteStaged (mode : ImportMode) (db : Db) : Option (Db × PromoteStats) := do
  let (db, convMap, conversations) := promoteConversations w s accountId db
  let (db, participants) := promoteParticipants w s convMap db
  let (db, msgMap, messagesBefore, messages) ← promoteMessages s accountId mode convMap db
  let attachmentsBefore := db.attachments.maxId
  let (db, found, attachments) := promoteAttachments w s msgMap db
  let (db, tapbacks) := promoteTapbacks w s msgMap db
  let db := indexFts w msgMap messagesBefore attachmentsBefore db
  return (db, {
    conversations := conversations
    participants := participants
    messages := messages
    attachments := attachments
    found := found
    tapbacks := tapbacks
    messagesDeduped :=
      match mode with
      | .replace => 0
      | .append =>
        if (stagedMessages s accountId convMap).isEmpty then 0
        else countStagedMessages s accountId - messages
    messagesAppended := messages })

end

/-! Content keys. -/

section
variable (sha256Hex : ByteArray → String) (rfc3339Secs : String → Option Int)

/-- A message as the content keys read it. -/
def Db.message (handles : Handles) (db : Db) (m : MessageRow) : Message where
  id := m.id
  conversationId := m.conversationId
  source := m.source
  isFromMe := m.isFromMe
  timestamp := m.timestamp
  body := m.body
  senderNormalized := m.senderHandleId.map handles.normalized
  attachmentShas := (db.attachments.rows.filter (fun a => a.messageId = m.id)).map
    AttachmentRow.sha256
  contentKey := m.contentKey
  duplicateOf := m.duplicateOf

/-- The account as the content keys read it. -/
def Db.account (handles : Handles) (accountId : Int) (db : Db) : Account where
  conversation id :=
    match db.conversations.rows.find? (fun c => c.id = id) with
    | some c => {
        chatNormalized := handles.normalized c.chatHandleId
        conversationType := c.conversationType
        participants := (db.participants.rows.filter (fun p => p.conversationId = id)).map
          (fun p => ⟨handles.normalized p.handleId, handles.isHolder accountId p.handleId⟩) }
    | none => ⟨"", "", []⟩
  messages := (db.messages.rows.filter (fun m => db.accountOf m.conversationId = some accountId)).map
    (db.message handles)
  ids_nodup := by
    rw [List.map_map]
    exact db.messages.ids_nodup.sublist (List.filter_sublist.map _)

/-- Computes a key for each message that lacks one; a message whose time does not parse keeps
none. -/
def Account.missingContentKeys (a : Account) : List (Int × String) :=
  (a.messages.filter (fun m => m.contentKey = none ∨ m.contentKey = some "")).filterMap (fun m =>
    contentKeyForRow sha256Hex rfc3339Secs (a.contentKeyRow m) a.groupHandles a.shasByMsg)

/-- `UPDATE messages SET content_key = k.content_key FROM keys k WHERE id = k.id`. -/
def rekey (keys : List (Int × String)) : Change MessageRow where
  apply m :=
    match keys.lookup m.id with
    | some key => { m with contentKey := some key }
    | none => m
  id_apply m := by
    split <;> rfl
  key_apply m := by
    split <;> exact Or.inl rfl

/-- Fills the dedupe content keys the account's messages are missing. -/
def fillMissingContentKeys (handles : Handles) (accountId : Int) (db : Db) : Db :=
  let keys := (db.account handles accountId).missingContentKeys sha256Hex rfc3339Secs
  { db with messages := db.messages.update (rekey keys) }

/-- Deletes the account's rows of each source. -/
def Db.wipeSources (accountId : Int) (sources : List String) (db : Db) : Db :=
  sources.foldl (fun db source => db.deleteMessagesForSource accountId source) db

/-- Moves the account's staged rows into the production tables, wiping `wipeSources` first in
replace mode. -/
def promoteAppend (handles : Handles) (w : Walk) (mode : ImportMode) (accountId : Int)
    (fillContentKeys : Bool) (wipeSources : List String) (s : Staging) (db : Db) :
    Option (Db × PromoteStats) := do
  let db := if mode = .replace then db.wipeSources accountId wipeSources else db
  let (db, stats) ← promoteStaged w s accountId mode db
  let db :=
    if fillContentKeys then fillMissingContentKeys sha256Hex rfc3339Secs handles accountId db
    else db
  return (db, stats)

end

end MessageCrate

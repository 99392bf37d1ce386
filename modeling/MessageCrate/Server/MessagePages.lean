import Mathlib.Data.Prod.Lex
import Mathlib.Data.String.Basic
import MessageCrate.Lib.Keyset

/- One page of a conversation's messages (`conversation_messages.rs`).

   Correspondence (Rust ↔ Lean):
     `get_conversation_messages`                          ↔ `getConversationMessages`
     `window_sides`, `MessageWindow`                      ↔ `windowSides`, `MessageWindow`
     `conversation_messages_where`                        ↔ `conversationMessagesWhere`
     `messages_from_sql`, `conversation_join_sql`         ↔ `messagesFrom`
     `load_messages`, `load_messages_from`                ↔ `loadMessages`, `loadMessagesFrom`
     `(m.timestamp, m.sort_order, m.id) < (?, ?, ?)`      ↔ `place`, `beside`
     a `LIMIT` or an `OFFSET` as SQLite's `i64`           ↔ `sqlInt`

   Text is compared by its bytes in UTF-8, which is the order of the code points. The statements
   of one call read one state, and the number of messages is an `i64`. Of a message's columns those
   are here that a page is picked and sorted by, and its handles, which the statement joins; what is
   read of a row that is on the page is not. -/
namespace MessageCrate.MessagePages

/-! The tables. -/

structure HandleRow where
  id : Int
  raw : String

structure ConversationRow where
  id : Int
  accountId : Int
  chatHandleId : Int

structure MessageRow where
  id : Int
  conversationId : Int
  accountId : Int
  timestamp : String
  sortOrder : Int
  senderHandleId : Option Int
  ownerHandleId : Option Int
  duplicateOf : Option Int

/-- Ids are primary keys, and a conversation's chat handle is there. -/
structure Db where
  handles : List HandleRow
  conversations : List ConversationRow
  messages : List MessageRow
  handleIds : (handles.map HandleRow.id).Nodup
  conversationIds : (conversations.map ConversationRow.id).Nodup
  messageIds : (messages.map MessageRow.id).Nodup
  chatHandles : ∀ c ∈ conversations, ∃ h ∈ handles, h.id = c.chatHandleId
  counted : messages.length < 2 ^ 63

/-- A message with its handles' raw texts. -/
structure Message where
  row : MessageRow
  chatIdentifier : String
  sender : Option String
  owner : Option String

/-! Statements. -/

inductive Direction
  | asc
  | desc
  deriving DecidableEq

inductive MessageSort
  | date
  deriving DecidableEq

structure SortKey where
  key : MessageSort
  direction : Direction

/-- The keys that every message list sorts by: the timestamp, `sort_order` and the id. -/
abbrev Place := String ×ₗ Int ×ₗ Int

def place (m : MessageRow) : Place := toLex (m.timestamp, toLex (m.sortOrder, m.id))

/-- A `WHERE` on the message's own columns. -/
abbrev Where := MessageRow → Bool

def conversationMessagesWhere (conversationId accountId : Int) : Where := fun m =>
  m.conversationId = conversationId ∧ m.accountId = accountId ∧ m.duplicateOf = none

/-- `LEFT JOIN handles h ON h.id = …`. -/
def leftJoin (handles : List HandleRow) (id : Option Int) : List (Option String) :=
  match handles.filter fun h => some h.id = id with
  | [] => [none]
  | found => found.map fun h => some h.raw

/-- The rows that the joins make of a message. -/
def joinRow (db : Db) (m : MessageRow) : List Message :=
  (db.conversations.filter fun c => c.id = m.conversationId).flatMap fun c =>
    (db.handles.filter fun h => h.id = c.chatHandleId).flatMap fun hc =>
      (leftJoin db.handles m.senderHandleId).flatMap fun hs =>
        (leftJoin db.handles m.ownerHandleId).map fun ho => ⟨m, hc.raw, hs, ho⟩

def messagesFrom (db : Db) : List Message := db.messages.flatMap (joinRow db)

def orderBy : Direction → List Message → List Message
  | .asc => Keyset.orderBy fun r => place r.row
  | .desc => Keyset.orderBy fun r => OrderDual.toDual (place r.row)

def sqlInt (n : Nat) : Nat := min n (2 ^ 63 - 1)

def loadMessagesFrom (db : Db) (filter : Where) (order : Direction) (limit offset : Nat) :
    List Message :=
  ((orderBy order ((messagesFrom db).filter fun r => filter r.row)).drop (sqlInt offset)).take
    (sqlInt limit)

/-- The direction of the `date` key, ascending where there is none. -/
def directionOf (order : List SortKey) : Direction :=
  match order.find? fun k => k.key = .date with
  | some k => k.direction
  | none => .asc

def loadMessages (db : Db) (filter : Where) (order : List SortKey) (limit offset : Nat) :
    List Message :=
  loadMessagesFrom db filter (directionOf order) limit offset

def count (db : Db) (filter : Where) : Nat := (db.messages.filter filter).length

def ownsConversation (db : Db) (accountId conversationId : Int) : Bool :=
  db.conversations.any fun c => c.id = conversationId ∧ c.accountId = accountId

/-! A page. -/

inductive MessageWindow
  | offset (offset : Nat)
  | around (id : Int)
  | before (id : Int)
  | after (id : Int)

/-- The query parameter that names the message, and the message's id. -/
def MessageWindow.anchor : MessageWindow → Option (String × Int)
  | .offset _ => none
  | .around id => some ("around", id)
  | .before id => some ("before", id)
  | .after id => some ("after", id)

def MessageWindow.start : MessageWindow → Nat
  | .offset n => n
  | _ => 0

structure Page where
  items : List Message
  total : Nat
  limit : Nat
  offset : Nat

inductive ApiError
  | validationFailed (message : String)

/-- How many messages a page beside a message takes from each side of it, and whether it holds the
message itself. -/
def windowSides (window : MessageWindow) (position total limit : Nat) : Nat × Bool × Nat :=
  let beforeAvailable := position
  let afterAvailable := total - (position + 1)
  match window with
  | .offset _ => (0, false, 0)
  | .before _ => (min limit beforeAvailable, false, 0)
  | .after _ => (0, false, min limit afterAvailable)
  | .around _ =>
    let others := limit - 1
    let afterWanted := min afterAvailable (others - others / 2)
    let before := min beforeAvailable (others - afterWanted)
    let after := min afterAvailable (others - before)
    (before, true, after)

/-- Where a page starts that takes `before` messages from in front of the anchor. -/
def pageOffset (window : MessageWindow) (position before : Nat) : Nat :=
  match window with
  | .after _ => position + 1
  | _ => position - before

def Direction.reverse : Direction → Direction
  | .asc => .desc
  | .desc => .asc

/-- The messages of `filter` that come before a place in a direction. -/
def precedes (filter : Where) (anchor : Place) : Direction → Where
  | .asc => fun m => filter m && decide (place m < anchor)
  | .desc => fun m => filter m && decide (anchor < place m)

def follows (filter : Where) (anchor : Place) (direction : Direction) : Where :=
  precedes filter anchor direction.reverse

def getConversationMessages (db : Db) (accountId conversationId : Int) (order : List SortKey)
    (limit : Nat) (window : MessageWindow) : Except ApiError (Option Page) :=
  if ownsConversation db accountId conversationId = false then .ok none
  else
    let filter := conversationMessagesWhere conversationId accountId
    let total := count db filter
    match window.anchor with
    | none =>
      let offset := window.start
      .ok (some ⟨loadMessages db filter order limit offset, total, limit, offset⟩)
    | some (parameter, anchorId) =>
      match db.messages.find? fun m => filter m && m.id == anchorId with
      | none =>
        .error (.validationFailed (parameter ++ ": message " ++ toString anchorId ++
          " is not in this conversation"))
      | some anchor =>
        let direction := directionOf order
        let at_ : Place := toLex (anchor.timestamp, toLex (anchor.sortOrder, anchorId))
        let position := count db (precedes filter at_ direction)
        let (before, holdsAnchor, after) := windowSides window position total limit
        -- read outward from the message, and turned back into the page's order
        let preceding :=
          if 0 < before then
            (loadMessagesFrom db (precedes filter at_ direction) direction.reverse before 0).reverse
          else []
        let own :=
          if holdsAnchor then
            loadMessagesFrom db (fun m => filter m && m.id == anchorId) direction 1 0
          else []
        let following :=
          if 0 < after then loadMessagesFrom db (follows filter at_ direction) direction after 0
          else []
        .ok (some ⟨preceding ++ own ++ following, total, limit, pageOffset window position before⟩)

/-! What is shown. -/

/-- The messages that a conversation shows, in the order of its pages. -/
def shown (db : Db) (accountId conversationId : Int) (direction : Direction) : List Message :=
  orderBy direction
    ((messagesFrom db).filter fun r => conversationMessagesWhere conversationId accountId r.row)

def Message.id (m : Message) : Int := m.row.id

end MessageCrate.MessagePages

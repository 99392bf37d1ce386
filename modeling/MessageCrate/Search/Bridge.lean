import MessageCrate.Lib.SqlText
import MessageCrate.Search.Fields
import MessageCrate.Search.Value

/- SQL fragments and what they say from each list's base row
   (`crates/server/server/src/search/bridge.rs`, and the "not trashed" clauses of
   `emit.rs` it uses).

   `ListCtx` says what "this contact", "this conversation" and "this message" mean on each
   list. Every emitter writes its text once, against the alias it needs, and a wrapper
   (`conversation`, `message`, `contact` and so on) makes it true of the base row.

   Correspondence (Rust ↔ Lean):
     `Sql`                        ↔ `Sql`, the list of its writes; `text` and `params` are
                                    what the source accumulates from them
     `out.push(s)`                ↔ appending `push s`
     `bind_text`, `bind_int`      ↔ `bindText`, `bindInt`
     `inner: impl FnOnce(&mut Sql)` ↔ the fragment it writes

   Every wrapper closes the parentheses it opens and joins nothing outside them, so it is
   guarded around a closed fragment. -/
namespace MessageCrate
open SqlText

set_option maxRecDepth 10000

/-- A value bound to a placeholder. -/
inductive SqlParam where
  | text (s : String)
  | int (n : Int)
  deriving DecidableEq, Repr

/-- A fragment under construction. -/
abbrev Sql := Frag SqlParam

def push (s : String) : Sql := [.raw s]
def bindText (v : String) : Sql := [.bound (.text v)]
def bindInt (v : Int) : Sql := [.bound (.int v)]

/-- `column LIKE ?` without regard to case, with `\` as the escape character. -/
def like (column pattern : String) : Sql :=
  [.raw ("lower(" ++ column ++ ") LIKE lower("), .bound (.text pattern), .raw ") ESCAPE '\\'"]

/-! The trash. -/

/-- Conversation `conv` is not in the trash. -/
def notTrashedConversation (conv : String) : String :=
  "NOT EXISTS (SELECT 1 FROM trashed_conversations tc WHERE tc.account_id = " ++ conv ++
    ".account_id AND tc.conversation_id = " ++ conv ++ ".id)"

/-- The contact with id `idExpr` in account `accountExpr` is not in the trash. -/
def notTrashedContactId (accountExpr idExpr : String) : String :=
  "NOT EXISTS (SELECT 1 FROM trashed_contacts tct WHERE tct.account_id = " ++ accountExpr ++
    " AND tct.contact_id = " ++ idExpr ++ ")"

/-- Contact `ct` is not in the trash. -/
def notTrashedContact (ct : String) : String :=
  notTrashedContactId (ct ++ ".account_id") (ct ++ ".id")

/-- Whether the rows a search reaches on another list count when they are in the trash. -/
inductive TrashScope where
  | leftOut
  | counted
  deriving DecidableEq, Repr

def TrashScope.conversationClause (trash : TrashScope) (conv : String) : String :=
  match trash with
  | .leftOut => " AND " ++ notTrashedConversation conv
  | .counted => ""

def TrashScope.contactClause (trash : TrashScope) (ct : String) : String :=
  match trash with
  | .leftOut => " AND " ++ notTrashedContact ct
  | .counted => ""

/-! Links between rows. -/

/-- Conversation `conv` involves the contact `contactExpr`. -/
def conversationInvolves (conv contactExpr : String) : String :=
  "EXISTS (SELECT 1 FROM contact_handles chi WHERE chi.account_id = " ++ conv ++
    ".account_id AND chi.contact_id = " ++ contactExpr ++ " AND (chi.handle_id = " ++ conv ++
    ".chat_handle_id OR EXISTS (SELECT 1 FROM participants pi WHERE pi.conversation_id = " ++
    conv ++ ".id AND pi.handle_id = chi.handle_id)))"

/-- Ties conversations alias `c2` to the base contact `ct`. -/
def contactConversationsLink (c2 : String) : String :=
  c2 ++ ".account_id = ct.account_id AND " ++ conversationInvolves c2 "ct.id"

/-- The messages sent from the handles `handles` picks. -/
def sentMessagesWhere (handles : String) (trash : TrashScope) : String :=
  "FROM contact_handles chs JOIN messages m ON m.sender_handle_id = chs.handle_id AND m.account_id = chs.account_id JOIN conversations c ON c.id = m.conversation_id WHERE " ++
    handles ++ " AND m.is_from_me = 0 AND m.duplicate_of IS NULL" ++ trash.conversationClause "c"

/-- The messages contact `ct` sent. -/
def contactSentMessages (trash : TrashScope) : String :=
  sentMessagesWhere "chs.account_id = ct.account_id AND chs.contact_id = ct.id" trash

/-- What a message aggregate asks of the base row's messages. -/
inductive MessageAgg where
  | count
  | first
  | last

/-! The base row of each list. -/

/-- Which list a fragment is for, and what it needs from the request. -/
structure ListCtx where
  list : ListKind
  accountId : Int
  zone : Tz
  trash : TrashScope

namespace ListCtx
variable (ctx : ListCtx)

/-- The base row's account column. -/
def accountCol : String :=
  match ctx.list with
  | .contacts => "ct.account_id"
  | .conversations => "c.account_id"
  | .messages => "m.account_id"

def contactConversationsLink (c2 : String) : String :=
  MessageCrate.contactConversationsLink c2 ++ ctx.trash.conversationClause c2

def contactSentMessages : String := MessageCrate.contactSentMessages ctx.trash

/-- `inner`, written against conversation `c`, said of the base row. -/
def conversation (inner : Sql) : Sql :=
  match ctx.list with
  | .conversations => push "(" ++ inner ++ push ")"
  | .messages =>
    push "EXISTS (SELECT 1 FROM conversations c WHERE c.id = m.conversation_id AND (" ++ inner ++
      push "))"
  | .contacts =>
    push ("EXISTS (SELECT 1 FROM conversations c WHERE " ++ ctx.contactConversationsLink "c" ++
      " AND (") ++ inner ++ push "))"

/-- `inner`, written against message `m`, said of the base row. On Contacts that is a
message the contact sent. -/
def message (inner : Sql) : Sql :=
  match ctx.list with
  | .messages =>
    push "EXISTS (SELECT 1 FROM conversations c WHERE c.id = m.conversation_id AND (" ++ inner ++
      push "))"
  | .conversations =>
    push "EXISTS (SELECT 1 FROM messages m WHERE m.conversation_id = c.id AND m.duplicate_of IS NULL AND (" ++
      inner ++ push "))"
  | .contacts =>
    push ("EXISTS (SELECT 1 " ++ ctx.contactSentMessages ++ " AND (") ++ inner ++ push "))"

/-- As `message`, but on Contacts a message of one of the contact's conversations, whoever
sent it. -/
def conversationMessage (inner : Sql) : Sql :=
  match ctx.list with
  | .messages | .conversations => ctx.message inner
  | .contacts =>
    push ("EXISTS (SELECT 1 FROM conversations c JOIN messages m ON m.conversation_id = c.id AND m.duplicate_of IS NULL WHERE " ++
      ctx.contactConversationsLink "c" ++ " AND (") ++ inner ++ push "))"

/-- `inner`, written against contact `ct`, said of the base row. -/
def contact (inner : Sql) : Sql :=
  match ctx.list with
  | .contacts => push "(" ++ inner ++ push ")"
  | .conversations =>
    push ("EXISTS (SELECT 1 FROM contacts ct WHERE ct.account_id = c.account_id AND " ++
      conversationInvolves "c" "ct.id" ++ ctx.trash.contactClause "ct" ++ " AND (") ++ inner ++
      push "))"
  | .messages =>
    push ("EXISTS (SELECT 1 FROM conversations c JOIN contacts ct ON ct.account_id = c.account_id WHERE c.id = m.conversation_id AND " ++
      conversationInvolves "c" "ct.id" ++ ctx.trash.contactClause "ct" ++ " AND (") ++ inner ++
      push "))"

/-- The rows of `list`, reached from the base row. -/
def reach (list : ListKind) (inner : Sql) : Sql :=
  match list with
  | .contacts => ctx.contact inner
  | .conversations => ctx.conversation inner
  | .messages => ctx.message inner

/-- A scalar subquery over the base row's messages that are no duplicates. -/
def messageAggregate (agg : MessageAgg) : String :=
  let perConversation :=
    match agg with
    | .count => "COUNT(*)"
    | .first => "MIN(m2.timestamp)"
    | .last => "MAX(m2.timestamp)"
  match ctx.list with
  | .messages =>
    "(SELECT " ++ perConversation ++
      " FROM messages m2 WHERE m2.conversation_id = m.conversation_id AND m2.duplicate_of IS NULL)"
  | .conversations =>
    "(SELECT " ++ perConversation ++
      " FROM messages m2 WHERE m2.conversation_id = c.id AND m2.duplicate_of IS NULL)"
  | .contacts =>
    let sent :=
      match agg with
      | .count => "COUNT(*)"
      | .first => "MIN(m.timestamp)"
      | .last => "MAX(m.timestamp)"
    "(SELECT " ++ sent ++ " " ++ ctx.contactSentMessages ++ ")"

end ListCtx

/-! Every text closes what it opens. -/

section closed
variable {conv contact ct account id handles c2 : String} (trash : TrashScope)

theorem shifts_notTrashedConversation (h : Shifts conv 0 0) :
    Shifts (notTrashedConversation conv) 0 0 :=
  ((((Shifts.literal (b := 1) rfl).append (h.at_depth 1)).append (.literal (b := 1) rfl)).append
    (h.at_depth 1)).append (.literal rfl)

theorem shifts_notTrashedContactId (haccount : Shifts account 0 0) (hid : Shifts id 0 0) :
    Shifts (notTrashedContactId account id) 0 0 :=
  ((((Shifts.literal (b := 1) rfl).append (haccount.at_depth 1)).append
    (.literal (b := 1) rfl)).append (hid.at_depth 1)).append (.literal rfl)

theorem shifts_notTrashedContact (h : Shifts ct 0 0) : Shifts (notTrashedContact ct) 0 0 :=
  shifts_notTrashedContactId (h.append (.literal rfl)) (h.append (.literal rfl))

theorem shifts_conversationClause (h : Shifts conv 0 0) :
    Shifts (trash.conversationClause conv) 0 0 := by
  cases trash with
  | leftOut => exact (Shifts.literal (b := 0) rfl).append (shifts_notTrashedConversation h)
  | counted => exact Shifts.literal rfl

theorem shifts_contactClause (h : Shifts ct 0 0) : Shifts (trash.contactClause ct) 0 0 := by
  cases trash with
  | leftOut => exact (Shifts.literal (b := 0) rfl).append (shifts_notTrashedContact h)
  | counted => exact Shifts.literal rfl

theorem shifts_conversationInvolves (hconv : Shifts conv 0 0) (hcontact : Shifts contact 0 0) :
    Shifts (conversationInvolves conv contact) 0 0 :=
  ((((((((Shifts.literal (b := 1) rfl).append (hconv.at_depth 1)).append
    (.literal (b := 1) rfl)).append (hcontact.at_depth 1)).append
    (.literal (b := 2) rfl)).append (hconv.at_depth 2)).append
    (.literal (b := 3) rfl)).append (hconv.at_depth 3)).append (.literal rfl)

theorem shifts_contactConversationsLink (h : Shifts c2 0 0) :
    Shifts (contactConversationsLink c2) 0 0 :=
  (h.append (.literal (b := 0) rfl)).append (shifts_conversationInvolves h (.literal rfl))

theorem shifts_sentMessagesWhere (h : Shifts handles 0 0) :
    Shifts (sentMessagesWhere handles trash) 0 0 :=
  (((Shifts.literal (b := 0) rfl).append h).append (.literal (b := 0) rfl)).append
    (shifts_conversationClause trash (.literal rfl))

theorem shifts_contactSentMessages : Shifts (contactSentMessages trash) 0 0 :=
  shifts_sentMessagesWhere trash (.literal rfl)

end closed

namespace ListCtx
variable (ctx : ListCtx) {inner : Sql}

theorem shifts_contactConversationsLink {c2 : String} (h : Shifts c2 0 0) :
    Shifts (ctx.contactConversationsLink c2) 0 0 :=
  (MessageCrate.shifts_contactConversationsLink h).append (shifts_conversationClause ctx.trash h)

theorem shifts_contactSentMessages : Shifts ctx.contactSentMessages 0 0 :=
  MessageCrate.shifts_contactSentMessages ctx.trash

/-- The alias every wrapper gives the conversation. -/
theorem shifts_c : Shifts "c" 0 0 := .literal rfl

theorem guarded_conversation (h : Closed inner) : Guarded (ctx.conversation inner) := by
  unfold conversation
  split
  · exact Guarded.wrap (k := 0) (.literal rfl) h (.literal rfl)
  · exact Guarded.wrap (k := 1) (.literal rfl) h (.literal rfl)
  · have hlink := (ctx.shifts_contactConversationsLink shifts_c).guards
    exact Guarded.wrap (k := 1) (((GuardsText.literal (b := 1) rfl).append hlink).append
      (.literal rfl)) h (.literal rfl)

theorem guarded_message (h : Closed inner) : Guarded (ctx.message inner) := by
  unfold message
  split
  · exact Guarded.wrap (k := 1) (.literal rfl) h (.literal rfl)
  · exact Guarded.wrap (k := 1) (.literal rfl) h (.literal rfl)
  · have hsent := ctx.shifts_contactSentMessages.guards
    exact Guarded.wrap (k := 1) (((GuardsText.literal (b := 1) rfl).append hsent).append
      (.literal rfl)) h (.literal rfl)

theorem guarded_conversationMessage (h : Closed inner) :
    Guarded (ctx.conversationMessage inner) := by
  unfold conversationMessage
  split
  · exact ctx.guarded_message h
  · exact ctx.guarded_message h
  · have hlink := (ctx.shifts_contactConversationsLink shifts_c).guards
    exact Guarded.wrap (k := 1) (((GuardsText.literal (b := 1) rfl).append hlink).append
      (.literal rfl)) h (.literal rfl)

theorem guarded_contact (h : Closed inner) : Guarded (ctx.contact inner) := by
  have hinvolves : GuardsText (conversationInvolves "c" "ct.id") 1 1 :=
    (shifts_conversationInvolves (.literal rfl) (.literal rfl)).guards
  have hclause : GuardsText (ctx.trash.contactClause "ct") 1 1 :=
    (shifts_contactClause ctx.trash (.literal rfl)).guards
  unfold contact
  split
  · exact Guarded.wrap (k := 0) (.literal rfl) h (.literal rfl)
  · exact Guarded.wrap (k := 1) ((((GuardsText.literal (b := 1) rfl).append hinvolves).append
      hclause).append (.literal rfl)) h (.literal rfl)
  · exact Guarded.wrap (k := 1) ((((GuardsText.literal (b := 1) rfl).append hinvolves).append
      hclause).append (.literal rfl)) h (.literal rfl)

theorem guarded_reach (list : ListKind) (h : Closed inner) : Guarded (ctx.reach list inner) := by
  unfold reach
  split
  · exact ctx.guarded_contact h
  · exact ctx.guarded_conversation h
  · exact ctx.guarded_message h

theorem guardedText_messageAggregate (agg : MessageAgg) :
    GuardedText (ctx.messageAggregate agg) := by
  have hcount : GuardsText "COUNT(*)" 1 1 := .literal rfl
  have hfirst : GuardsText "MIN(m2.timestamp)" 1 1 := .literal rfl
  have hlast : GuardsText "MAX(m2.timestamp)" 1 1 := .literal rfl
  have hsentFirst : GuardsText "MIN(m.timestamp)" 1 1 := .literal rfl
  have hsentLast : GuardsText "MAX(m.timestamp)" 1 1 := .literal rfl
  have hsent := ctx.shifts_contactSentMessages.guards
  have hselect : GuardsText "(SELECT " 0 1 := .literal rfl
  unfold messageAggregate
  apply GuardsText.guarded
  cases ctx.list with
  | messages =>
    cases agg with
    | count => exact (hselect.append hcount).append (.literal rfl)
    | first => exact (hselect.append hfirst).append (.literal rfl)
    | last => exact (hselect.append hlast).append (.literal rfl)
  | conversations =>
    cases agg with
    | count => exact (hselect.append hcount).append (.literal rfl)
    | first => exact (hselect.append hfirst).append (.literal rfl)
    | last => exact (hselect.append hlast).append (.literal rfl)
  | contacts =>
    have htail (s : String) (hs : GuardsText s 1 1) :
        GuardsText ("(SELECT " ++ s ++ " " ++ ctx.contactSentMessages ++ ")") 0 0 :=
      (((hselect.append hs).append (.literal (b := 1) rfl)).append hsent).append (.literal rfl)
    cases agg with
    | count => exact htail _ hcount
    | first => exact htail _ hsentFirst
    | last => exact htail _ hsentLast

end ListCtx

end MessageCrate

import MessageCrate.Search.Bridge
import MessageCrate.Search.Parse

/- The SQL of a parsed query (`crates/server/server/src/search/emit.rs`, with the full-text
   literals of `fts.rs` and the predicate for Unknown contacts of `db/contacts.rs`).

   `compile` writes the account scope, the defaults the query does not lift, and the query
   itself; `emitExpr` writes a tree, and one emitter a family of words writes a field.
   Typed text and numbers are bound, never written.

   Correspondence (Rust ↔ Lean):
     `fn emit_..(ctx, out, ..) -> Result<(), QueryError>` ↔ `emit.. : Except QueryError Sql`,
        the fragment it appends to `out`; a refusal drops `out`, as `compile` does
     the joiner loops of `emit_expr` and `emit_field` ↔ `joined`
     `fts::matching_ids`                            ↔ `matchingIds` -/
namespace MessageCrate
open SqlText

/-- One parenthesised condition, the values it binds, and the full-text query that ranks
its rows. -/
structure Filter where
  whereSql : String
  params : List SqlParam
  rankQuery : Option String
  deriving DecidableEq

/-- Contact `ct` is not in the trash. -/
def notTrashedContactSql : String :=
  "NOT EXISTS (SELECT 1 FROM trashed_contacts tct WHERE tct.account_id = ct.account_id AND tct.contact_id = ct.id)"

/-- Conversation `c` is not in the trash. -/
def notTrashedConversationSql : String :=
  "NOT EXISTS (SELECT 1 FROM trashed_conversations tc WHERE tc.account_id = c.account_id AND tc.conversation_id = c.id)"

/-- Contact `ct` has no address, or no preferred name. -/
def unknownContactSql : String := "(
    trim(ct.preferred_name) = ''
    OR NOT EXISTS (
        SELECT 1 FROM contact_handles ch2
        JOIN handles h2 ON h2.id = ch2.handle_id
        WHERE ch2.account_id = ct.account_id AND ch2.contact_id = ct.id
          AND h2.handle_type <> 'other'
    )
)"

/-! Text. -/

/-- `text` with each `LIKE` metacharacter behind a backslash. -/
def likeEscape (text : String) : String :=
  String.ofList (text.toList.flatMap (fun c =>
    if c = '\\' ∨ c = '%' ∨ c = '_' then ['\\', c] else [c]))

/-- `column` contains `text`, or has a word that starts with it. -/
def likeContains (column text : String) (pre : Bool) : Sql :=
  let text := likeEscape text
  if pre then
    push "(" ++ like column (text ++ "%") ++ push " OR " ++ like column ("% " ++ text ++ "%") ++
      push ")"
  else like column ("%" ++ text ++ "%")

/-- One free-text test on `column`. -/
def freeTextMatch (column : String) : TextTerm → Sql
  | .term text pre => likeContains column text pre
  | .phrase text => likeContains column text false

/-- A participant's display name. -/
def participantName : String :=
  "coalesce(NULLIF(trim(pct.preferred_name), ''), NULLIF(trim(p.name_alias), ''), '')"

/-- Binds `p` to a participants row and `pct` to the contact its handle is on. -/
def participantsWithContact (trash : TrashScope) : String :=
  "participants p LEFT JOIN contact_handles pch ON pch.handle_id = p.handle_id AND pch.account_id = c.account_id LEFT JOIN contacts pct ON pct.id = pch.contact_id AND pct.account_id = c.account_id" ++
    trash.contactClause "pct"

/-- Quoted for FTS5, so operators and punctuation are literal text. -/
def fts5Literal (term : String) : String :=
  "\"" ++ String.ofList (term.toList.flatMap (fun c => if c = '"' then ['"', '"'] else [c])) ++ "\""

/-- One term as an FTS5 query. -/
def matchExpr : TextTerm → String
  | .term text true => fts5Literal text ++ "*"
  | .term text false => fts5Literal text
  | .phrase text => fts5Literal text

/-- The ids of every message whose indexed text matches `term`. -/
def matchingIds (term : TextTerm) : Sql :=
  push "SELECT rowid FROM messages_fts WHERE messages_fts MATCH " ++ bindText (matchExpr term)

/-- Any of `terms`; `none` when there is nothing to rank by. -/
def rankQuery (terms : List TextTerm) : Option String :=
  if terms.isEmpty then none else some (" OR ".intercalate (terms.map matchExpr))

/-- Free text: the row's own text. -/
def emitText (ctx : ListCtx) (term : TextTerm) : Sql :=
  match ctx.list with
  | .contacts =>
    push "(" ++ freeTextMatch "ct.preferred_name" term ++
      push " OR EXISTS (SELECT 1 FROM contact_handles ch JOIN handles h ON h.id = ch.handle_id WHERE ch.account_id = ct.account_id AND ch.contact_id = ct.id AND (" ++
      freeTextMatch "h.raw" term ++ push " OR " ++
      freeTextMatch "coalesce(h.normalized, '')" term ++ push ")))"
  | .conversations =>
    push "(" ++ freeTextMatch "coalesce(c.group_title, '')" term ++
      push " OR EXISTS (SELECT 1 FROM handles hc WHERE hc.id = c.chat_handle_id AND " ++
      freeTextMatch "hc.raw" term ++
      push (") OR EXISTS (SELECT 1 FROM " ++ participantsWithContact ctx.trash ++
        " LEFT JOIN handles ph ON ph.id = p.handle_id WHERE p.conversation_id = c.id AND (") ++
      freeTextMatch "coalesce(ph.raw, '')" term ++ push " OR " ++
      freeTextMatch participantName term ++ push ")))"
  | .messages =>
    push "m.id IN (" ++ matchingIds term ++
      push " UNION ALL SELECT a.message_id FROM attachments a WHERE " ++
      freeTextMatch "coalesce(a.original_name, '')" term ++ push ")"

/-! Text words. -/

/-- A refusal naming the term's word. -/
def badValue (term : FieldTerm) (what : String) : QueryError :=
  .new .badValue term.span (term.spec.word ++ ": " ++ what)

/-- `column` contains `v`, has a word that starts with it, is empty (`none`) or is not
(`any`). -/
def textMatch (column : String) (term : FieldTerm) (v : Value) : Except QueryError Sql :=
  match v with
  | .text t => .ok (likeContains column t false)
  | .pre p => .ok (likeContains column p true)
  | .keyword "none" => .ok (push ("NULLIF(trim(" ++ column ++ "), '') IS NULL"))
  | .keyword "any" => .ok (push ("NULLIF(trim(" ++ column ++ "), '') IS NOT NULL"))
  | _ => .error (badValue term "needs text, a prefix, or none/any.")

/-- Either handle text of `h` matches, between `start` and the close of its two
parentheses. -/
def identityMatch (start : String) (term : FieldTerm) (v : Value) : Except QueryError Sql := do
  let raw ← textMatch "h.raw" term v
  let normalized ← textMatch "coalesce(h.normalized, '')" term v
  return push start ++ raw ++ push " OR " ++ normalized ++ push "))"

/-- `identity:` on Contacts: the contact's own addresses. -/
def emitContactIdentity (term : FieldTerm) (v : Value) : Except QueryError Sql :=
  match v with
  | .keyword "none" => .ok (push
      "NOT EXISTS (SELECT 1 FROM contact_handles ch JOIN handles h ON h.id = ch.handle_id WHERE ch.account_id = ct.account_id AND ch.contact_id = ct.id AND h.handle_type <> 'other')")
  | .keyword "any" => .ok (push
      "EXISTS (SELECT 1 FROM contact_handles ch JOIN handles h ON h.id = ch.handle_id WHERE ch.account_id = ct.account_id AND ch.contact_id = ct.id AND h.handle_type <> 'other')")
  | .text _ | .pre _ => identityMatch
      "EXISTS (SELECT 1 FROM contact_handles ch JOIN handles h ON h.id = ch.handle_id WHERE ch.account_id = ct.account_id AND ch.contact_id = ct.id AND ("
      term v
  | _ => .error (badValue term "needs text, a prefix, or none/any.")

/-- `identity:` on the other lists: the addresses of the conversation's people. -/
def emitConversationIdentity (term : FieldTerm) (v : Value) : Except QueryError Sql :=
  match v with
  | .keyword "none" => .ok (push
      "NOT EXISTS (SELECT 1 FROM participants p JOIN handles h ON h.id = p.handle_id WHERE p.conversation_id = c.id AND h.handle_type <> 'other')")
  | .keyword "any" => .ok (push
      "EXISTS (SELECT 1 FROM participants p JOIN handles h ON h.id = p.handle_id WHERE p.conversation_id = c.id AND h.handle_type <> 'other')")
  | .text _ | .pre _ => identityMatch
      "EXISTS (SELECT 1 FROM handles h WHERE (h.id = c.chat_handle_id OR EXISTS (SELECT 1 FROM participants p WHERE p.conversation_id = c.id AND p.handle_id = h.id)) AND ("
      term v
  | _ => .error (badValue term "needs text, a prefix, or none/any.")

/-- The six text words. -/
def emitTextWord (ctx : ListCtx) (term : FieldTerm) (v : Value) : Except QueryError Sql :=
  match term.spec.word, ctx.list with
  | "body", _ => (textMatch "coalesce(m.body, '')" term v).map ctx.message
  | "subject", _ => (textMatch "coalesce(m.subject, '')" term v).map ctx.message
  | "title", _ => (textMatch "coalesce(c.group_title, '')" term v).map ctx.conversation
  | "name", .contacts => textMatch "ct.preferred_name" term v
  | "name", _ => do
    let name ← textMatch participantName term v
    return ctx.conversation
      (push ("EXISTS (SELECT 1 FROM " ++ participantsWithContact ctx.trash ++
        " WHERE p.conversation_id = c.id AND ") ++ name ++ push ")")
  | "identity", .contacts => emitContactIdentity term v
  | "identity", _ => (emitConversationIdentity term v).map ctx.conversation
  | "filename", _ => do
    let name ← textMatch "coalesce(a.original_name, '')" term v
    return ctx.message
      (push "EXISTS (SELECT 1 FROM attachments a WHERE a.message_id = m.id AND " ++ name ++ push ")")
  | _, _ => .error (.new .badValue term.span (term.spec.word ++ ": is not built yet."))

/-! People and places. -/

/-- The handle `handleIdExpr`, or the name of its contact, matches text `t`. -/
def personText (ctx : ListCtx) (handleIdExpr t : String) (pre : Bool) : Sql :=
  push ("EXISTS (SELECT 1 FROM handles hp LEFT JOIN contact_handles chp ON chp.handle_id = hp.id AND chp.account_id = hp.account_id LEFT JOIN contacts ctp ON ctp.id = chp.contact_id" ++
    ctx.trash.contactClause "ctp" ++ " WHERE hp.id = " ++ handleIdExpr ++ " AND (") ++
    likeContains "hp.raw" t pre ++ push " OR " ++
    likeContains "coalesce(hp.normalized, '')" t pre ++ push " OR " ++
    likeContains "coalesce(ctp.preferred_name, '')" t pre ++ push "))"

/-- The handle with id `handleIdExpr` belongs to the person `v`. -/
def personMatches (ctx : ListCtx) (handleIdExpr : String) (term : FieldTerm) (v : Value) :
    Except QueryError Sql :=
  match v with
  | .id id =>
    let notTrashed :=
      if ctx.trash = .leftOut then
        push " AND " ++ push (notTrashedContactId "chp.account_id" "chp.contact_id")
      else []
    .ok (push ("EXISTS (SELECT 1 FROM contact_handles chp WHERE chp.handle_id = " ++ handleIdExpr ++
      " AND chp.contact_id = ") ++ bindInt id ++ notTrashed ++ push ")")
  | .text t => .ok (personText ctx handleIdExpr t false)
  | .pre t => .ok (personText ctx handleIdExpr t true)
  | _ => .error (badValue term "needs a name, an identity, or #id.")

/-- The participant `p` goes by a display name that matches `v`. -/
def participantMatches (term : FieldTerm) (v : Value) : Except QueryError Sql :=
  match v with
  | .id _ => .ok (push "0")
  | .text t => .ok (likeContains participantName t false)
  | .pre t => .ok (likeContains participantName t true)
  | _ => .error (badValue term "needs a name, an identity, or #id.")

/-- Some party to conversation `c` is `v`. -/
def withPerson (ctx : ListCtx) (term : FieldTerm) (v : Value) : Except QueryError Sql := do
  let chat ← personMatches ctx "c.chat_handle_id" term v
  let handle ← personMatches ctx "p.handle_id" term v
  let name ← participantMatches term v
  return ctx.conversation
    (push "(" ++ chat ++
      push (" OR EXISTS (SELECT 1 FROM " ++ participantsWithContact ctx.trash ++
        " WHERE p.conversation_id = c.id AND (") ++ handle ++ push " OR " ++ name ++ push ")))")

/-- A named set a row can belong to. -/
structure NamedSet where
  home : ListKind
  table : String
  members : String
  setCol : String
  memberCol : String
  rowExpr : String
  accountExpr : String

def contactGroups : NamedSet where
  home := .contacts
  table := "contact_groups"
  members := "contact_group_members"
  setCol := "group_id"
  memberCol := "contact_id"
  rowExpr := "ct.id"
  accountExpr := "ct.account_id"

def messageTags : NamedSet where
  home := .conversations
  table := "message_tags"
  members := "message_tag_members"
  setCol := "tag_id"
  memberCol := "conversation_id"
  rowExpr := "c.id"
  accountExpr := "c.account_id"

namespace NamedSet
variable (set : NamedSet)

/-- The sets the home row is in, left open. -/
def membershipFrom : String :=
  "SELECT 1 FROM " ++ set.members ++ " nm JOIN " ++ set.table ++ " ns ON ns.id = nm." ++ set.setCol ++
    " WHERE nm." ++ set.memberCol ++ " = " ++ set.rowExpr ++ " AND ns.account_id = " ++ set.accountExpr

/-- The home row is a member of the set `v` names. -/
def contains (term : FieldTerm) (v : Value) : Except QueryError Sql := do
  let named ← match v with
    | .id id => .ok (push "ns.id = " ++ bindInt id)
    | .text t => .ok (push "lower(ns.name) = lower(" ++ bindText t ++ push ")")
    | .pre t => .ok (likeContains "ns.name" t true)
    | _ => .error (badValue term "needs a name or #id.")
  return push ("EXISTS (" ++ set.membershipFrom ++ " AND ") ++ named ++ push ")"

/-- The home row is in no set at all. An Unknown contact is in a group the server
computes. -/
def none : Sql :=
  if set.home = .contacts then
    push ("(NOT EXISTS (" ++ set.membershipFrom ++ ") AND NOT " ++ unknownContactSql ++ ")")
  else push ("NOT EXISTS (" ++ set.membershipFrom ++ ")")

end NamedSet

/-- `from:me` is the outgoing flag; `from:` a person is a received message of theirs. -/
def emitFrom (ctx : ListCtx) (term : FieldTerm) (v : Value) : Except QueryError Sql :=
  match v with
  | .keyword "me" => .ok (push "m.is_from_me = 1")
  | _ => do
    let sender ← personMatches ctx "m.sender_handle_id" term v
    return push "(m.is_from_me = 0 AND m.sender_handle_id IS NOT NULL AND " ++ sender ++ push ")"

/-- `to:me` is any received message; `to:` a person is a message in a conversation with
them that they did not send. -/
def emitTo (ctx : ListCtx) (term : FieldTerm) (v : Value) : Except QueryError Sql :=
  match v with
  | .keyword "me" => .ok (push "m.is_from_me = 0")
  | _ => do
    let party ← withPerson ctx term v
    let sender ← personMatches ctx "m.sender_handle_id" term v
    return push "(" ++ party ++
      push " AND (m.is_from_me = 1 OR m.sender_handle_id IS NULL OR NOT " ++ sender ++ push "))"

/-- A conversation whose group title or chat handle matches text `t`. -/
def inText (ctx : ListCtx) (t : String) (pre : Bool) : Sql :=
  ctx.conversation
    (push "(" ++ likeContains "coalesce(c.group_title, '')" t pre ++
      push " OR EXISTS (SELECT 1 FROM handles hc WHERE hc.id = c.chat_handle_id AND " ++
      likeContains "hc.raw" t pre ++ push "))")

/-- `in:#id` names a conversation; `in:` text matches its group title or chat handle. -/
def emitIn (ctx : ListCtx) (term : FieldTerm) (v : Value) : Except QueryError Sql :=
  match v with
  | .id id => .ok (push "m.conversation_id = " ++ bindInt id)
  | .text t => .ok (inText ctx t false)
  | .pre t => .ok (inText ctx t true)
  | _ => .error (badValue term "needs a name or #id.")

/-- `group:` and `tag:`. On a bridged list `none` is a double negation, so it reads "no row
they reach is in any set". -/
def emitSetWord (ctx : ListCtx) (term : FieldTerm) (v : Value) (set : NamedSet) :
    Except QueryError Sql :=
  match v with
  | .keyword "none" =>
    if ctx.list = set.home then .ok set.none
    else .ok (push "NOT " ++ ctx.reach set.home (push "NOT " ++ set.none))
  | .keyword "unknown" =>
    if set.home = .contacts then .ok (ctx.contact (push unknownContactSql))
    else (set.contains term v).map (ctx.reach set.home)
  | _ => (set.contains term v).map (ctx.reach set.home)

/-- The Import Run `import:` names. -/
def importRun (ctx : ListCtx) (term : FieldTerm) (v : Value) : Except QueryError Sql :=
  match v with
  | .keyword "last" =>
    .ok (push "(SELECT MAX(vi.id) FROM imports vi WHERE vi.account_id = " ++ bindInt ctx.accountId ++
      push ")")
  | .id id => .ok (bindInt id)
  | _ => .error (badValue term "needs #id or last.")

/-- `import:#id` and `import:last`. A run's rows may all be duplicates, so this does not go
through `message`. -/
def emitImport (ctx : ListCtx) (term : FieldTerm) (v : Value) : Except QueryError Sql := do
  let run ← importRun ctx term v
  if ctx.list = .messages then return push "m.import_id = " ++ run
  else
    return push "EXISTS (SELECT 1 FROM messages mi WHERE mi.conversation_id = c.id AND " ++
      push "mi.import_id = " ++ run ++ push ")"

/-- The seven people-and-places words. -/
def emitPeopleWord (ctx : ListCtx) (term : FieldTerm) (v : Value) : Except QueryError Sql :=
  match term.spec.word with
  | "with" => withPerson ctx term v
  | "from" => emitFrom ctx term v
  | "to" => emitTo ctx term v
  | "in" => emitIn ctx term v
  | "group" => emitSetWord ctx term v contactGroups
  | "tag" => emitSetWord ctx term v messageTags
  | "import" => emitImport ctx term v
  | _ => .error (badValue term "is not built yet.")

/-! Kinds and attachments. -/

/-- `expr` compared with a bound number, or with two. -/
def cmpSql (expr : String) : Cmp → Sql
  | .range a b =>
    push ("(" ++ expr ++ " >= ") ++ bindInt a ++ push (" AND " ++ expr ++ " <= ") ++ bindInt b ++
      push ")"
  | .eq v => push (expr ++ " = ") ++ bindInt v
  | .gt v => push (expr ++ " > ") ++ bindInt v
  | .gte v => push (expr ++ " >= ") ++ bindInt v
  | .lt v => push (expr ++ " < ") ++ bindInt v
  | .lte v => push (expr ++ " <= ") ++ bindInt v

def mime : String := "lower(coalesce(a.mime_type, ''))"

/-- Attachment `a` is of this kind, by MIME type. -/
def attachmentKindSql (kind : String) : String :=
  let image := mime ++ " LIKE 'image/%'"
  let video := mime ++ " LIKE 'video/%'"
  let audio := mime ++ " LIKE 'audio/%'"
  let pdf := mime ++ " = 'application/pdf'"
  let contact := mime ++ " IN ('text/vcard', 'text/x-vcard')"
  let document := "(" ++ pdf ++ " OR " ++ mime ++ " LIKE 'text/%' OR " ++ mime ++
    " LIKE 'application/vnd.%' OR " ++ mime ++ " IN ('application/msword', 'application/rtf'))"
  match kind with
  | "image" => image
  | "video" => video
  | "audio" => audio
  | "pdf" => pdf
  | "contact" => contact
  | "document" => "(" ++ document ++ " AND NOT " ++ contact ++ ")"
  | _ =>
    "NOT (" ++ image ++ " OR " ++ video ++ " OR " ++ audio ++ " OR " ++ document ++ " OR " ++ contact ++
      ")"

/-- The condition `trashed:` puts on the base row's own trash state. -/
def trashedSql (notTrashed : String) (flag : String) : Sql :=
  match flag with
  | "no" => push notTrashed
  | "yes" => push ("NOT (" ++ notTrashed ++ ")")
  | _ => push "1=1"

def emitTrashed (ctx : ListCtx) (flag : String) : Sql :=
  match ctx.list with
  | .contacts => trashedSql notTrashedContactSql flag
  | .conversations => trashedSql notTrashedConversationSql flag
  | .messages => ctx.conversation (trashedSql notTrashedConversationSql flag)

/-- `source:` reads every message, duplicates included, so it does not go through
`message`. -/
def emitSource (ctx : ListCtx) (id : String) : Sql :=
  if ctx.list = .messages then push "m.source = " ++ bindText id
  else
    push "EXISTS (SELECT 1 FROM messages ms WHERE ms.conversation_id = c.id AND ms.source = " ++
      bindText id ++ push ")"

def emitAttachment (ctx : ListCtx) (kind : String) : Sql :=
  match kind with
  | "any" => ctx.message (push "EXISTS (SELECT 1 FROM attachments a WHERE a.message_id = m.id)")
  | "none" => ctx.message (push "NOT EXISTS (SELECT 1 FROM attachments a WHERE a.message_id = m.id)")
  | kind =>
    ctx.message (push ("EXISTS (SELECT 1 FROM attachments a WHERE a.message_id = m.id AND " ++
      attachmentKindSql kind ++ ")"))

/-- The six kind-and-attachment words. -/
def emitKindWord (ctx : ListCtx) (term : FieldTerm) (v : Value) : Except QueryError Sql :=
  match term.spec.word, v with
  | "kind", .choice k =>
    let ty := if k = "direct" then "individual" else "group"
    .ok (ctx.conversation (push "c.conversation_type = " ++ bindText ty))
  | "service", .choice s =>
    .ok (ctx.conversationMessage (push "lower(coalesce(m.service, '')) = " ++ bindText s))
  | "source", .choice s => .ok (emitSource ctx s)
  | "attachment", .choice k => .ok (emitAttachment ctx k)
  | "size", .size cmp =>
    .ok (ctx.message
      (push "EXISTS (SELECT 1 FROM attachments a WHERE a.message_id = m.id AND a.size_bytes IS NOT NULL AND " ++
        cmpSql "a.size_bytes" cmp ++ push ")"))
  | "trashed", .choice flag => .ok (emitTrashed ctx flag)
  | _, _ => .error (badValue term "needs a value this word accepts.")

/-! Dates and counts. -/

/-- `expr` is at or after the instant `day` begins in `zone`. -/
def atOrAfterSql (expr : String) (zone : Tz) (day : NaiveDate) : Sql :=
  match utcInstant zone day with
  | some instant => push (expr ++ " >= ") ++ bindText instant
  | none => push "0=1"

/-- `expr` is before the instant `day` begins in `zone`. -/
def beforeSql (expr : String) (zone : Tz) (day : NaiveDate) : Sql :=
  match utcInstant zone day with
  | some instant => push (expr ++ " < ") ++ bindText instant
  | none => push (expr ++ " IS NOT NULL")

/-- `expr` falls where `cmp` says. -/
def dateSql (expr : String) (cmp : DateCmp) (zone : Tz) : Sql :=
  match cmp with
  | .within span =>
    push "(" ++ atOrAfterSql expr zone span.start ++ push " AND " ++ beforeSql expr zone span.stop ++
      push ")"
  | .gte d | .gt d => atOrAfterSql expr zone d
  | .lt d | .lte d => beforeSql expr zone d

/-- The eight date-and-count words. -/
def emitMeasureWord (ctx : ListCtx) (term : FieldTerm) (v : Value) : Except QueryError Sql :=
  match term.spec.word, v with
  | "date", .date cmp => .ok (ctx.message (dateSql "m.timestamp" cmp ctx.zone))
  | "first-message", .date cmp => .ok (dateSql (ctx.messageAggregate .first) cmp ctx.zone)
  | "last-message", .date cmp => .ok (dateSql (ctx.messageAggregate .last) cmp ctx.zone)
  | "messages", .count cmp => .ok (cmpSql (ctx.messageAggregate .count) cmp)
  | "conversations", .count cmp =>
    .ok (cmpSql ("(SELECT COUNT(*) FROM conversations c2 WHERE " ++
      ctx.contactConversationsLink "c2" ++ ")") cmp)
  | "groups", .count cmp =>
    .ok (cmpSql
      "(SELECT COUNT(*) FROM contact_group_members cgm JOIN contact_groups cg ON cg.id = cgm.group_id WHERE cgm.contact_id = ct.id AND cg.account_id = ct.account_id)"
      cmp)
  | "participants", .count cmp =>
    .ok (ctx.conversation
      (cmpSql "(SELECT COUNT(*) FROM participants p WHERE p.conversation_id = c.id)" cmp))
  | "attachments", .count cmp =>
    .ok (cmpSql "(SELECT COUNT(*) FROM attachments a WHERE a.message_id = m.id)" cmp)
  | _, _ => .error (badValue term "needs a value this word accepts.")

/-! Fields, trees and the whole query. -/

/-- One value of one word. -/
def emitOne (ctx : ListCtx) (term : FieldTerm) (v : Value) : Except QueryError Sql :=
  match term.spec.word with
  | "body" | "subject" | "name" | "title" | "identity" | "filename" => emitTextWord ctx term v
  | "with" | "from" | "to" | "in" | "group" | "tag" | "import" => emitPeopleWord ctx term v
  | "kind" | "service" | "source" | "attachment" | "size" | "trashed" => emitKindWord ctx term v
  | "date" | "first-message" | "last-message" | "messages" | "conversations" | "groups"
  | "participants" | "attachments" => emitMeasureWord ctx term v
  | other =>
    .error (.new .badValue term.span (other ++ ": has no emitter; add one in emit.rs"))

def emitValues (ctx : ListCtx) (term : FieldTerm) : List Value → Except QueryError (List Sql)
  | [] => .ok []
  | v :: vs => do return (← emitOne ctx term v) :: (← emitValues ctx term vs)

/-- One `word:values`; the values are OR-ed. -/
def emitField (ctx : ListCtx) (term : FieldTerm) : Except QueryError Sql := do
  return paren (joined (push " OR ") (← emitValues ctx term term.values))

mutual
/-- The SQL for one node. `IS NOT TRUE` makes a NULL of the part a match of its
negation. -/
def emitExpr (ctx : ListCtx) : Expr → Except QueryError Sql
  | .and parts => do return paren (joined (push " AND ") (← emitParts ctx parts))
  | .or parts => do return paren (joined (push " OR ") (← emitParts ctx parts))
  | .not inner => do return notTrue (← emitExpr ctx inner)
  | .text term => .ok (emitText ctx term)
  | .field term => emitField ctx term

def emitParts (ctx : ListCtx) : List Expr → Except QueryError (List Sql)
  | [] => .ok []
  | e :: es => do return (← emitExpr ctx e) :: (← emitParts ctx es)
end

/-- Whether the query uses `word`. -/
def usesWord (expr : Option Expr) (word : String) : Bool :=
  match expr with
  | some e => e.uses word
  | none => false

/-- `trashed:` anywhere in the query lifts the trash everywhere the search looks. -/
def trashScope (expr : Option Expr) : TrashScope :=
  if usesWord expr "trashed" then .counted else .leftOut

/-- The rows a list leaves out unless the query asks about them. -/
def emitDefaults (list : ListKind) (expr : Option Expr) : Sql :=
  match list with
  | .contacts =>
    if !usesWord expr "trashed" then push " AND " ++ push notTrashedContactSql else []
  | .conversations =>
    (if !usesWord expr "trashed" then push " AND " ++ push notTrashedConversationSql else []) ++
      -- A query about one source or one run may be about duplicates alone.
      (if !usesWord expr "source" && !usesWord expr "import" then
        push " AND EXISTS (SELECT 1 FROM messages m0 WHERE m0.conversation_id = c.id AND m0.duplicate_of IS NULL)"
      else [])
  | .messages =>
    (if !usesWord expr "source" && !usesWord expr "import" then
        push " AND m.duplicate_of IS NULL"
      else []) ++
      (if !usesWord expr "trashed" then
        push " AND EXISTS (SELECT 1 FROM conversations c WHERE c.id = m.conversation_id AND " ++
          push notTrashedConversationSql ++ push ")"
      else [])

/-- The query's own condition, if it has one. -/
def emitQuery (ctx : ListCtx) : Option Expr → Except QueryError Sql
  | some e => (emitExpr ctx e).map (push " AND " ++ ·)
  | none => .ok []

/-- What `compile` writes. -/
def compileSql (list : ListKind) (expr : Option Expr) (accountId : Int) (zone : Tz) :
    Except QueryError Sql := do
  let ctx : ListCtx := { list, accountId, zone, trash := trashScope expr }
  let scope := push "(" ++ push ctx.accountCol ++ push " = " ++ bindInt ctx.accountId
  let query ← emitQuery ctx expr
  return scope ++ emitDefaults list expr ++ query ++ push ")"

/-- A parsed query as one parenthesised condition. -/
def compile (list : ListKind) (expr : Option Expr) (accountId : Int) (zone : Tz) :
    Except QueryError Filter := do
  let out ← compileSql list expr accountId zone
  let rank :=
    match list, expr with
    | .messages, some e => rankQuery e.positiveTextTerms
    | _, _ => none
  return { whereSql := text out, params := params out, rankQuery := rank }

end MessageCrate

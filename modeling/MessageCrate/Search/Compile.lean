import MessageCrate.Search.Emit
import MessageCrate.Search.Lex

/- From a query's text to its filter (`crates/server/server/src/search/mod.rs`).

   Correspondence (Rust ↔ Lean):
     `search::compile`   ↔ `compileQuery`; `compile` is `emit::compile`
     `QueryError`        ↔ `Failure.refused` -/
namespace MessageCrate
open SqlText

/-- Everything a compilation needs. -/
structure CompileRequest where
  list : ListKind
  query : String
  accountId : Int
  today : NaiveDate
  zone : Tz

def refuse {α : Type} : Except QueryError α → Except Failure α
  | .ok a => .ok a
  | .error err => .error (.refused err)

/-- The tree of a query's text on `list`, if it has any token. -/
def parseQuery (list : ListKind) (query : String) (today : NaiveDate) :
    Except Failure (Option Expr) := do
  let tokens ← refuse (tokenize query)
  parse list tokens today

/-- Parse the query and compile it for its list. -/
def compileQuery (req : CompileRequest) : Except Failure Filter := do
  let expr ← parseQuery req.list req.query req.today
  refuse (compile req.list expr req.accountId req.zone)

/-- This filter narrowed by one more fragment, written with `?` for each of `params`. -/
def Filter.andWhere (f : Filter) (fragment : String) (params : List SqlParam) : Filter :=
  { f with
    whereSql := "(" ++ f.whereSql ++ " AND " ++ fragment ++ ")"
    params := f.params ++ params }

/-- The messages of the conversations a filter of that list shows. -/
def messagesOf (accountId : Int) (conversations : Filter) : Filter where
  whereSql :=
    "(m.account_id = ? AND m.duplicate_of IS NULL AND m.conversation_id IN (SELECT c.id FROM conversations c WHERE " ++
      conversations.whereSql ++ "))"
  params := .int accountId :: conversations.params
  rankQuery := none

/-- Compile the query on the Conversations list, whatever list it names, and answer the
filter for every message of the conversations that list shows. -/
def compileMessagesOfConversations (req : CompileRequest) : Except Failure Filter := do
  let conversations ← compileQuery { req with list := .conversations }
  return messagesOf req.accountId conversations

end MessageCrate

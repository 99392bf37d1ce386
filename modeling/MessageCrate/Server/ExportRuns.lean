import Mathlib.Algebra.Group.Int.Defs
import MessageCrate.Server.PageSlices

/- Export Runs (`db/exports.rs`, `exports_api.rs`, and the page loop of `pull/src/run.rs`).

   A run lists the messages that match when it is created, oldest first, and hands the list over a
   page at a time. A page is a range of places in the list. A message that is deleted leaves its
   place empty.

   Correspondence (Rust ↔ Lean):
     `start_export_run`            ↔ `startExportRun`, its statements `startExport`,
                                     `listRunMessages`, `exportCounts`, `recordCounts`
     `get_export`, `running_export` ↔ `getExport`, `runningExport`
     `finish_export`               ↔ `finishExport`
     `record_delivered`            ↔ `recordDelivered`
     `page_params`, `page_places`  ↔ `pageParams`, `pagePlaces`
     `export_messages`             ↔ `exportMessages`
     `list_export_messages`        ↔ `Event.lookUp`, `Event.load`, `Event.answer`, in this order
     `next_offset`                 ↔ `nextOffset`
     `fetch_all_messages`          ↔ a `Client`, which asks for `start` first
     `ON DELETE SET NULL`          ↔ `emptied`

   A transaction of any other request is one `Event.write`: it deletes messages and then inserts
   some, under any ids that are free. The statements of one page are steps of their own. A client
   whose answer is lost asks again.

   Left out: what started a run, when, and its other counts; what is read of a message beyond its
   row and its handles. -/
namespace MessageCrate.ExportRuns
open MessagePages

/-! The tables. -/

/-- The messages and what they are joined with. A message's conversation is there. -/
structure Tables where
  db : MessagePages.Db
  conversation : ∀ m ∈ db.messages, ∃ c ∈ db.conversations, c.id = m.conversationId

inductive ExportStatus
  | running
  | completed
  | failed
  | cancelled
  deriving DecidableEq, Repr

def ExportStatus.asStr : ExportStatus → String
  | .running => "running"
  | .completed => "completed"
  | .failed => "failed"
  | .cancelled => "cancelled"

structure ExportRun where
  id : Int
  accountId : Int
  status : ExportStatus
  messageCount : Int
  messagesDelivered : Int
  deriving DecidableEq, Repr

/-- One place of a run's list. -/
structure ExportMessage where
  exportId : Int
  rowOrder : Int
  messageId : Option Int
  deriving DecidableEq, Repr

/-- A message, whatever message has had its id before it or has it after. -/
structure Key where
  id : Int
  made : Nat
  deriving DecidableEq, Repr

structure Item where
  message : MessagePages.Message
  made : Nat

def Item.key (i : Item) : Key := ⟨i.message.id, i.made⟩

inductive ApiError
  | notFound (message : String)
  | stateConflict (message : String)
  | validationFailed (message : String)

/-! Clients. -/

/-- What a client asks for. -/
structure Plan where
  accountId : Int
  exportId : Int
  limit : Nat
  order : List SortKey
  start : Nat

/-- Where a client's request stands. -/
inductive Phase
  | asking
  /-- The run is running, and this is how many places it listed. -/
  | counted (total : Nat)
  | loaded (total : Nat) (items : List Item)
  | refused (error : ApiError)
  | done

structure Client where
  offset : Nat
  received : List Item
  phase : Phase

structure State where
  tables : Tables
  /-- The conversations in the trash. -/
  trashed : List Int
  exports : List ExportRun
  exportMessages : List ExportMessage
  clients : Nat → Client
  /-- When the message that has an id was made. -/
  made : Int → Nat
  now : Nat
  /-- The messages that a run listed. -/
  listed : Int → List Key

/-! A run is created. -/

def startExport (accountId exportId : Int) (s : State) : State :=
  { s with exports := s.exports ++ [⟨exportId, accountId, .running, 0, 0⟩] }

/-- The messages that match, oldest first. -/
def matching (filter : MessagePages.Message → Bool) (s : State) : List MessagePages.Message :=
  orderBy .asc ((messagesFrom s.tables.db).filter filter)

def listRunMessages (exportId : Int) (filter : MessagePages.Message → Bool) (s : State) : State :=
  { s with
    exportMessages := s.exportMessages ++ (matching filter s).zipIdx.map (fun r =>
      ⟨exportId, (r.2 : Int) + 1, some r.1.id⟩)
    listed := Function.update s.listed exportId
      ((matching filter s).map (fun r => ⟨r.id, s.made r.id⟩)) }

/-- `JOIN messages m ON m.id = e.message_id`. -/
def messagesAt (s : State) (e : ExportMessage) : List MessagePages.MessageRow :=
  s.tables.db.messages.filter (fun m => some m.id = e.messageId)

def exportCounts (exportId : Int) (s : State) : Int :=
  max 0 ((s.exportMessages.filter (fun e => e.exportId = exportId)).flatMap (messagesAt s)).length

def recordCounts (exportId messages : Int) (s : State) : State :=
  { s with exports := s.exports.map (fun run =>
      if run.id = exportId then { run with messageCount := messages } else run) }

def startExportRun (accountId exportId : Int) (filter : MessagePages.Message → Bool) (s : State) :
    State :=
  let s := listRunMessages exportId filter (startExport accountId exportId s)
  recordCounts exportId (exportCounts exportId s) s

/-! A run is read. -/

def getExport (accountId exportId : Int) (s : State) : Option ExportRun :=
  s.exports.find? (fun run => run.id = exportId ∧ run.accountId = accountId)

def ownedExport (accountId exportId : Int) (s : State) : Except ApiError ExportRun :=
  match getExport accountId exportId s with
  | some run => .ok run
  | none => .error (.notFound ("export " ++ toString exportId ++ " not found for this account"))

/-- The state conflict for a run that has ended with a status. -/
def notRunning (exportId : Int) (status : ExportStatus) : ApiError :=
  .stateConflict ("export " ++ toString exportId ++ " is not running (status=" ++ status.asStr ++ ")")

def runningExport (accountId exportId : Int) (s : State) : Except ApiError ExportRun := do
  let run ← ownedExport accountId exportId s
  if run.status ≠ .running then
    throw (notRunning exportId run.status)
  return run

/-- Closes a running run and deletes its list. -/
def finishExport (accountId exportId : Int) (status : ExportStatus) (s : State) : State × Bool :=
  if s.exports.any (fun run => run.id = exportId ∧ run.accountId = accountId ∧ run.status = .running)
  then
    ({ s with
        exports := s.exports.map (fun run =>
          if run.id = exportId ∧ run.accountId = accountId ∧ run.status = .running then
            { run with status := status } else run)
        exportMessages := s.exportMessages.filter (fun e => e.exportId ≠ exportId) }, true)
  else (s, false)

/-- Raises `messages_delivered` when that is higher, on a run that is still running. -/
def recordDelivered (accountId exportId delivered : Int) (s : State) : State × Bool :=
  ({ s with
      exports := s.exports.map (fun run =>
        if run.id = exportId ∧ run.accountId = accountId ∧ run.status = .running then
          { run with messagesDelivered :=
              if run.messagesDelivered < delivered then delivered else run.messagesDelivered }
        else run) },
    s.exports.any (fun run => run.id = exportId ∧ run.accountId = accountId ∧ run.status = .running))

/-! Pages. -/

def maxListLimit : Nat := 500

def pageParams (limit offset : Nat) : Except ApiError Unit :=
  if limit = 0 then .error (.validationFailed "limit must be at least 1")
  else if maxListLimit < limit then
    .error (.validationFailed ("limit exceeds maximum of " ++ toString maxListLimit))
  else if 2 ^ 63 ≤ offset then
    .error (.validationFailed ("offset exceeds maximum of " ++ toString (2 ^ 63 - 1)))
  else .ok ()

/-- A number as an `i64`, at the nearest end when it is past one. -/
def saturated (n : Int) : Int := max (-2 ^ 63) (min n (2 ^ 63 - 1))

/-- The first and last place (exclusive, inclusive) of a page. -/
def pagePlaces (total offset limit : Nat) : Direction → Int × Int
  | .asc => (sqlInt offset, saturated (sqlInt offset + sqlInt limit))
  | .desc =>
    let last := saturated (sqlInt total - sqlInt offset)
    (saturated (last - sqlInt limit), last)

structure ExportPageOpts where
  exportId : Int
  total : Nat
  limit : Nat
  offset : Nat
  order : List SortKey

/-- `ORDER BY e.row_order`. -/
def orderByPlace :
    Direction → List (Int × MessagePages.Message) → List (Int × MessagePages.Message)
  | .asc => Keyset.orderBy Prod.fst
  | .desc => Keyset.orderBy (fun r => OrderDual.toDual r.1)

/-- The places of a page, each joined with its message, the conversation and the handles. -/
def placesFrom (s : State) (exportId after through : Int) : List (Int × MessagePages.Message) :=
  (s.exportMessages.filter (fun e =>
    e.exportId = exportId ∧ after < e.rowOrder ∧ e.rowOrder ≤ through)).flatMap (fun e =>
      ((messagesAt s e).flatMap (joinRow s.tables.db)).map (fun r => (e.rowOrder, r)))

def exportMessages (s : State) (opts : ExportPageOpts) : Page :=
  let direction := directionOf opts.order
  let (after, through) := pagePlaces opts.total opts.offset opts.limit direction
  ⟨((orderByPlace direction (placesFrom s opts.exportId after through)).map Prod.snd).take
    (sqlInt opts.limit), opts.total, opts.limit, opts.offset⟩

/-- The places that a page reaches. -/
def reached (total offset limit : Nat) : Nat :=
  if offset < total then min (offset + limit) total else 0

/-- Where the next page starts. -/
def nextOffset (offset limit total : Nat) : Option Nat :=
  if limit = 0 then none
  else
    let next := min (offset + limit) (2 ^ 64 - 1)
    if next < total then some next else none

/-! Steps. -/

inductive Event
  /-- A transaction of another request, with the messages that it deletes and the tables after it. -/
  | write (deleted : List Int) (tables : Tables)
  | trash (conversationId : Int)
  | restore (conversationId : Int)
  | create (accountId exportId : Int) (filter : MessagePages.Message → Bool)
  | close (accountId exportId : Int) (status : ExportStatus)
  | lookUp (n : Nat)
  | load (n : Nat)
  | answer (n : Nat)
  /-- A client gets no answer. The page may have been recorded. -/
  | lose (n : Nat) (recorded : Bool)

/-- The places of deleted messages. -/
def emptied (deleted : List Int) (e : ExportMessage) : ExportMessage :=
  if e.messageId.any (· ∈ deleted) then { e with messageId := none } else e

def write (deleted : List Int) (tables : Tables) (s : State) : State :=
  { s with
    tables := tables
    exportMessages := s.exportMessages.map (emptied deleted)
    made := fun i =>
      if s.tables.db.messages.any (fun m => m.id = i) ∧ i ∉ deleted then s.made i else s.now
    now := s.now + 1 }

def State.setClient (s : State) (n : Nat) (client : Client) : State :=
  { s with clients := Function.update s.clients n client }

/-- The run is looked up, and is running. -/
def lookUp (plan : Plan) (client : Client) (s : State) : Phase :=
  match (do
    pageParams plan.limit client.offset
    runningExport plan.accountId plan.exportId s) with
  | .ok run => .counted run.messageCount.toNat
  | .error error => .refused error

def load (plan : Plan) (client : Client) (total : Nat) (s : State) : List Item :=
  (exportMessages s ⟨plan.exportId, total, plan.limit, client.offset, plan.order⟩).items.map
    (fun r => ⟨r, s.made r.id⟩)

/-- The page arrives, and the next one is asked for. -/
def receive (plan : Plan) (client : Client) (total : Nat) (items : List Item) : Client :=
  match nextOffset client.offset plan.limit total with
  | some next => ⟨next, client.received ++ items, .asking⟩
  | none => ⟨client.offset, client.received ++ items, .done⟩

/-- What a page that is recorded leaves, and whether the run was still running. -/
def recordPage (plan : Plan) (client : Client) (total : Nat) (s : State) : State × Bool :=
  recordDelivered plan.accountId plan.exportId (sqlInt (reached total client.offset plan.limit)) s

/-- The answer for a run that was not running any more. -/
def conflict (plan : Plan) (s : State) : ApiError :=
  match ownedExport plan.accountId plan.exportId s with
  | .ok run => notRunning plan.exportId run.status
  | .error error => error

def next (plan : Nat → Plan) (s : State) : Event → Option State
  | .write deleted tables =>
    if ∀ m ∈ s.tables.db.messages, m.id ∉ deleted → ∃ m' ∈ tables.db.messages, m'.id = m.id then
      some (write deleted tables s)
    else none
  | .trash i => some { s with trashed := i :: s.trashed }
  | .restore i => some { s with trashed := s.trashed.filter (· ≠ i) }
  | .create accountId exportId filter =>
    if s.exports.any (fun run => run.id = exportId) then none
    else some (startExportRun accountId exportId filter s)
  | .close accountId exportId status =>
    if status = .running then none else some (finishExport accountId exportId status s).1
  | .lookUp n =>
    match (s.clients n).phase with
    | .asking => some (s.setClient n { s.clients n with phase := lookUp (plan n) (s.clients n) s })
    | _ => none
  | .load n =>
    match (s.clients n).phase with
    | .counted total =>
      some (s.setClient n { s.clients n with
        phase := .loaded total (load (plan n) (s.clients n) total s) })
    | _ => none
  | .answer n =>
    match (s.clients n).phase with
    | .loaded total items =>
      let (s', running) := recordPage (plan n) (s.clients n) total s
      if running then some (s'.setClient n (receive (plan n) (s.clients n) total items))
      else some (s'.setClient n { s.clients n with phase := .refused (conflict (plan n) s') })
    | _ => none
  | .lose n recorded =>
    match (s.clients n).phase with
    | .done => none
    | .loaded total _ =>
      let s' := if recorded then (recordPage (plan n) (s.clients n) total s).1 else s
      some (s'.setClient n { s.clients n with phase := .asking })
    | _ => some (s.setClient n { s.clients n with phase := .asking })

/-- No run yet, and every client about to ask for its first page. -/
def initial (plan : Nat → Plan) (tables : Tables) : State where
  tables := tables
  trashed := []
  exports := []
  exportMessages := []
  clients n := ⟨(plan n).start, [], .asking⟩
  made _ := 0
  now := 1
  listed _ := []

end MessageCrate.ExportRuns

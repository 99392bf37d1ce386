import MessageCrate.Import.StagedOrder

/- Import Runs and the requests that write them (`crates/server/server/src/db/imports.rs`,
   and the handlers of `imports_api/mod.rs`).

   The `imports` table has a partial unique index: one running run an account. Every later
   write of a run names `status = 'running'` in its `WHERE`. A request is a short program of
   statements and write transactions; each is atomic, and any number of requests take turns
   (`Step`). A request may also go away between two of them.

   Correspondence (Rust ↔ Lean):
     `start_import`, `record_credential`  ↔ `startImport`, `recordCredential`
     `set_import_stage`, `discard_import` ↔ `setImportStage`, `discardImport`
     `require_running_import`             ↔ `requireRunningImport`
     `complete_import`                    ↔ `completeImport`
     `discard_running_import`             ↔ `Pending.discardRunning`, then `Pending.discard`
     `create_import_batch`                ↔ `Pending.batch`, `batchWaiting`
     `run_import_path`, `import_on_conn`  ↔ `Pending.batchLocked`, `batchDedupe`
     `account_import_locks`               ↔ `Pending.lockedAccount`
     `rows_affected() == 0`               ↔ `none`

   Left out: what completing a run adds beside it (its saved search, its contact group), the
   sweep of the asset store after a run, and the answers' bodies. -/
namespace MessageCrate
open Grouping SqlTable

inductive ImportStage where
  | parse
  | write
  | stagingReview
  | media
  | mediaReview
  | upload
  deriving DecidableEq, Repr

inductive ImportStatus where
  | running
  | completed
  | completedWithIssues
  | failed
  | cancelled
  deriving DecidableEq, Repr

/-- The value as the wire and the database spell it. -/
def ImportStatus.asStr : ImportStatus → String
  | .running => "running"
  | .completed => "completed"
  | .completedWithIssues => "completed_with_issues"
  | .failed => "failed"
  | .cancelled => "cancelled"

inductive ImportIssueStage where
  | staging
  | media
  | upload
  deriving DecidableEq, Repr

/-- What started a run: a Session and the app it named, or an API token as it was then. -/
structure RunCredentialColumns where
  credential : String
  appKind : Option String
  appBuild : Option String
  apiTokenLabel : Option String
  apiTokenHint : Option String
  deriving DecidableEq, Repr

structure ImportRow where
  id : Int
  accountId : Int
  source : String
  tool : Option String
  mode : String
  dedupe : Bool
  status : ImportStatus
  startedAt : String
  finishedAt : Option String
  messageCount : Int
  attachmentCount : Int
  bytesUploaded : Int
  durationMs : Option Int
  parseMs : Option Int
  attachmentsMs : Option Int
  prepareMs : Option Int
  uploadMs : Option Int
  summaryJson : Option String
  stage : Option ImportStage
  stagingDir : Option String
  deviceId : Option String
  formJson : Option String
  sourceFingerprint : Option String
  sourceIdentities : Option String
  credential : Option RunCredentialColumns
  deriving DecidableEq, Repr

/-- `ux_imports_active_account`: at most one running Import Run per account. -/
instance : Row ImportRow Int where
  id := ImportRow.id
  key r := if r.status = .running then some r.accountId else none

structure ImportIssueRow where
  id : Int
  importId : Int
  kind : String
  stage : ImportIssueStage
  item : String
  reason : String
  createdAt : String
  deriving DecidableEq, Repr

instance : Row ImportIssueRow Empty where
  id := ImportIssueRow.id
  key _ := none

/-! Starting a run. -/

structure StartImportArgs where
  accountId : Int
  source : String
  mode : String
  dedupe : Bool
  tool : Option String
  stage : ImportStage
  stagingDir : Option String
  deviceId : Option String
  formJson : Option String
  sourceFingerprint : Option String
  sourceIdentities : Option String

/-- The row a run opens with. -/
def StartImportArgs.new (args : StartImportArgs) (now : String) : New ImportRow where
  row i := {
    id := i
    accountId := args.accountId
    source := args.source
    tool := args.tool
    mode := args.mode
    dedupe := args.dedupe
    status := .running
    startedAt := now
    finishedAt := none
    messageCount := 0
    attachmentCount := 0
    bytesUploaded := 0
    durationMs := none
    parseMs := none
    attachmentsMs := none
    prepareMs := none
    uploadMs := none
    summaryJson := none
    stage := some args.stage
    stagingDir := args.stagingDir
    deviceId := args.deviceId
    formJson := args.formJson
    sourceFingerprint := args.sourceFingerprint
    sourceIdentities := args.sourceIdentities
    credential := none }
  key := some args.accountId
  id_row _ := rfl
  key_row _ := rfl

/-- Opens a new Import Run; `none` when the account already has a running one. -/
def startImport (now : String) (args : StartImportArgs) (imports : Table ImportRow) :
    Option (Table ImportRow × Int) :=
  (imports.insert (args.new now)).map (fun t => (t, imports.nextId))

/-- Records what started a run on its row. -/
def recordCredential (importId : Int) (columns : RunCredentialColumns) : Change ImportRow where
  apply r := if r.id = importId then { r with credential := some columns } else r
  id_apply r := by
    split <;> rfl
  key_apply r := by
    split <;> exact Or.inl rfl

/-! Writing a running run. -/

/-- `WHERE id = … AND account_id = … AND status = 'running'`. -/
def ImportRow.isRunningOf (accountId importId : Int) (r : ImportRow) : Bool :=
  r.id = importId ∧ r.accountId = accountId ∧ r.status = .running

/-- The update of the account's run, as long as it is running. -/
def whileRunning (accountId importId : Int) (set : Change ImportRow) : Change ImportRow where
  apply r := if r.isRunningOf accountId importId then set.apply r else r
  id_apply r := by
    split
    · exact set.id_apply r
    · rfl
  key_apply r := by
    split
    · exact set.key_apply r
    · exact Or.inl rfl

/-- The update, or `none` when it changes no row. -/
def updateRunning (accountId importId : Int) (set : Change ImportRow) (imports : Table ImportRow) :
    Option (Table ImportRow) :=
  if imports.rows.any (ImportRow.isRunningOf accountId importId) then
    some (imports.update (whileRunning accountId importId set))
  else none

/-- Moves a running Import Run to another stage; no summary leaves the stored one. -/
def setImportStage (accountId importId : Int) (stage : ImportStage) (summaryJson : Option String)
    (imports : Table ImportRow) : Option (Table ImportRow) :=
  updateRunning accountId importId {
    apply := fun r => { r with
      stage := some stage
      summaryJson := summaryJson <|> r.summaryJson }
    id_apply := fun _ => rfl
    key_apply := fun _ => Or.inl rfl } imports

/-- Closes a running Import Run the user gave up on. -/
def discardImport (now : String) (accountId importId : Int) (imports : Table ImportRow) :
    Option (Table ImportRow) :=
  updateRunning accountId importId {
    apply := fun r => { r with
      status := .cancelled
      stage := none
      finishedAt := some now }
    id_apply := fun _ => rfl
    key_apply := fun _ => Or.inr rfl } imports

/-! Reading a run. -/

inductive ImportLookupError where
  | notFound (importId : Int)
  | invalidRun (message : String)
  | db (message : String)
  deriving DecidableEq, Repr

/-- The account's import. -/
def getOwnedImport (accountId importId : Int) (imports : Table ImportRow) :
    Except ImportLookupError ImportRow :=
  match imports.rows.find? (fun r => r.id = importId ∧ r.accountId = accountId) with
  | some row => .ok row
  | none => .error (.notFound importId)

/-- The account's import when it is still running. -/
def requireRunningImport (accountId importId : Int) (imports : Table ImportRow) :
    Except ImportLookupError ImportRow := do
  let existing ← getOwnedImport accountId importId imports
  if existing.status ≠ .running then
    throw (.invalidRun (s!"import {importId} is not running (status={existing.status.asStr})"))
  return existing

/-- Why a write guarded by `status = 'running'` changed no row. -/
def notRunning (accountId importId : Int) (imports : Table ImportRow) : ImportLookupError :=
  match requireRunningImport accountId importId imports with
  | .error err => err
  | .ok _ => .invalidRun s!"import {importId} is not running"

/-- Whether a message carries the run's id. -/
def hasMessages (importId : Int) (db : Db) : Bool :=
  db.messages.rows.any (fun m => m.importId = some importId)

/-! Completing a run. -/

/-- How a run ends when it is completed: the words `validate_import_status` lets through. -/
inductive CompletedStatus where
  | completed
  | completedWithIssues
  | failed
  deriving DecidableEq, Repr

def CompletedStatus.status : CompletedStatus → ImportStatus
  | .completed => .completed
  | .completedWithIssues => .completedWithIssues
  | .failed => .failed

structure ImportIssueInput where
  kind : String
  stage : ImportIssueStage
  item : String
  reason : String
  deriving DecidableEq, Repr

structure CompleteImportArgs where
  status : CompletedStatus
  messageCount : Option Int
  attachmentCount : Option Int
  bytesUploaded : Option Int
  durationMs : Option Int
  parseMs : Option Int
  attachmentsMs : Option Int
  prepareMs : Option Int
  uploadMs : Option Int
  summaryJson : Option String
  issues : List ImportIssueInput

/-- Only `error` and `skip` are stored issue kinds. -/
def validateIssueKind (kind : String) : Except ImportLookupError Unit :=
  if kind = "error" ∨ kind = "skip" then .ok ()
  else .error (.db s!"invalid import issue kind '{kind}'; expected 'error' or 'skip'")

/-- One issue row of an import. -/
def ImportIssueInput.new (issue : ImportIssueInput) (importId : Int) (now : String) :
    New ImportIssueRow where
  row i := {
    id := i
    importId := importId
    kind := issue.kind
    stage := issue.stage
    item := issue.item
    reason := issue.reason
    createdAt := now }
  key := none
  id_row _ := rfl
  key_row _ := rfl

/-- The outcome written over a run. -/
def CompleteImportArgs.outcome (args : CompleteImportArgs) (now : String)
    (messageCount attachmentCount bytesUploaded : Int) : Change ImportRow where
  apply r := { r with
    status := args.status.status
    finishedAt := some now
    messageCount := messageCount
    attachmentCount := attachmentCount
    bytesUploaded := bytesUploaded
    durationMs := args.durationMs
    parseMs := args.parseMs
    attachmentsMs := args.attachmentsMs
    prepareMs := args.prepareMs
    uploadMs := args.uploadMs
    summaryJson := args.summaryJson
    stage := none }
  id_apply _ := rfl
  key_apply _ := by
    cases args.status <;> exact Or.inr rfl

/-- Finishes a running import, in one write transaction: prefers client counts, else derives
them from linked messages. -/
def completeImport (now : String) (accountId importId : Int) (args : CompleteImportArgs) (db : Db)
    (imports : Table ImportRow) (issues : Table ImportIssueRow) :
    Except ImportLookupError (Table ImportRow × Table ImportIssueRow) := do
  args.issues.forM (fun issue => validateIssueKind issue.kind)
  let existing ← requireRunningImport accountId importId imports
  let ofRun (m : MessageRow) : Bool := m.importId = some importId ∧ m.accountId = accountId
  let messageCount := args.messageCount.getD (db.messages.rows.countP ofRun)
  let attachmentCount := args.attachmentCount.getD
    (db.attachments.rows.countP (fun a => db.messages.rows.any (fun m => m.id = a.messageId ∧ ofRun m)))
  let bytesUploaded := args.bytesUploaded.getD existing.bytesUploaded
  match updateRunning accountId importId
      (args.outcome now messageCount attachmentCount bytesUploaded) imports with
  | none => throw (.invalidRun s!"import {importId} finished while it was being completed")
  | some imports =>
    return (imports, issues.insertOrIgnoreAll (args.issues.map (fun issue => issue.new importId now)))

/-! Batches. -/

/-- What one batch imports under. -/
structure BatchContext where
  account : Int
  importId : Int
  source : String
  mode : ImportMode
  dedupe : Bool
  deriving DecidableEq, Repr

/-- The context a running row gives a batch; a mode it does not know is `append`. -/
def BatchContext.fromRow (row : ImportRow) : BatchContext where
  account := row.accountId
  importId := row.id
  source := row.source
  mode := if row.mode = "replace" then .replace else .append
  dedupe := row.dedupe

/-- The mode of one batch: a `replace` run wipes the source on its first batch, and the run's
stamped messages say which that is. -/
def BatchContext.batchMode (context : BatchContext) (db : Db) : ImportMode :=
  if context.mode = .replace ∧ hasMessages context.importId db = false then .replace else .append

/-- The source ids a replace-mode batch wipes. -/
def sourcesToWipe (mode : ImportMode) (source : String) : List String :=
  match mode with
  | .replace => [source]
  | .append => []

/-- What staging leaves of one batch (`exists_stagedBatch`): every message is the account's, under
the run's source and id, in a conversation staged for the account. -/
structure StagedBatch (context : BatchContext) where
  staging : Staging
  own : ∀ sm ∈ staging.messages.rows, sm.accountId = context.account ∧
    sm.source = context.source ∧ sm.importId = some context.importId ∧
    ∃ sc ∈ staging.conversationsOf context.account, sc.id = sm.conversationId

/-- The guids of a batch's messages. -/
def StagedBatch.guids {context : BatchContext} (batch : StagedBatch context) : List String :=
  batch.staging.messages.rows.map StagingMessageRow.guid

namespace Stage
variable {ctx : ImportContext} {st st' : Stage}

/-- Every staged message has the run's id. -/
def Stamped (ctx : ImportContext) (st : Stage) : Prop :=
  ∀ sm ∈ st.staging.messages.rows, sm.importId = ctx.importId

theorem Stamped.congr (hst : Stamped ctx st) (h : st'.staging.messages = st.staging.messages) :
    Stamped ctx st' := by
  unfold Stamped
  rw [h]
  exact hst

theorem Stamped.insertMessageRow {cur : Current} {p : PendingStagingMessage}
    (hst : Stamped ctx st) (h : Stage.insertMessageRow ctx cur p st = some st') :
    Stamped ctx st' := by
  unfold Stage.insertMessageRow at h
  split at h
  · split at h
    · next messages hins =>
      obtain rfl := Option.some.inj h
      obtain ⟨-, hrows⟩ := Table.insert_eq_some hins
      intro sm hsm
      have hsm : sm ∈ messages.rows := hsm
      rw [hrows] at hsm
      obtain hsm | hsm := List.mem_append.mp hsm
      · exact hst sm hsm
      · obtain rfl := List.mem_singleton.mp hsm
        rfl
    · obtain rfl := Option.some.inj h
      exact hst
  · cases h

theorem Stamped.step {move : Move} (hst : Stamped ctx st) (h : st.step ctx move = some st') :
    Stamped ctx st' := by
  cases move with
  | conversation sourceFile c =>
    obtain ⟨st₂, chatHandleId, row, hframe, -, rfl⟩ := conversation_eq_some h
    exact hst.congr hframe.messages
  | participant p => exact hst.congr (frame_participant h).messages
  | message msg =>
    obtain ⟨current, st₂, p, -, hframe, -, -, rfl⟩ := message_eq_some h
    exact hst.congr hframe.messages
  | rows count =>
    obtain ⟨current, -, h⟩ := Option.bind_eq_some_iff.mp h
    have hstart : Stamped ctx { st with pending := st.pending.drop count, inserted := [] } := hst
    exact (Runs.run_of_foldlM h).keeps (fun _ _ _ hone hst => hst.insertMessageRow hone) hstart
  | tapback index tap => exact hst.congr (frame_tapback h).messages
  | insertTapbacks =>
    obtain rfl := Option.some.inj h
    exact hst

theorem Stamped.run {moves : List Move} (hst : Stamped ctx st) (h : st.run ctx moves = some st') :
    Stamped ctx st' :=
  (Runs.run_of_foldlM h).keeps (fun _ _ _ hone hst => hst.step hone) hst

end Stage

/-- Staging the files of a request, whose headers take the run's source, leaves a batch. -/
theorem exists_stagedBatch {ctx : ImportContext} {context : BatchContext} {book : Book}
    {files : List (String × List ExportRecord)} {st : Stage}
    (haccount : ctx.accountId = context.account) (hrun : ctx.importId = some context.importId)
    (hsource : ∀ file ∈ files, ∀ p ∈ groupRecords none file.2, p.1.source = context.source)
    (h : (Stage.start book).run ctx (stageAllFiles files) = some st) :
    ∃ batch : StagedBatch context, batch.staging = st.staging := by
  have hin := Stage.staged_inOrder h
  have hstamped : Stage.Stamped ctx st := by
    refine Stage.Stamped.run (fun sm hsm => ?_) h
    cases hsm
  refine ⟨⟨st.staging, fun sm hsm => ⟨?_, ?_, (hstamped sm hsm).trans hrun, ?_⟩⟩, rfl⟩
  · exact (hin.named sm hsm).1.trans haccount
  · obtain ⟨file, hfile, hname⟩ := List.mem_flatMap.mp (hin.named sm hsm).2
    obtain ⟨p, hp, hname⟩ := List.mem_flatMap.mp hname
    obtain ⟨msg, -, hname⟩ := List.mem_map.mp hname
    exact (congrArg Prod.fst hname).symm.trans (hsource file hfile p hp)
  · obtain ⟨c, hc, hid, hacc⟩ := hin.conversation sm hsm
    exact ⟨c, List.mem_filter.mpr ⟨hc, decide_eq_true (hacc.trans haccount)⟩, hid⟩

/-- The messages with the content keys and flags a dedupe run left. -/
def dedupeChange (a : Account) : Change MessageRow where
  apply m :=
    match a.messages.find? (fun x => x.id == m.id) with
    | some x => { m with contentKey := x.contentKey, duplicateOf := x.duplicateOf }
    | none => m
  id_apply m := by
    split <;> rfl
  key_apply m := by
    split <;> exact Or.inl rfl

/-! Requests. -/

/-- A request under way, at the statement or transaction it takes next. -/
inductive Pending where
  | start (args : StartImportArgs) (credential : RunCredentialColumns)
  | setStage (accountId importId : Int) (stage : ImportStage) (summaryJson : Option String)
  | discard (accountId importId : Int)
  | discardRunning (accountId : Int)
  | complete (accountId importId : Int) (args : CompleteImportArgs)
  /-- A guarded write changed no row; the run is read for the reason. -/
  | whyNotRunning (accountId importId : Int)
  | batch (accountId importId : Int)
  /-- The run was running; the body is read, and the account's lock awaited. -/
  | batchWaiting (context : BatchContext)
  /-- The account's lock is held and the mode decided; the import is to commit. -/
  | batchLocked (context : BatchContext) (mode : ImportMode)
  /-- The import committed; the dedupe run is to commit, under the same lock. -/
  | batchDedupe (context : BatchContext)

/-- A request as a client sends it. -/
def Pending.IsRequest : Pending → Prop
  | .whyNotRunning _ _ | .batchWaiting _ | .batchLocked _ _ | .batchDedupe _ => False
  | _ => True

/-- The account whose import lock the request holds. -/
def Pending.lockedAccount : Pending → Option Int
  | .batchLocked context _ => some context.account
  | .batchDedupe context => some context.account
  | _ => none

/-- What a request has done, once it is done. -/
inductive Answer where
  | started (importId : Int)
  | alreadyActive
  | stageSet (importId : Int)
  /-- A discard or a completion closed the run. -/
  | closed (importId : Int)
  | nothingRunning
  | refused (error : ImportLookupError)
  | failed
  | stored (importId : Int)
  deriving DecidableEq, Repr

/-- A committed batch: its run, and its messages' guids. -/
structure Commit where
  importId : Int
  guids : List String
  deriving DecidableEq, Repr

/-- The tables requests write, and the batches committed so far, which no request reads. -/
structure World where
  imports : Table ImportRow
  issues : Table ImportIssueRow
  db : Db
  commits : List Commit

section
variable (sha256Hex : ByteArray → String) (rfc3339Secs : String → Option Int)

/-- One statement or transaction of a request: the tables before, the request, the tables
after, and what the request does next or answers. `locked` are the accounts whose lock other
requests hold. Times, hash orders and staged rows are whatever they turn out to be. -/
inductive Acts (locked : List Int) : World → Pending → World → Pending ⊕ Answer → Prop
  | start {x : World} {args : StartImportArgs} {credential : RunCredentialColumns} {now : String}
      {imports : Table ImportRow} {importId : Int}
      (h : startImport now args x.imports = some (imports, importId)) :
      Acts locked x (.start args credential)
        ⟨imports.update (recordCredential importId credential), x.issues, x.db, x.commits⟩
        (.inr (.started importId))
  | startRefused {x : World} {args : StartImportArgs} {credential : RunCredentialColumns}
      {now : String} (h : startImport now args x.imports = none) :
      Acts locked x (.start args credential) x (.inr .alreadyActive)
  | setStage {x : World} {accountId importId : Int} {stage : ImportStage}
      {summaryJson : Option String} {imports : Table ImportRow}
      (h : setImportStage accountId importId stage summaryJson x.imports = some imports) :
      Acts locked x (.setStage accountId importId stage summaryJson)
        ⟨imports, x.issues, x.db, x.commits⟩ (.inr (.stageSet importId))
  | setStageMissed {x : World} {accountId importId : Int} {stage : ImportStage}
      {summaryJson : Option String}
      (h : setImportStage accountId importId stage summaryJson x.imports = none) :
      Acts locked x (.setStage accountId importId stage summaryJson) x
        (.inl (.whyNotRunning accountId importId))
  | discard {x : World} {accountId importId : Int} {now : String} {imports : Table ImportRow}
      (h : discardImport now accountId importId x.imports = some imports) :
      Acts locked x (.discard accountId importId) ⟨imports, x.issues, x.db, x.commits⟩
        (.inr (.closed importId))
  | discardMissed {x : World} {accountId importId : Int} {now : String}
      (h : discardImport now accountId importId x.imports = none) :
      Acts locked x (.discard accountId importId) x (.inl (.whyNotRunning accountId importId))
  | discardRunning {x : World} {accountId : Int} {row : ImportRow}
      (h : x.imports.rows.find? (fun r => r.accountId = accountId ∧ r.status = .running) =
        some row) :
      Acts locked x (.discardRunning accountId) x (.inl (.discard accountId row.id))
  | discardRunningNone {x : World} {accountId : Int}
      (h : x.imports.rows.find? (fun r => r.accountId = accountId ∧ r.status = .running) = none) :
      Acts locked x (.discardRunning accountId) x (.inr .nothingRunning)
  | whyNotRunning {x : World} {accountId importId : Int} :
      Acts locked x (.whyNotRunning accountId importId) x
        (.inr (.refused (notRunning accountId importId x.imports)))
  | complete {x : World} {accountId importId : Int} {args : CompleteImportArgs} {now : String}
      {imports : Table ImportRow} {issues : Table ImportIssueRow}
      (h : completeImport now accountId importId args x.db x.imports x.issues =
        .ok (imports, issues)) :
      Acts locked x (.complete accountId importId args) ⟨imports, issues, x.db, x.commits⟩
        (.inr (.closed importId))
  | completeRefused {x : World} {accountId importId : Int} {args : CompleteImportArgs}
      {now : String} {error : ImportLookupError}
      (h : completeImport now accountId importId args x.db x.imports x.issues = .error error) :
      Acts locked x (.complete accountId importId args) x (.inr (.refused error))
  | batch {x : World} {accountId importId : Int} {row : ImportRow}
      (h : requireRunningImport accountId importId x.imports = .ok row) :
      Acts locked x (.batch accountId importId) x (.inl (.batchWaiting (BatchContext.fromRow row)))
  | batchRefused {x : World} {accountId importId : Int} {error : ImportLookupError}
      (h : requireRunningImport accountId importId x.imports = .error error) :
      Acts locked x (.batch accountId importId) x (.inr (.refused error))
  | batchLock {x : World} {context : BatchContext} (h : context.account ∉ locked) :
      Acts locked x (.batchWaiting context) x
        (.inl (.batchLocked context (context.batchMode x.db)))
  | batchCommit {x : World} {context : BatchContext} {mode : ImportMode} {row : ImportRow}
      {handles : Handles} {w : Walk} {batch : StagedBatch context} {db : Db} {stats : PromoteStats}
      (hrun : requireRunningImport context.account context.importId x.imports = .ok row)
      (h : promoteAppend sha256Hex rfc3339Secs handles w mode context.account context.dedupe
        (sourcesToWipe mode context.source) batch.staging x.db = some (db, stats)) :
      Acts locked x (.batchLocked context mode)
        ⟨x.imports, x.issues, db, ⟨context.importId, batch.guids⟩ :: x.commits⟩
        (if context.dedupe then .inl (.batchDedupe context) else .inr (.stored context.importId))
  | batchDedupe {x : World} {context : BatchContext} {handles : Handles} {w : Walk}
      {stats : DedupeStats} {a : Account}
      (h : dedupeCrossSource sha256Hex rfc3339Secs w none 2 (x.db.account handles context.account) =
        some (stats, a)) :
      Acts locked x (.batchDedupe context)
        ⟨x.imports, x.issues, x.db.setMessages (x.db.messages.update (dedupeChange a)), x.commits⟩
        (.inr (.stored context.importId))
  /-- A statement failed, or staging refused the body: what was open is rolled back. -/
  | fails {x : World} {p : Pending} : Acts locked x p x (.inr .failed)

/-- The server: its tables, the requests under way, and what was answered so far. -/
structure Server where
  world : World
  pending : List Pending
  answers : List Answer

/-- One step: a request arrives, or one of those under way acts. -/
inductive Step : Server → Server → Prop
  | arrives {st : Server} (p : Pending) (h : p.IsRequest) :
      Step st ⟨st.world, p :: st.pending, st.answers⟩
  | next {x x' : World} {before after : List Pending} {p q : Pending} {answers : List Answer}
      (h : Acts sha256Hex rfc3339Secs ((before ++ after).filterMap Pending.lockedAccount) x p x'
        (.inl q)) :
      Step ⟨x, before ++ p :: after, answers⟩ ⟨x', before ++ q :: after, answers⟩
  | done {x x' : World} {before after : List Pending} {p : Pending} {answers : List Answer}
      {answer : Answer}
      (h : Acts sha256Hex rfc3339Secs ((before ++ after).filterMap Pending.lockedAccount) x p x'
        (.inr answer)) :
      Step ⟨x, before ++ p :: after, answers⟩ ⟨x', before ++ after, answer :: answers⟩

/-- Any number of steps. -/
inductive Steps : Server → Server → Prop
  | refl (st : Server) : Steps st st
  | tail {st st' st'' : Server} (h : Steps st st') (hstep : Step sha256Hex rfc3339Secs st' st'') :
      Steps st st''

end

end MessageCrate

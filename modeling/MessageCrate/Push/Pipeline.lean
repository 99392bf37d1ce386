import MessageCrate.Import.Promote
import MessageCrate.Lib.Ops
import MessageCrate.Push.Journal
import Mathlib.Data.List.Dedup
import Mathlib.Logic.Function.Basic

/- One push run: chunks, batches, and the settling of files
   (`crates/libs/push/src/prepare.rs`, `pipeline.rs`, `run.rs`).

   The main thread takes prepared conversations in file order, packs their chunks into
   batches, sends one batch at a time and settles each file. What is not the main thread's to
   choose is in `Outside`: when the cancel comes, which prepare worker finishes next and what
   it has, how each request is answered, and whether an append to the journal goes through.

   Correspondence (Rust ↔ Lean):
     `ChunkBuilder`, its `seal`              ↔ `ChunkBuilder`, `sealChunk`
     `build_import_chunks`                   ↔ `pushLines`, `buildImportChunks`
     `ImportBatch`, `FileTracker`            ↔ `ImportBatch`, `FileTracker`
     `ImportPipeline`, its methods           ↔ `ImportPipeline`, the `PushM` programs
     `check_cancel(..).is_err()`             ↔ `isCancelled`
     `consume_result`                        ↔ `consumeResult`
   `effects` and `queued` are histories that the code does not keep. `Nat` stands for the
   counters: none of them can pass the number of messages held in memory.
   Left out: times, byte totals of attachments and log lines. A cancel that a prepare worker
   sees is an error of its file like any other. -/
namespace MessageCrate
open Ops

/-! Chunks. -/

/-- One piece of an import request: the header line and message lines, with the ids of the
    messages and, for each line, the line of the staged file it came from. -/
structure ImportChunk where
  body : List UInt8
  messages : List JournalMessage
  fileLines : List Nat
  deriving DecidableEq, Repr

/-- An encoded message: its line, its resume guid, and its line of the staged file. -/
structure StagedLine where
  line : List UInt8
  guid : String
  fileLine : Nat
  deriving DecidableEq, Repr

/-- A conversation file as a worker has read it, its attachments uploaded. -/
structure StagedFile where
  source : String
  headerLine : List UInt8
  lines : List StagedLine
  attachments : Nat
  deriving DecidableEq, Repr

def maxImportBodyBytes : Nat := 64 * 1024 * 1024

structure ChunkBuilder where
  headerLine : List UInt8
  maxMessages : Nat
  maxBodyBytes : Nat
  chunks : List ImportChunk
  body : List UInt8
  messages : List JournalMessage
  fileLines : List Nat

namespace ChunkBuilder

def new (headerLine : List UInt8) (maxMessages maxBodyBytes : Nat) : ChunkBuilder :=
  ⟨headerLine, maxMessages, maxBodyBytes, [], headerLine, [], [1]⟩

def sealChunk (b : ChunkBuilder) : ChunkBuilder :=
  { b with
    chunks := b.chunks ++ [⟨b.body, b.messages, b.fileLines⟩]
    body := b.headerLine, messages := [], fileLines := [1] }

def full (b : ChunkBuilder) (line : List UInt8) : Bool :=
  !b.messages.isEmpty &&
    (decide (b.maxMessages ≤ b.messages.length) ||
      decide (b.maxBodyBytes < b.body.length + line.length))

def push (b : ChunkBuilder) (line : List UInt8) (message : JournalMessage) (fileLine : Nat) :
    ChunkBuilder :=
  let b := if b.full line then b.sealChunk else b
  { b with
    body := b.body ++ line
    messages := b.messages ++ [message]
    fileLines := b.fileLines ++ [fileLine] }

def finish (b : ChunkBuilder) : List ImportChunk :=
  (if b.messages.isEmpty then b else b.sealChunk).chunks

end ChunkBuilder

/-- The lines of a file that go into chunks, in order; a line too long for any chunk fails
    the file. `hasMessage` is what the look for each line in the journal finds. -/
def pushLines (force : Bool) (hasMessage : StagedLine → Bool) (name : String) :
    List StagedLine → ChunkBuilder → Except String ChunkBuilder
  | [], b => .ok b
  | l :: lines, b =>
    if !force && hasMessage l then pushLines force hasMessage name lines b
    else if maxImportBodyBytes < l.line.length then
      .error (name ++ ": message " ++ l.guid ++ " encodes to " ++ toString l.line.length ++
        " bytes alone, which exceeds the " ++ toString (maxImportBodyBytes / (1024 * 1024)) ++
        " MiB import chunk limit — cannot upload through Cloudflare safely")
    else pushLines force hasMessage name lines (b.push l.line ⟨name, l.guid⟩ l.fileLine)

def buildImportChunks (force : Bool) (batchSize : Nat) (hasMessage : StagedLine → Bool)
    (name : String) (file : StagedFile) : Except String (List ImportChunk) :=
  (pushLines force hasMessage name file.lines
    (.new file.headerLine batchSize maxImportBodyBytes)).map ChunkBuilder.finish

structure PreparedFile where
  source : String
  chunks : List ImportChunk
  attachments : Nat
  deriving DecidableEq, Repr

/-- The messages of every chunk. -/
def PreparedFile.messages (prepared : PreparedFile) : List JournalMessage :=
  prepared.chunks.flatMap ImportChunk.messages

inductive PrepareOutcome where
  | skipped
  | prepared (file : PreparedFile)
  | failed (error : String)
  deriving DecidableEq, Repr

structure PrepareResult where
  idx : Nat
  name : String
  outcome : PrepareOutcome
  deriving DecidableEq, Repr

/-! Batches. -/

structure BatchMessage where
  fileIndex : Nat
  journal : JournalMessage
  deriving DecidableEq, Repr

structure LineOrigin where
  fileIndex : Nat
  fileLine : Nat
  deriving DecidableEq, Repr

/-- Messages of one source packed into one request body. -/
structure ImportBatch where
  source : String
  body : List UInt8
  messages : List BatchMessage
  lines : List LineOrigin
  conversations : Nat
  deriving DecidableEq, Repr

namespace ImportBatch

def new (source : String) : ImportBatch := ⟨source, [], [], [], 0⟩

def push (batch : ImportBatch) (fileIndex : Nat) (chunk : ImportChunk) : ImportBatch :=
  { batch with
    body := batch.body ++ chunk.body
    messages := batch.messages ++ chunk.messages.map (fun m => ⟨fileIndex, m⟩)
    lines := batch.lines ++ chunk.fileLines.map (fun line => ⟨fileIndex, line⟩)
    conversations := batch.conversations + 1 }

/-- Where a line of the body, counted from 1, came from. -/
def origin (batch : ImportBatch) (line : Nat) : Option LineOrigin :=
  if line = 0 then none else batch.lines[line - 1]?

def wouldOverflow (batch : ImportBatch) (chunk : ImportChunk) (maxMessages maxBodyBytes : Nat) :
    Bool :=
  !batch.messages.isEmpty &&
    (decide (maxMessages < batch.messages.length + chunk.messages.length) ||
      decide (maxBodyBytes < batch.body.length + chunk.body.length))

def isFull (batch : ImportBatch) (maxMessages maxBodyBytes : Nat) : Bool :=
  decide (maxMessages ≤ batch.messages.length) || decide (maxBodyBytes ≤ batch.body.length)

def overlapFlushMinMessages : Nat := 100
def overlapFlushMinBodyBytes : Nat := 512 * 1024

def isWorthOverlapping (batch : ImportBatch) : Bool :=
  decide (overlapFlushMinMessages ≤ batch.messages.length) ||
    decide (overlapFlushMinBodyBytes ≤ batch.body.length)

/-- The files with messages in the batch, each once and in order. -/
def fileIndexes (batch : ImportBatch) : List Nat :=
  (batch.messages.map BatchMessage.fileIndex).dedup.insertionSort (· ≤ ·)

end ImportBatch

/-! Files. -/

/-- The status texts of a result row. -/
inductive FileStatus where
  | ok
  | failed
  | skipped
  | cancelled
  deriving DecidableEq, Repr

structure FileResult where
  file : String
  status : FileStatus
  error : Option String
  messages : Nat
  attachments : Nat
  deriving DecidableEq, Repr

namespace FileResult

def skipped (file : String) : FileResult := ⟨file, .skipped, none, 0, 0⟩
def cancelled (file : String) : FileResult := ⟨file, .cancelled, none, 0, 0⟩
def failed (file error : String) : FileResult := ⟨file, .failed, some error, 0, 0⟩

end FileResult

/-- One conversation from "prepared" until its chunks have succeeded or failed. `toSend` is
    the history of what its chunks held. -/
structure FileTracker where
  name : String
  source : String
  attachments : Nat
  outstandingMessages : Nat
  successfulMessages : Nat
  queueComplete : Bool
  failed : Option String
  done : Bool
  toSend : List JournalMessage
  deriving DecidableEq, Repr

namespace FileTracker

def new (name : String) (prepared : PreparedFile) : FileTracker :=
  { name
    source := prepared.source
    attachments := prepared.attachments
    outstandingMessages := prepared.messages.length
    successfulMessages := 0
    queueComplete := false
    failed := none
    done := false
    toSend := prepared.messages }

def isSettled (t : FileTracker) : Bool :=
  !t.done && (t.failed.isSome || (t.queueComplete && decide (t.outstandingMessages = 0)))

theorem isSettled_iff {t : FileTracker} : t.isSettled = true ↔
    t.done ≠ true ∧ (t.failed ≠ none ∨ (t.queueComplete = true ∧ t.outstandingMessages = 0)) := by
  simp [isSettled, Option.isSome_iff_ne_none]

/-- One of the file's messages was accepted. -/
def accept (t : FileTracker) : FileTracker :=
  { t with
    outstandingMessages := t.outstandingMessages - 1
    successfulMessages := t.successfulMessages + 1 }

end FileTracker

structure MessageAccounting where
  attempted : Nat
  inserted : Nat
  deduped : Nat
  failed : Nat
  deriving DecidableEq, Repr

/-! The pipeline. -/

structure CreateImportBatchResponse where
  messages : Nat
  messagesAppended : Nat
  messagesDeduped : Nat
  deriving DecidableEq, Repr

structure BatchError where
  message : String
  refusedLine : Option Nat
  deriving DecidableEq, Repr

/-- How an import request came out, its retries included. -/
inductive ImportAnswer where
  | ok (response : CreateImportBatchResponse)
  | refused (error : BatchError)
  | panicked
  deriving DecidableEq, Repr

/-- What a run did that somebody else can see, in order. -/
inductive PushEffect where
  | posted (batch : ImportBatch)
  | acknowledged (batch : ImportBatch)
  | refused (batch : ImportBatch)
  | journalledMessages (source : String) (messages : List JournalMessage) (how : Appended)
  | journalledFile (idx : Nat) (source name : String) (how : Appended)
  | journalledFailure (source file stage error : String) (how : Appended)
  deriving DecidableEq, Repr

/-- The call to the journal that an effect is. -/
def RunJournal.record (journal : RunJournal) : PushEffect → RunJournal
  | .journalledMessages source messages how => journal.messageBatchOk source messages how
  | .journalledFile _ source name how => journal.fileOk source name how
  | .journalledFailure source file stage error how => journal.recordFailure source file stage error how
  | _ => journal

/-- What a run is given from outside. -/
structure Outside where
  /-- Whether the `n`th look at the cancel flag finds it set. -/
  cancelledAt : Nat → Bool
  cancelled_stays : ∀ m n, m ≤ n → cancelledAt m = true → cancelledAt n = true
  /-- What reading and uploading a file comes to. -/
  staged : Nat → Except String StagedFile
  /-- Whether the look for a message of a file, by its line, comes late enough to find what
      this run has journalled. -/
  looksLate : Nat → Nat → Bool
  /-- Which of the files being prepared is done next; `none` when the workers have died. -/
  arrival : Nat → Option Nat
  answer : Nat → ImportAnswer
  appended : Nat → Appended
  /-- Whether the rewrite of the journal at the end goes through. -/
  compacted : Bool

inductive PushError where
  | noFiles
  | journal
  | importWorkerPanicked
  | prepareWorkerDisconnected
  | stuck
  deriving DecidableEq, Repr

structure ImportPipeline where
  batchSize : Nat
  pending : Option ImportBatch
  inflight : Option ImportBatch
  trackers : Nat → Option FileTracker
  results : Nat → Option FileResult
  accounting : MessageAccounting
  journal : RunJournal
  /-- How often the run has looked outside so far. -/
  checks : Nat
  requests : Nat
  appends : Nat
  arrivals : Nat
  effects : List PushEffect
  queued : List BatchMessage

abbrev PushM := Op ImportPipeline PushError

/-- The settings of a run that its choices depend on. -/
structure PushConfig where
  mode : ImportMode
  force : Bool
  batchSize : Nat
  prepareAhead : Nat
  deriving DecidableEq, Repr

/-- Whether the run opens its journal with empty skip sets. -/
def PushConfig.fresh (cfg : PushConfig) : Bool := cfg.force || decide (cfg.mode = .replace)

namespace ImportPipeline

def new (batchSize : Nat) (journal : RunJournal) : ImportPipeline :=
  { batchSize
    pending := none
    inflight := none
    trackers := fun _ => none
    results := fun _ => none
    accounting := ⟨0, 0, 0, 0⟩
    journal
    checks := 0
    requests := 0
    appends := 0
    arrivals := 0
    effects := []
    queued := [] }

def setTracker (p : ImportPipeline) (idx : Nat) (t : FileTracker) : ImportPipeline :=
  { p with trackers := Function.update p.trackers idx (some t) }

def setResult (p : ImportPipeline) (idx : Nat) (r : FileResult) : ImportPipeline :=
  { p with results := Function.update p.results idx (some r) }

section
variable {p : ImportPipeline} {idx i : Nat} {t : FileTracker} {r : FileResult}

@[simp] theorem setTracker_self : (p.setTracker idx t).trackers idx = some t :=
  Function.update_self ..

@[simp] theorem setTracker_of_ne (h : i ≠ idx) :
    (p.setTracker idx t).trackers i = p.trackers i :=
  Function.update_of_ne h ..

@[simp] theorem setTracker_results : (p.setTracker idx t).results = p.results := rfl

@[simp] theorem setResult_self : (p.setResult idx r).results idx = some r :=
  Function.update_self ..

@[simp] theorem setResult_of_ne (h : i ≠ idx) :
    (p.setResult idx r).results i = p.results i :=
  Function.update_of_ne h ..

@[simp] theorem setResult_trackers : (p.setResult idx r).trackers = p.trackers := rfl

end

def log (p : ImportPipeline) (effect : PushEffect) : ImportPipeline :=
  { p with effects := p.effects ++ [effect] }

/-- Every message of an accepted batch, counted for its file. -/
def accept (p : ImportPipeline) : List BatchMessage → ImportPipeline
  | [] => p
  | m :: messages =>
    match p.trackers m.fileIndex with
    | some t => (p.setTracker m.fileIndex t.accept).accept messages
    | none => p.accept messages

def pendingIsWorthOverlapping (p : ImportPipeline) : Bool :=
  p.pending.any ImportBatch.isWorthOverlapping

def pendingSourceDiffers (p : ImportPipeline) (source : String) : Bool :=
  p.pending.any (fun batch => decide (batch.source ≠ source))

def describeBatchError (p : ImportPipeline) (batch : ImportBatch) (error : BatchError) : String :=
  let place := do
    let line ← error.refusedLine
    let origin ← batch.origin line
    let tracker ← p.trackers origin.fileIndex
    pure ("line " ++ toString origin.fileLine ++ " of " ++ tracker.name)
  match place with
  | some place => place ++ ": " ++ error.message
  | none => error.message

end ImportPipeline

section
variable (out : Outside)

def isCancelled : PushM Bool := do
  let p ← Op.get
  Op.modify (fun p => { p with checks := p.checks + 1 })
  pure (out.cancelledAt p.checks)

/-- One append; an error of it is the caller's to pass on. -/
def writeJournal (effect : Appended → PushEffect) : PushM Unit := do
  let p ← Op.get
  let how := out.appended p.appends
  Op.modify (fun p =>
    ({ p with journal := p.journal.record (effect how), appends := p.appends + 1 }).log
      (effect how))
  if how.isOk then pure () else Op.fail .journal

/-- A failure row, written as well as can be. -/
def recordFailure (source file stage error : String) : PushM Unit :=
  (writeJournal out (.journalledFailure source file stage error)).ignore

def finishFileIfSettled (idx : Nat) : PushM Unit := do
  let p ← Op.get
  match p.trackers idx with
  | none => pure ()
  | some t =>
    if t.isSettled then
      Op.modify (fun p => p.setTracker idx { t with done := true })
      match t.failed with
      | some error =>
        Op.modify (fun p => p.setResult idx ⟨t.name, .failed, some error, 0, t.attachments⟩)
      | none =>
        writeJournal out (.journalledFile idx t.source t.name)
        Op.modify (fun p =>
          p.setResult idx ⟨t.name, .ok, none, t.successfulMessages, t.attachments⟩)
    else pure ()

/-- A failed batch fails every file with a message in it, once. -/
def failFile (source error : String) (idx : Nat) : PushM Unit := do
  let p ← Op.get
  match p.trackers idx with
  | none => pure ()
  | some t =>
    if t.failed.isNone then
      Op.modify (fun p => p.setTracker idx { t with failed := some error })
      recordFailure out source t.name "import" error
    else pure ()

def applyOk (batch : ImportBatch) (response : CreateImportBatchResponse) : PushM Unit := do
  Op.modify (fun p =>
    ({ p with
        accounting := { p.accounting with
          attempted := p.accounting.attempted + batch.messages.length
          inserted := p.accounting.inserted + response.messagesAppended
          deduped := p.accounting.deduped + response.messagesDeduped } }).log
      (.acknowledged batch))
  writeJournal out
    (.journalledMessages batch.source (batch.messages.map BatchMessage.journal))
  Op.modify (fun p => p.accept batch.messages)

def applyRefused (batch : ImportBatch) (error : BatchError) : PushM Unit := do
  Op.modify (fun p =>
    ({ p with
        accounting := { p.accounting with
          attempted := p.accounting.attempted + batch.messages.length
          failed := p.accounting.failed + batch.messages.length } }).log (.refused batch))
  let p ← Op.get
  Op.forEach (failFile out batch.source (p.describeBatchError batch error)) batch.fileIndexes

def applyOutcome (batch : ImportBatch) (answer : Except BatchError CreateImportBatchResponse) :
    PushM Bool := do
  match answer with
  | .ok response => applyOk out batch response
  | .error error => applyRefused out batch error
  Op.forEach (finishFileIfSettled out) batch.fileIndexes
  pure answer.isOk

def joinInflight : PushM Bool := do
  let p ← Op.get
  match p.inflight with
  | none => pure true
  | some batch =>
    Op.modify (fun p => { p with inflight := none, requests := p.requests + 1 })
    match out.answer p.requests with
    | .panicked => Op.fail .importWorkerPanicked
    | .ok response => applyOutcome out batch (.ok response)
    | .refused error => applyOutcome out batch (.error error)

def spawnImport (batch : ImportBatch) : PushM Unit :=
  Op.modify (fun p => ({ p with inflight := some batch }).log (.posted batch))

def flush (wait : Bool) : PushM Bool := do
  let ok ← joinInflight out
  let p ← Op.get
  match p.pending with
  | none => pure ok
  | some batch =>
    Op.modify (fun p => { p with pending := none })
    -- No import begins after a cancel; what was pending is never sent.
    if ← isCancelled out then pure false
    else
      spawnImport batch
      if wait then joinInflight out else pure ok

def flushAndContinue (wait : Bool) : PushM Bool := do
  let requestOk ← flush out wait
  if requestOk then pure true
  else
    let cancelled ← isCancelled out
    pure !cancelled

inductive ChunkStep where
  | continue
  | fileFailed
  | abort
  deriving DecidableEq, Repr

def flushForFile (idx : Nat) : PushM ChunkStep := do
  if ← flushAndContinue out false then
    let p ← Op.get
    if (p.trackers idx).any (fun t => t.failed.isSome) then pure .fileFailed
    else pure .continue
  else pure .abort

/-- The chunk joins the pending batch. -/
def pushChunk (idx : Nat) (chunk : ImportChunk) : PushM Unit :=
  Op.modify (fun p =>
    let source := ((p.trackers idx).map FileTracker.source).getD ""
    { p with
      pending := some ((p.pending.getD (.new source)).push idx chunk)
      queued := p.queued ++ chunk.messages.map (fun m => ⟨idx, m⟩) })

def queueChunk (idx : Nat) (chunk : ImportChunk) : PushM ChunkStep := do
  let p ← Op.get
  let step ←
    if p.pending.any (fun batch => batch.wouldOverflow chunk p.batchSize maxImportBodyBytes) then
      flushForFile out idx
    else pure .continue
  if step ≠ .continue then pure step
  else
    pushChunk idx chunk
    let p ← Op.get
    if p.pending.any (fun batch => batch.isFull p.batchSize maxImportBodyBytes) then
      flushForFile out idx
    else pure .continue

def finishQueueing (idx : Nat) : PushM Unit := do
  Op.modify (fun p =>
    match p.trackers idx with
    | some t => p.setTracker idx { t with queueComplete := true }
    | none => p)
  finishFileIfSettled out idx

/-- The chunks of one file in turn; `false` when the run must stop. -/
def queueChunks (idx : Nat) : List ImportChunk → PushM Bool
  | [] => pure true
  | chunk :: chunks => do
    match ← queueChunk out idx chunk with
    | .continue => queueChunks idx chunks
    | .fileFailed => pure true
    | .abort => pure false

def recordPrepareFailure (idx : Nat) (name error : String) : PushM Unit := do
  recordFailure out "" name "file" error
  Op.modify (fun p => p.setResult idx (.failed name error))

def consumePrepared (idx : Nat) (name : String) (prepared : PreparedFile) : PushM Bool := do
  Op.modify (fun p => p.setTracker idx (.new name prepared))
  if ← queueChunks out idx prepared.chunks then
    finishQueueing out idx
    pure true
  else pure false

def consumeResult (result : PrepareResult) : PushM Bool := do
  match result.outcome with
  | .skipped => pure true
  | .failed error =>
    recordPrepareFailure out result.idx result.name error
    pure true
  | .prepared prepared =>
    let p ← Op.get
    if p.pendingSourceDiffers prepared.source then
      if ← flushAndContinue out false then consumePrepared out result.idx result.name prepared
      else pure false
    else consumePrepared out result.idx result.name prepared

end

end MessageCrate

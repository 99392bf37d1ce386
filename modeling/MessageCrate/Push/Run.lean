import MessageCrate.Push.Queueing

/- A push run from its first file to its report (`crates/libs/push/src/run.rs`, with the
   `PrepareQueue` of `prepare.rs` and the report of `report.rs`).

   Files are handed to the prepare workers ahead of the import loop, which takes their results
   in file order. What a worker finds in the journal it reads line by line while the main
   thread writes rows, so each look finds what was there before the run and, when it comes
   late enough, what this run has written.

   Correspondence (Rust ↔ Lean):
     `PrepareContext::already_imported`       ↔ `alreadyImported`
     `prepare_file`                           ↔ `workerFinds`, `prepareFile`
     `PrepareQueue`, `submit_file`            ↔ `PrepareQueue`, `submitFile`
     the loop of `drive` and one turn of it   ↔ `drive`, `driveOnce`
     `settle`, `record_cancelled`             ↔ `settle`, `recordCancelled`
     `count_file_results`, `PushReport`       ↔ `countStatus`, `PushReport`
     `run`                                    ↔ `run`
   A run that fails before its first file, or that cannot write its report, returns none. -/
namespace MessageCrate
open Ops

/-! Preparing ahead. -/

structure PrepareJob where
  idx : Nat
  name : String
  deriving DecidableEq, Repr

/-- The files given to the workers and the results that wait for their turn. -/
structure PrepareQueue where
  capacity : Nat
  inflight : List PrepareJob
  ready : List PrepareResult
  deriving DecidableEq, Repr

namespace PrepareQueue

def start (capacity : Nat) : PrepareQueue := ⟨capacity, [], []⟩

def hasCapacity (queue : PrepareQueue) : Bool := decide (queue.inflight.length < queue.capacity)

def isIdle (queue : PrepareQueue) : Bool := queue.inflight.isEmpty

def submit (queue : PrepareQueue) (idx : Nat) (name : String) : PrepareQueue :=
  { queue with inflight := queue.inflight ++ [⟨idx, name⟩] }

def markSkipped (queue : PrepareQueue) (idx : Nat) (name : String) : PrepareQueue :=
  { queue with ready := queue.ready ++ [⟨idx, name, .skipped⟩] }

def isReady (queue : PrepareQueue) (idx : Nat) : Bool :=
  queue.ready.any (fun result => decide (result.idx = idx))

def take (queue : PrepareQueue) (idx : Nat) : Option (PrepareResult × PrepareQueue) :=
  (queue.ready.find? (fun result => decide (result.idx = idx))).map (fun result =>
    (result, { queue with ready := queue.ready.filter (fun r => decide (r.idx ≠ idx)) }))

end PrepareQueue

def alreadyImported (cfg : PushConfig) (journal : RunJournal) (name : String) : Bool :=
  decide (cfg.mode = .append) && !cfg.force && journal.hasFile name

/-- What a worker's look for a line of a file finds: a row from before the run, or one that the
    run has written when the look comes late enough. -/
def workerFinds (input : PushInput) (journal : RunJournal) (job : PrepareJob) (l : StagedLine) :
    Bool :=
  input.journal.hasMessage job.name l.guid ||
    (input.out.looksLate job.idx l.fileLine && journal.hasMessage job.name l.guid)

def prepareFile (input : PushInput) (p : ImportPipeline) (job : PrepareJob) : PrepareOutcome :=
  match input.out.staged job.idx with
  | .error error => .failed error
  | .ok file =>
    match buildImportChunks input.cfg.force p.batchSize (workerFinds input p.journal job) job.name
      file with
    | .error error => .failed error
    | .ok chunks => .prepared ⟨file.source, chunks, file.attachments⟩

section
variable (input : PushInput)

/-- One more worker result arrives. -/
def waitOne (queue : PrepareQueue) : PushM PrepareQueue := do
  let p ← Op.get
  Op.modify (fun p => { p with arrivals := p.arrivals + 1 })
  match input.out.arrival p.arrivals with
  | none => Op.fail .prepareWorkerDisconnected
  | some n =>
    let i := n % queue.inflight.length
    match queue.inflight[i]? with
    | none => Op.fail .stuck
    | some job =>
      pure { queue with
        inflight := queue.inflight.eraseIdx i
        ready := queue.ready ++ [⟨job.idx, job.name, prepareFile input p job⟩] }

def submitFile (idx : Nat) (name : String) (queue : PrepareQueue) : PushM PrepareQueue := do
  let p ← Op.get
  if alreadyImported input.cfg p.journal name then
    Op.modify (fun p => p.setResult idx (.skipped name))
    pure (queue.markSkipped idx name)
  else pure (queue.submit idx name)

/-! The import loop. -/

structure Drive where
  queue : PrepareQueue
  nextSubmit : Nat
  nextConsume : Nat
  deriving DecidableEq, Repr

/-- The files not submitted yet, for as long as there is room. -/
def submitFiles : List String → Drive → PushM Drive
  | [], d => pure d
  | name :: names, d =>
    if d.queue.hasCapacity then do
      let queue ← submitFile input d.nextSubmit name d.queue
      submitFiles names { d with queue, nextSubmit := d.nextSubmit + 1 }
    else pure d

/-- The results that are ready, in file order; `none` when the run must stop. Each takes one
    result out, so as many turns as there are results are enough. -/
def consumeReady : Nat → Drive → PushM (Option Drive)
  | 0, d => pure (some d)
  | n + 1, d =>
    match d.queue.take d.nextConsume with
    | none => pure (some d)
    | some (result, queue) => do
      if ← consumeResult input.out result then
        consumeReady n { d with queue, nextConsume := d.nextConsume + 1 }
      else pure none

inductive DriveStep where
  | done (aborted : Bool)
  | next (d : Drive)
  deriving DecidableEq, Repr

def consumeTurn (d : Drive) : PushM DriveStep := do
  match ← consumeReady input d.queue.ready.length d with
  | some d => pure (.next d)
  | none => pure (.done true)

/-- One turn of the loop. -/
def driveOnce (d : Drive) : PushM DriveStep := do
  if ← isCancelled input.out then pure (.done true)
  else
    let p ← Op.get
    let go ← if p.pendingIsWorthOverlapping then flushAndContinue input.out false else pure true
    if !go then pure (.done true)
    else
      let d ← submitFiles input (input.names.drop d.nextSubmit) d
      if d.queue.isReady d.nextConsume then consumeTurn input d
      else if d.queue.isIdle && decide (input.names.length ≤ d.nextSubmit) then pure (.done false)
      else
        let queue ← waitOne input d.queue
        consumeTurn input { d with queue }

/-- The loop, for at most the given number of turns. -/
def drive : Nat → Drive → PushM Bool
  | 0, _ => Op.fail .stuck
  | turns + 1, d =>
    if d.nextConsume < input.names.length then do
      match ← driveOnce input d with
      | .done aborted => pure aborted
      | .next d => drive turns d
    else pure false

/-- The end of a run: what is pending is sent and what is in flight waited for. -/
def settle (aborted : Bool) : PushM Bool := do
  let stopped ← if aborted then pure true else isCancelled input.out
  let aborted ← if stopped then pure true
    else do
      let go ← flushAndContinue input.out true
      pure !go
  if aborted then
    (joinInflight input.out).ignore
    pure true
  else pure false

end

/-! The report. -/

/-- A row for every file, `cancelled` where there was none. -/
def recordCancelled (names : List String) (p : ImportPipeline) : ImportPipeline :=
  { p with
    results := fun idx => names[idx]?.map (fun name =>
      match p.results idx, p.trackers idx with
      | some row, _ => row
      | none, some t => ⟨t.name, .cancelled, none, t.successfulMessages, t.attachments⟩
      | none, none => .cancelled name) }

def ImportPipeline.intoResults (p : ImportPipeline) (total : Nat) : List FileResult :=
  (List.range total).filterMap p.results

def countStatus (results : List FileResult) (status : FileStatus) : Nat :=
  results.countP (fun row => decide (row.status = status))

structure PushReport where
  ok : Bool
  cancelled : Bool
  mode : ImportMode
  conversationsTotal : Nat
  conversationsOk : Nat
  conversationsFailed : Nat
  conversationsSkipped : Nat
  conversationsCancelled : Nat
  messagesAttempted : Nat
  messagesInserted : Nat
  messagesDeduped : Nat
  messagesFailed : Nat
  results : List FileResult
  deriving DecidableEq, Repr

def ImportPipeline.report (p : ImportPipeline) (input : PushInput) (aborted cancelled : Bool) :
    PushReport :=
  let results := p.intoResults input.names.length
  { ok := decide (countStatus results .failed = 0) && !aborted
    cancelled
    mode := input.cfg.mode
    conversationsTotal := input.names.length
    conversationsOk := countStatus results .ok
    conversationsFailed := countStatus results .failed
    conversationsSkipped := countStatus results .skipped
    conversationsCancelled := countStatus results .cancelled
    messagesAttempted := p.accounting.attempted
    messagesInserted := p.accounting.inserted
    messagesDeduped := p.accounting.deduped
    messagesFailed := p.accounting.failed
    results }

/-- More turns than the loop can take. -/
def PushInput.turns (input : PushInput) : Nat := 2 * input.names.length + 1

def run (input : PushInput) : PushM PushReport := do
  if input.names = [] then Op.fail .noFiles
  else
    let aborted ← drive input input.turns ⟨.start (max input.cfg.prepareAhead 1), 0, 0⟩
    let aborted ← settle input aborted
    Op.modify (recordCancelled input.names)
    let cancelled ← isCancelled input.out
    let p ← Op.get
    let report := p.report input aborted cancelled
    -- The journal is rewritten after a clean run only, so that a failed one can be taken up.
    if report.conversationsFailed = 0 ∧ aborted = false ∧ input.out.compacted then
      Op.modify (fun p => { p with journal := p.journal.compact })
    pure report

/-- A run from the journal file it finds. -/
def pushRun (input : PushInput) : Except PushError PushReport × ImportPipeline :=
  run input (.new (max input.cfg.batchSize 1) input.journal)

end MessageCrate

import Mathlib.Logic.Function.Basic

/- The build of the Demo Account (`server_api.rs`, `reset_demo.rs`,
   `db/demo_account_build.rs`, `session_api.rs`).

   Where the Demo Account stands is told from three places: the build in the server's memory,
   the record of an unfinished build in the database, and the account's rows. The request that
   marks a build, the task that runs it, logins, and the server's own start and stop change
   them in separate steps. Each transaction is one step, and so is each change of the memory.

   Correspondence (Rust ↔ Lean):
     `DemoBuildState`, its task            ↔ `State.build`, `State.task`
     the row of `demo_account_build`       ↔ `Database.unfinished`
     `replace_demo_account`                ↔ `put`, `endSessions` or `endSessionsFail`, `spawn`
     `build_demo_account`                  ↔ the phases `begin` .. `built`
     `remove_failed_demo_build`, `remove_part_built_demo_account`
                                           ↔ the phases `checkRecord`, `removing`
     what `DemoBuild::run` does at the end ↔ `settle`
     `create_session` as demo              ↔ `login`, `check`, `openSession`
     `recover_stopped_demo_build`          ↔ the mode `recovering`
     `DemoBuild::stop`                     ↔ `stop`, `abort`, `exit`

   An account's rows are the pieces that builds wrote there. An answer reads the memory and
   the database at one moment. A request or a login may be dropped between any two of its
   steps.

   Left out: passwords, rate limits and the texts of answers other than a failed build's, and
   the accounts' other rows. -/
namespace MessageCrate.Demo

inductive DemoDataSize where
  | medium
  | large
  deriving DecidableEq, Repr

/-- The build in this server's memory. -/
inductive DemoBuildState where
  | idle
  | building (size : DemoDataSize)
  | failed (error : String)
  deriving DecidableEq, Repr

inductive DemoAccountStatus where
  | absent
  | building
  | ready
  | failed
  deriving DecidableEq, Repr

structure DemoAccount where
  status : DemoAccountStatus
  size : Option DemoDataSize
  error : Option String
  deriving DecidableEq, Repr

/-- `STOPPED_DURING_BUILD`. -/
def stoppedDuringBuild : String := "the server stopped before the Demo Account build finished"

/-- Something a build wrote. -/
structure Piece where
  build : Nat
  n : Nat
  deriving DecidableEq, Repr

/-! The database. -/

structure Database where
  /-- The Demo Account's rows, when it exists. -/
  account : Option (List Piece)
  /-- The Demo Account's Session. -/
  session : Option Nat
  /-- The record of a build that has not finished. -/
  unfinished : Bool
  deriving DecidableEq, Repr

namespace Database
variable (db : Database)

def begin : Database := { db with unfinished := true }

/-- `demo_account_build::end`. -/
def finish : Database := { db with unfinished := false }

/-- `delete_account_messages_batch`. -/
def deleteBatch (piece : Piece) : Database :=
  { db with account := db.account.map (fun rows => rows.filter (fun p => p ≠ piece)) }

/-- The account's Sessions go with its row. -/
def deleteAccount : Database := { db with account := none, session := none }

def ensureAccountRow : Database := { db with account := some (db.account.getD []) }

def write (piece : Piece) : Database :=
  { db with account := db.account.map (fun rows => rows ++ [piece]) }

end Database

/-! The task that runs a build. -/

/-- Why what a build wrote is removed. -/
inductive Cause where
  | failed (error : String)
  | panicked (error : String)
  | stopped
  deriving DecidableEq, Repr

/-- What the build's state says then. -/
def Cause.error : Cause → String
  | .failed error => error
  | .panicked error => "the Demo Account build stopped unexpectedly: " ++ error
  | .stopped => stoppedDuringBuild

/-- Where a removal is. -/
inductive Removal where
  | wipe
  | removeDir
  | endRecord
  deriving DecidableEq, Repr

inductive Phase where
  | begin
  | generate
  | beginAgain
  | wipe
  | removeDir
  | ensureAccountRow
  | seed
  | importSources
  | addressBook
  | dedupe
  | finish
  | built
  | checkRecord
  | removing (cause : Cause) (removal : Removal)
  | failed (error : String)
  deriving DecidableEq, Repr

structure Task where
  phase : Phase
  build : Nat
  /-- What this build has written. -/
  wrote : List Piece
  deriving DecidableEq, Repr

/-- The phase is one of the build's own steps. -/
def Phase.builds : Phase → Bool
  | .begin | .generate | .beginAgain | .wipe | .removeDir | .ensureAccountRow | .seed
  | .importSources | .addressBook | .dedupe | .finish => true
  | _ => false

/-- The phase runs in the task that a panic ends and a stop aborts. -/
def Phase.inner : Phase → Bool
  | .removing (.failed _) _ => true
  | phase => phase.builds

/-- The phase deletes messages in batches. -/
def Phase.wipes : Phase → Bool
  | .wipe | .removing _ .wipe => true
  | _ => false

/-- The phase writes rows of the account. -/
def Phase.writes : Phase → Bool
  | .seed | .importSources | .addressBook | .dedupe => true
  | _ => false

/-- The removal's next step; it ends with the record, which a stop keeps. -/
def Removal.next (cause : Cause) (db : Database) : Removal → Database × Phase
  | .wipe => (db.deleteAccount, .removing cause .removeDir)
  | .removeDir =>
    match cause with
    | .stopped => (db, .failed cause.error)
    | _ => (db, .removing cause .endRecord)
  | .endRecord => (db.finish, .failed cause.error)

/-- The database and the phase after the step the build is at; `none` when the build has
ended. -/
def Phase.next (db : Database) : Phase → Option (Database × Phase)
  | .begin => some (db.begin, .generate)
  | .generate => some (db, .beginAgain)
  | .beginAgain => some (db.begin, .wipe)
  | .wipe => some (db.deleteAccount, .removeDir)
  | .removeDir => some (db, .ensureAccountRow)
  | .ensureAccountRow => some (db.ensureAccountRow, .seed)
  | .seed => some (db, .importSources)
  | .importSources => some (db, .addressBook)
  | .addressBook => some (db, .dedupe)
  | .dedupe => some (db, .finish)
  | .finish => some (db.finish, .built)
  | .checkRecord =>
    some (db, if db.unfinished then .removing .stopped .wipe else .failed stoppedDuringBuild)
  | .removing cause removal => some (removal.next cause db)
  | .built | .failed _ => none

/-- The phase after the step fails with the error. -/
def Phase.fail (error : String) (phase : Phase) : Phase :=
  match phase with
  | .checkRecord => .failed stoppedDuringBuild
  | .removing cause _ => .failed cause.error
  | _ => if phase.builds then .removing (.failed error) .wipe else phase

/-! The server. -/

inductive Mode where
  | down
  | recovering (removal : Removal)
  | up
  | stopping
  deriving DecidableEq, Repr

/-- The request that marked a build: before and after it has ended the Sessions. -/
inductive RequestPhase where
  | marked
  | ended
  deriving DecidableEq, Repr

inductive LoginPhase where
  | found
  | checked
  deriving DecidableEq, Repr

structure State where
  db : Database
  mode : Mode
  build : DemoBuildState
  request : Option RequestPhase
  task : Option Task
  logins : Nat → Option LoginPhase
  /-- How many Sessions of the Demo Account have been opened, and builds run. -/
  opened : Nat
  builds : Nat
  /-- What each build that finished wrote. -/
  finished : List (List Piece)

namespace State
variable (s : State)

def isBuilding : Bool :=
  match s.build with
  | .building _ => true
  | _ => false

/-- `demo_account_on_conn`. -/
def demoAccount : DemoAccount :=
  match s.build with
  | .building size => ⟨.building, some size, none⟩
  | .failed error =>
    if s.db.account.isSome then ⟨.ready, none, none⟩ else ⟨.failed, none, some error⟩
  | .idle => ⟨if s.db.account.isSome then .ready else .absent, none, none⟩

/-- What `GET /v1/server` says of the Demo Account. -/
def offersDemoAccount : Bool := !s.isBuilding && s.db.account.isSome

/-- The process is gone, and its memory. -/
def halted : State :=
  { s with mode := .down, build := .idle, request := none, task := none, logins := fun _ => none }

end State

inductive Event where
  | start
  | recover
  | recoverBatch (piece : Piece)
  | recoverFail
  | put (size : DemoDataSize)
  | endSessions
  | endSessionsFail
  | spawn
  | drop
  | login (id : Nat)
  | check (id : Nat)
  | openSession (id : Nat)
  | leave (id : Nat)
  | logout
  | next
  | write
  | batch (piece : Piece)
  | fail (error : String)
  | panic (error : String)
  | settle
  | stop
  | abort
  | exit
  | crash
  deriving DecidableEq, Repr

namespace State
variable (s : State)

/-- The server opens the database, and removes what a build left there before it serves. -/
def stepServer : Event → State
  | .start =>
    if s.mode = .down then
      if s.db.unfinished then { s with mode := .recovering .wipe } else { s with mode := .up }
    else s
  | .recover =>
    match s.mode with
    | .recovering .wipe => { s with db := s.db.deleteAccount, mode := .recovering .removeDir }
    | .recovering .removeDir => { s with mode := .recovering .endRecord }
    | .recovering .endRecord =>
      { s with db := s.db.finish, mode := .up, build := .failed stoppedDuringBuild }
    | _ => s
  | .recoverBatch piece =>
    if s.mode = .recovering .wipe then { s with db := s.db.deleteBatch piece } else s
  | .recoverFail =>
    match s.mode with
    | .recovering _ => s.halted
    | _ => s
  | .stop =>
    if s.mode = .up ∧ s.request = none then
      { s with mode := .stopping, logins := fun _ => none }
    else s
  | .exit => if s.mode = .stopping ∧ s.task = none then s.halted else s
  | .crash => s.halted
  | _ => s

/-- The owner's request, and logins. -/
def stepRequest : Event → State
  | .put size =>
    if s.mode = .up ∧ s.isBuilding = false then
      { s with build := .building size, request := some .marked }
    else s
  | .endSessions =>
    if s.request = some .marked then
      { s with db := { s.db with session := none }, request := some .ended }
    else s
  | .endSessionsFail =>
    if s.request = some .marked then { s with build := .idle, request := none } else s
  | .spawn =>
    if s.request = some .ended then
      { s with request := none, task := some ⟨.begin, s.builds, []⟩, builds := s.builds + 1 }
    else s
  | .drop => { s with request := none }
  | .login id =>
    if s.mode = .up ∧ s.db.account.isSome then
      { s with logins := Function.update s.logins id (some .found) }
    else s
  | .check id =>
    if s.logins id = some .found then
      { s with
        logins := Function.update s.logins id (if s.isBuilding then none else some .checked) }
    else s
  | .openSession id =>
    if s.logins id = some .checked then
      { s with
        db := if s.db.account.isSome then { s.db with session := some s.opened } else s.db
        opened := s.opened + 1
        logins := Function.update s.logins id none }
    else s
  | .leave id => { s with logins := Function.update s.logins id none }
  | .logout => { s with db := { s.db with session := none } }
  | _ => s

/-- The build's task. -/
def stepTask (task : Task) : Event → State
  | .next =>
    match task.phase.next s.db with
    | none => s
    | some (db, phase) =>
      { s with
        db := db
        task := some { task with phase := phase }
        finished := if task.phase = .finish then task.wrote :: s.finished else s.finished }
  | .write =>
    if task.phase.writes then
      { s with
        db := s.db.write ⟨task.build, task.wrote.length⟩
        task := some { task with wrote := task.wrote ++ [⟨task.build, task.wrote.length⟩] } }
    else s
  | .batch piece => if task.phase.wipes then { s with db := s.db.deleteBatch piece } else s
  | .fail error => { s with task := some { task with phase := task.phase.fail error } }
  | .panic error =>
    if task.phase.inner then
      { s with task := some { task with phase := .removing (.panicked error) .wipe } }
    else s
  | .settle =>
    match task.phase with
    | .built => { s with task := none, build := .idle }
    | .failed error => { s with task := none, build := .failed error }
    | _ => s
  | .abort =>
    if s.mode = .stopping ∧ task.phase.inner then
      { s with task := some { task with phase := .checkRecord } }
    else s
  | _ => s

def stepRunning (event : Event) : State :=
  match s.task with
  | none => s
  | some task => s.stepTask task event

def step (event : Event) : State :=
  match event with
  | .start | .recover | .recoverBatch _ | .recoverFail | .stop | .exit | .crash =>
    s.stepServer event
  | .put _ | .endSessions | .endSessionsFail | .spawn | .drop | .login _ | .check _
  | .openSession _ | .leave _ | .logout => s.stepRequest event
  | .next | .write | .batch _ | .fail _ | .panic _ | .settle | .abort => s.stepRunning event

end State

/-- The server is down, and the database holds a whole Demo Account or none. -/
def initial (account : Option (List Piece)) : State where
  db := ⟨account, none, false⟩
  mode := .down
  build := .idle
  request := none
  task := none
  logins _ := none
  opened := 0
  builds := 0
  finished := account.toList

/-- The state after the events. -/
def run (account : Option (List Piece)) (events : List Event) : State :=
  events.foldl State.step (initial account)

end MessageCrate.Demo

import MessageCrate.Lib.Runs
import MessageCrate.Lib.Text

/- The record of staging folders and the folders on disk (`src-tauri/src/staging_folders.rs`).

   Any number of app processes make and delete staging folders. The folders they made are
   listed in one file, which a process reads under a shared lock and changes alone: it reads
   the file, writes the new record to a file of its own and renames that over it. The lock is
   not held while a folder is made or removed. One `act` is what one call does between two
   points where another may run; a call may stop with an error at any of them, and a process
   crash at any.

   Correspondence (Rust ↔ Lean):
     `StagingFolders::change`                 ↔ the phases `lock` .. `rename`
     `create`                                 ↔ `readRoot` .. `resolve`, then a `push`
     `folder`, `delete`                       ↔ `find` .. `rmdir`, then a `forget`
     `set_root`                               ↔ a change `setRoot`
     a call that stops, a process that crashes ↔ `stop`, `crash`
     a command that `folder` let in            ↔ `fill`

   A path is its components, in canonical form but for the one a caller names. What is on disk
   is a list of nodes, each with the `create` that made it, if one did. A remover takes the
   nodes below a folder one at a time in any order, as `remove_dir_all` does.

   Left out: the texts of errors. -/
namespace MessageCrate.Staged
open Text

/-! The disk. -/

abbrev Path := List String

inductive Kind where
  | dir
  | file
  deriving DecidableEq, Repr

/-- Something on disk, and which `create` made it. -/
structure Node where
  path : Path
  kind : Kind
  making : Option Nat
  deriving DecidableEq, Repr

/-- `.message-crate-export`. -/
def exportSentinel : String := ".message-crate-export"

/-- The path is strictly inside the folder. -/
def Inside (folder path : Path) : Prop := folder <+: path ∧ path ≠ folder

instance (folder path : Path) : Decidable (Inside folder path) :=
  inferInstanceAs (Decidable (_ ∧ _))

/-- What the app finds on its machine: how the paths it is given resolve, which device a folder
is on, and what was on disk before. -/
structure Machine where
  /-- `{home}/message-crate`, when there is a home folder. -/
  defaultRoot : Option String
  /-- `resolve_staging_root`. -/
  resolveRoot : String → Option Path
  /-- `absolute`. -/
  absolute : String → Option Path
  canonicalize : Path → Path
  /-- `==` of two paths. -/
  samePath : String → String → Bool
  deviceOf : Path → Option Nat
  disk : List Node
  /-- A folder made under a resolved root is in canonical form. -/
  canonicalize_made : ∀ raw root name, resolveRoot raw = some root →
    canonicalize (root ++ [name]) = root ++ [name]
  /-- A folder that something is in is there. -/
  disk_closed : ∀ n ∈ disk, ∀ a, a <+: n.path → ∃ m ∈ disk, m.path = a
  disk_foreign : ∀ n ∈ disk, n.making = none

/-! The record. -/

structure MadeFolder where
  path : Path
  device : Option Nat
  deriving DecidableEq, Repr

structure Record where
  root : Option String
  folders : List MadeFolder
  deriving DecidableEq, Repr

/-- What a file that is written through a temporary one may hold. -/
inductive Content where
  | torn
  | whole (record : Record)
  deriving DecidableEq, Repr

/-- What a call makes of the record. -/
inductive Change where
  | setRoot (root : Option String)
  | push (folder : Path) (making : Nat)
  | forget (folder : Path)
  deriving DecidableEq, Repr

/-- The record changed, the folder being on `device`. -/
def Change.apply (device : Option Nat) (record : Record) : Change → Record
  | .setRoot root => { record with root := root }
  | .push folder _ => { record with folders := record.folders ++ [⟨folder, device⟩] }
  | .forget folder => { record with folders := record.folders.filter (fun m => m.path ≠ folder) }

/-! Calls. -/

/-- Where a call is. -/
inductive Phase where
  | lock (change : Change)
  | read (change : Change)
  | write (change : Change) (record : Record)
  | finishWrite (change : Change) (record : Record)
  | rename (change : Change) (record : Record)
  | readRoot (base : String)
  | makeRoot (root : Path) (base : String)
  | makeFolder (root : Path) (base : String) (n : Nat)
  | mark (folder : Path) (making : Nat)
  | resolve (folder : Path) (making : Nat)
  | find (dir : Path)
  | gone (dir : Path) (made : Option MadeFolder)
  | emptied (dir : Path) (made : Option MadeFolder)
  | removeEmptied (dir : Path)
  | canonicalize (dir : Path) (delete : Bool)
  | check (folder : Path) (delete : Bool)
  | sentinel (folder : Path) (delete : Bool)
  | removing (folder : Path)
  | unmark (folder : Path)
  | rmdir (folder : Path)

/-- A call under way: the process it runs in, and how many folders had been recorded when a
delete found its folder gone or removed it. -/
structure Call where
  pid : Nat
  phase : Phase
  since : Nat

structure State where
  disk : List Node
  /-- `staging.json`, when there is one. -/
  file : Option Content
  /-- Each process's temporary file. -/
  temp : Nat → Option Content
  /-- The call that holds the lock alone. -/
  lock : Option Nat
  calls : Nat → Option Call
  /-- The calls there have been. -/
  started : List Nat
  /-- How many folders have been made. -/
  makings : Nat
  /-- The paths `create` has made a folder at. -/
  made : List Path
  /-- The folders whose `create` recorded them, which is its last step, the last first. -/
  recorded : List (Path × Nat)
  /-- The root stored last. -/
  stored : Option String
  /-- What deletes removed. -/
  removed : List Path

namespace State
variable (s : State)

def OnDisk (path : Path) : Prop := ∃ n ∈ s.disk, n.path = path

def IsDir (path : Path) : Prop := ∃ n ∈ s.disk, n.path = path ∧ n.kind = .dir

def IsFile (path : Path) : Prop := ∃ n ∈ s.disk, n.path = path ∧ n.kind = .file

/-- Nothing is in the folder. -/
def Empty (folder : Path) : Prop := ∀ n ∈ s.disk, ¬ Inside folder n.path

/-- The folder still holds the export sentinel. -/
def Marked (folder : Path) : Prop := s.IsFile (folder ++ [exportSentinel])

instance (path : Path) : Decidable (s.OnDisk path) := inferInstanceAs (Decidable (∃ n ∈ _, _))
instance (path : Path) : Decidable (s.IsDir path) := inferInstanceAs (Decidable (∃ n ∈ _, _))
instance (path : Path) : Decidable (s.IsFile path) := inferInstanceAs (Decidable (∃ n ∈ _, _))
instance (path : Path) : Decidable (s.Empty path) := inferInstanceAs (Decidable (∀ n ∈ _, _))
instance (path : Path) : Decidable (s.Marked path) := inferInstanceAs (Decidable (s.IsFile _))

/-- The record as the file holds it; `none` when the file cannot be parsed. -/
def readLocked : Option Record :=
  match s.file with
  | none => some ⟨none, []⟩
  | some (.whole record) => some record
  | some .torn => none

/-- `read`: the record, when no call holds the lock alone. -/
def read : Option Record := if s.lock = none then s.readLocked else none

def remove (path : Path) : State :=
  { s with disk := s.disk.filter (fun n => n.path ≠ path), removed := path :: s.removed }

/-- The folders of a path that are not there yet. -/
def createDirAll (path : Path) : State :=
  { s with
    disk := s.disk ++ ((path.inits.filter (fun a => ¬ s.OnDisk a)).map
      (fun a => ⟨a, .dir, none⟩)) }

/-- Whether a path is known to be gone: not found, in a folder that is still there, on the
device it was made on. -/
def IsGone (m : Machine) (path : Path) (device : Option Nat) : Prop :=
  ¬ s.OnDisk (m.canonicalize path) ∧ path ≠ [] ∧ s.IsDir (m.canonicalize path.dropLast) ∧
    (device = none ∨ m.deviceOf (m.canonicalize path.dropLast) = device)

instance (m : Machine) (path : Path) (device : Option Nat) : Decidable (s.IsGone m path device) :=
  inferInstanceAs (Decidable (_ ∧ _))

/-- The call's next phase, or its end. -/
def goto (id : Nat) (call : Call) (phase : Phase) : State :=
  { s with calls := Function.update s.calls id (some { call with phase := phase }) }

def finish (id : Nat) : State := { s with calls := Function.update s.calls id none }

/-- The last step of a delete before it forgets the folder. -/
def toForget (id : Nat) (call : Call) (folder : Path) : State :=
  { s with
    calls := Function.update s.calls id
      (some { call with phase := .lock (.forget folder), since := s.recorded.length }) }

/-- The name `create` tries for the `n`th time. -/
def folderName (base : String) (n : Nat) : String :=
  if n = 1 then base else base ++ "-" ++ toString n

/-- What has come to pass when the record is changed. -/
def committed (change : Change) : State :=
  match change with
  | .setRoot root => { s with stored := root }
  | .push folder making => { s with recorded := (folder, making) :: s.recorded }
  | .forget _ => s

/-- The change of the record: one phase after another while the lock is held. -/
def actChange (m : Machine) (id : Nat) (call : Call) : Phase → Option State
  | .lock change => if s.lock = none then some { s.goto id call (.read change) with lock := some id }
    else none
  | .read change => do
    let record ← s.readLocked
    let device : Path → Option Nat := fun folder => if s.IsDir folder then m.deviceOf folder else none
    let record := match change with
      | .push folder _ => change.apply (device folder) record
      | _ => change.apply none record
    return s.goto id call (.write change record)
  | .write change record =>
    some { s.goto id call (.finishWrite change record) with
      temp := Function.update s.temp call.pid (some .torn) }
  | .finishWrite change record =>
    some { s.goto id call (.rename change record) with
      temp := Function.update s.temp call.pid (some (.whole record)) }
  | .rename change _ =>
    some { (s.finish id).committed change with
      file := s.temp call.pid
      temp := Function.update s.temp call.pid none
      lock := none }
  | _ => none

/-- Making a folder. -/
def actCreate (m : Machine) (id : Nat) (call : Call) : Phase → Option State
  | .readRoot base => do
    let record ← s.read
    let raw ← record.root.or m.defaultRoot
    let root ← m.resolveRoot raw
    return s.goto id call (.makeRoot root base)
  | .makeRoot root base => some ((s.createDirAll root).goto id call (.makeFolder root base 1))
  | .makeFolder root base n =>
    let folder := root ++ [folderName base n]
    if s.OnDisk folder then some (s.goto id call (.makeFolder root base (n + 1)))
    else if s.IsDir root then
      some { s.goto id call (.mark folder s.makings) with
        disk := s.disk ++ [⟨folder, .dir, some s.makings⟩]
        makings := s.makings + 1
        made := folder :: s.made }
    else none
  | .mark folder making =>
    if s.IsDir folder then
      some { s.goto id call (.resolve folder making) with
        disk := s.disk.filter (fun n => n.path ≠ folder ++ [exportSentinel]) ++
          [⟨folder ++ [exportSentinel], .file, none⟩] }
    else none
  | .resolve folder making =>
    if s.OnDisk folder then
      some (s.goto id call (.lock (.push (m.canonicalize folder) making)))
    else none
  | _ => none

/-- Looking a folder up, and deleting it. `pick` is what a remover takes next. -/
def actDelete (m : Machine) (id : Nat) (call : Call) (pick : Path) : Phase → Option State
  | .find dir => do
    let record ← s.read
    return s.goto id call (.gone dir (record.folders.find? (fun made => made.path = dir)))
  | .gone dir made =>
    if s.IsGone m dir (made.bind (fun made => made.device)) then some (s.toForget id call dir)
    else some (s.goto id call (.emptied dir made))
  | .emptied dir made =>
    if made.isSome ∧ s.IsDir (m.canonicalize dir) ∧ s.Empty (m.canonicalize dir) then
      some (s.goto id call (.removeEmptied dir))
    else some (s.goto id call (.canonicalize dir true))
  | .removeEmptied dir =>
    if s.IsDir (m.canonicalize dir) ∧ s.Empty (m.canonicalize dir) then
      some ((s.remove (m.canonicalize dir)).toForget id call dir)
    else none
  | .canonicalize dir delete =>
    if s.OnDisk (m.canonicalize dir) then some (s.goto id call (.check (m.canonicalize dir) delete))
    else none
  | .check folder delete => do
    let record ← s.read
    if record.folders.any (fun made => made.path = folder) then
      some (s.goto id call (.sentinel folder delete))
    else none
  | .sentinel folder delete =>
    if s.Marked folder then
      some (if delete then s.goto id call (.removing folder) else s.finish id)
    else none
  | .removing folder =>
    if s.OnDisk pick ∧ Inside folder pick ∧ pick ≠ folder ++ [exportSentinel] ∧ s.Empty pick then
      some (s.remove pick)
    else if ∀ n ∈ s.disk, Inside folder n.path → n.path = folder ++ [exportSentinel] then
      some (s.goto id call (.unmark folder))
    else none
  | .unmark folder =>
    if s.Marked folder then
      some ((s.remove (folder ++ [exportSentinel])).goto id call (.rmdir folder))
    else none
  | .rmdir folder =>
    if s.IsDir folder ∧ s.Empty folder then some ((s.remove folder).toForget id call folder)
    else none
  | _ => none

end State

/-! What the app's window asks for. -/

inductive Input where
  | setRoot (root : String)
  | create (label timestamp : String)
  | folder (dir : String)
  | delete (dir : String)
  deriving DecidableEq, Repr

/-- The short name a staging folder carries for `label`. -/
def folderSlug (label : String) : Option String :=
  let valid := label ≠ "" ∧ label.utf8ByteSize ≤ 40 ∧
    label.toList.all (fun c => c.isLower || c.isDigit || c == '-')
  if valid then
    some (match label with
      | "imessage-ios" => "iphone-ios"
      | "imessage-macos" => "macos"
      | "imessage-jailbreak" => "iphone-jailbreak"
      | other => other)
  else none

/-- The first phase of the call, when it is not refused. -/
def Input.first (m : Machine) : Input → Option Phase
  | .setRoot raw =>
    let trimmed := trim raw
    if trimmed = "" then some (.lock (.setRoot none))
    else if (m.resolveRoot trimmed).isNone then none
    else if m.defaultRoot.any (m.samePath trimmed) then some (.lock (.setRoot none))
    else some (.lock (.setRoot (some trimmed)))
  | .create label timestamp =>
    (folderSlug label).map (fun slug => .readRoot ("staging-" ++ slug ++ "-" ++ timestamp))
  | .folder dir => (m.absolute dir).map (fun dir => .canonicalize dir false)
  | .delete dir => (m.absolute dir).map .find

/-- What happens next. `pick` is what a remover takes, when the call is one. -/
inductive Event where
  | start (id pid : Nat) (input : Input)
  | act (id : Nat) (pick : Path)
  | stop (id : Nat)
  | crash (pid : Nat)
  | fill (folder : Path) (node : Node)
  deriving DecidableEq, Repr

/-- The call waits for the lock. -/
def Phase.waits : Phase → Bool
  | .lock _ | .readRoot _ | .find _ | .check _ _ => true
  | _ => false

/-- The call is a delete that is removing what is in the folder. -/
def Phase.removes (folder : Path) : Phase → Bool
  | .removing f | .unmark f | .rmdir f => f = folder
  | _ => false

namespace State
variable (m : Machine) (s : State)

/-- What a call does between two points where another may run; `none` when it ends in an
error. -/
def advance (id : Nat) (call : Call) (pick : Path) : Option State :=
  match call.phase with
  | .lock _ | .read _ | .write _ _ | .finishWrite _ _ | .rename _ _ =>
    s.actChange m id call call.phase
  | .readRoot _ | .makeRoot _ _ | .makeFolder _ _ _ | .mark _ _ | .resolve _ _ =>
    s.actCreate m id call call.phase
  | _ => s.actDelete m id call pick call.phase

/-- The call ends, and lets go of the lock. -/
def stopped (id : Nat) : State :=
  { s.finish id with lock := s.lock.filter (fun holder => holder ≠ id) }

/-- The calls of a process go, and the lock with the one that held it. -/
def crashed (pid : Nat) : State :=
  { s with
    calls := fun id => (s.calls id).filter (fun call => call.pid ≠ pid)
    lock := s.lock.filter (fun id => (s.calls id).all (fun call => call.pid ≠ pid)) }

/-- A command that `folder` lets in may write into the folder: nobody else does, and not while
it is deleted. -/
def MayFill (folder : Path) (node : Node) : Prop :=
  (∃ record, s.readLocked = some record ∧ ∃ made ∈ record.folders, made.path = folder) ∧
    s.Marked folder ∧ Inside folder node.path ∧ ¬ s.OnDisk node.path ∧
    s.IsDir node.path.dropLast ∧ node.making = none ∧
    ∀ id ∈ s.started, ∀ call, s.calls id = some call → call.phase.removes folder = false

instance (folder : Path) (node : Node) : Decidable (s.MayFill folder node) :=
  have : Decidable (∃ record, s.readLocked = some record ∧
      ∃ made ∈ record.folders, made.path = folder) :=
    match h : s.readLocked with
    | none => .isFalse (by simp)
    | some record => decidable_of_iff (∃ made ∈ record.folders, made.path = folder) (by simp)
  have : Decidable (∀ id ∈ s.started, ∀ call, s.calls id = some call →
      call.phase.removes folder = false) :=
    decidable_of_iff (∀ id ∈ s.started, (s.calls id).all (fun call => !call.phase.removes folder))
      (by
        refine forall₂_congr fun id _ => ?_
        cases s.calls id <;> simp)
  inferInstanceAs (Decidable (_ ∧ _))

def step : Event → State
  | .start id pid input =>
    if id ∈ s.started then s
    else match input.first m with
      | none => { s with started := id :: s.started }
      | some phase =>
        { s with
          calls := Function.update s.calls id (some ⟨pid, phase, 0⟩)
          started := id :: s.started }
  | .act id pick =>
    match s.calls id with
    | none => s
    | some call =>
      if call.phase.waits = true ∧ s.lock ≠ none then s
      else (s.advance m id call pick).getD (s.stopped id)
  | .stop id => s.stopped id
  | .crash pid => s.crashed pid
  | .fill folder node =>
    if s.MayFill folder node then { s with disk := s.disk ++ [node] } else s

end State

/-- No record and no folder made. -/
def initial (m : Machine) : State where
  disk := m.disk
  file := none
  temp _ := none
  lock := none
  calls _ := none
  started := []
  makings := 0
  made := []
  recorded := []
  stored := none
  removed := []

/-- The state after the events. -/
def run (m : Machine) (events : List Event) : State := events.foldl (State.step m) (initial m)

end MessageCrate.Staged

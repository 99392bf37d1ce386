import MessageCrate.Lib.Runs
import MessageCrate.Push.Once

/- Pushes of one folder to one account, one after another.

   Each run finds the journal the last one left and may be stopped between any two things it
   does. Its workers upload a file's attachments before its messages are cut into requests,
   each fingerprint by one worker at a time, and write it to the journal once the server has
   it. The server takes a posted batch at some moment of the run (which lasts until nothing of
   it is under way any more), whatever the client learns of it: it stores the messages it does
   not hold, puts their attachments beside them, and the first batch with messages of a
   `replace` run takes away what the account held of the run's source. When no run is under
   way it may remove the files that no attachment names.

   Correspondence (Rust ↔ Lean), `crates/libs/push/src/prepare.rs` and the server's
   `asset_store.rs`, `imports_api/staging.rs`, `db/staging.rs`:
     `DigestResolver::resolve`                  ↔ `ExportFolder.Resolves`
     `scan_one_attachment`                      ↔ `ExportFolder.scanOneAttachment`
     `SharedJournal::claim_asset`, the claims   ↔ the steps `claim`, `onServer`, `gaveUp`
     `upload_claimed`, `asset_uploaded`         ↔ the step `uploaded`
     `store_claimed_or_path`, `attachment_row`  ↔ `stagedAttachment`
     `promote_attachments`                      ↔ `mergeAttachments`
     `sweep_unreferenced`                       ↔ the step `sweep`
   Left out: attachments without a path, which have no bytes; sizes, types and the reasons why
   a file is missing; Previews; runs that skip attachments.

   `RunTold` is what the journal of a run says of what the server keeps, whatever is meant by
   that: every step keeps it. -/
namespace MessageCrate
open Ops Runs

/-! The folder. -/

/-- An attachment of a line, with what the line states of the file. -/
structure FolderAttachment where
  path : String
  originalName : Option String
  isSticker : Bool
  digest : Option String
  size : Option Nat
  deriving DecidableEq, Repr

structure DiskFile where
  size : Nat
  sha256 : String
  deriving DecidableEq, Repr

/-- The conversation files of a folder, by their labels, and the resume guids of their lines.
    `stored` is the guid under which the server keeps a line; a reaction row is not kept.
    Lines of one file with one guid share their attachments. `disk` is what there is at an
    attachment's path. -/
structure ExportFolder where
  names : List String
  noNul : ∀ name ∈ names, '\x00' ∉ name.toList
  lines : Nat → List String
  stored : JournalMessage → Option String
  attachments : JournalMessage → List FolderAttachment
  disk : String → Option DiskFile

/-- The settings for attachments. -/
structure AssetConfig where
  maxBytes : Nat
  trustExport : Bool
  verifyDigests : Bool
  deriving DecidableEq, Repr

namespace ExportFolder

/-- A message of a conversation file. -/
def Has (folder : ExportFolder) (m : JournalMessage) : Prop :=
  ∃ idx : Nat, folder.names[idx]? = some m.file ∧ m.guid ∈ folder.lines idx

/-- What the skip sets tell a run not to send. -/
def Names (folder : ExportFolder) (state : JournalState) (m : JournalMessage) : Prop :=
  folder.Has m ∧ (m.key ∈ state.messages ∨ m.file ∈ state.files)

/-- The guids a batch makes the server keep. -/
def guids (folder : ExportFolder) (batch : ImportBatch) : List String :=
  batch.messages.filterMap (fun m => folder.stored m.journal)

/-- What a run reads of the folder, when it reads it. -/
def Reads (folder : ExportFolder) (out : Outside) : Prop :=
  ∀ idx file, out.staged idx = .ok file → file.lines.map StagedLine.guid = folder.lines idx

/-- The fingerprints a run may take the files at the paths to have: the file's own, or with
    `trust_export` one stated by a line with the file's size. The first line to name a path
    decides for the whole run. -/
def Resolves (folder : ExportFolder) (cfg : AssetConfig) (digests : String → String) : Prop :=
  ∀ path file, folder.disk path = some file →
    digests path = file.sha256 ∨
      (cfg.trustExport = true ∧ cfg.verifyDigests = false ∧
        ∃ m, ∃ att ∈ folder.attachments m,
          att.path = path ∧ att.digest = some (digests path) ∧ att.size = some file.size)

/-- The fingerprint an attachment is uploaded under; `none` when there is nothing to upload. -/
def scanOneAttachment (folder : ExportFolder) (cfg : AssetConfig) (digests : String → String)
    (att : FolderAttachment) : Option String :=
  match folder.disk att.path with
  | none => none
  | some file => if cfg.maxBytes < file.size then none else some (digests att.path)

end ExportFolder

/-! The server. -/

/-- A row for an attachment; `sha256` names the file, when there was one. -/
structure StoredAttachment where
  path : String
  originalName : Option String
  isSticker : Bool
  sha256 : Option String
  deriving DecidableEq, Repr

structure StoredMessage where
  guid : String
  source : String
  attachments : List StoredAttachment
  deriving DecidableEq, Repr

/-- The same attachment of one message. -/
def StoredAttachment.samePath (a b : StoredAttachment) : Bool :=
  decide (a.path = b.path ∧ a.originalName = b.originalName ∧ a.isSticker = b.isSticker)

/-- The staged row of an attachment: it names its file when the file is there. -/
def stagedAttachment (store : List String) (att : FolderAttachment) (digest : Option String) :
    StoredAttachment :=
  ⟨att.path, att.originalName, att.isSticker, digest.filter (fun d => store.contains d)⟩

/-- A row without a file takes the file of a staged row for it. -/
def StoredAttachment.fill (staged : List StoredAttachment) (a : StoredAttachment) :
    StoredAttachment :=
  if a.sha256 = none then
    match staged.find? (fun s => s.sha256.isSome && a.samePath s) with
    | some s => { a with sha256 := s.sha256 }
    | none => a
  else a

/-- The rows of a message after its staged rows have been promoted. -/
def mergeAttachments (staged rows : List StoredAttachment) : List StoredAttachment :=
  let rows := rows.map (.fill staged)
  rows ++ staged.filter (fun s => !rows.any (·.samePath s))

/-- A guid the server holds is not stored again. -/
def storeMessages (source : String) : List String → List StoredMessage → List StoredMessage
  | [], server => server
  | guid :: guids, server =>
    storeMessages source guids
      (if guid ∈ server.map StoredMessage.guid then server
      else server ++ [⟨guid, source, []⟩])

/-- Messages to store, each with its staged attachments. -/
abbrev StagedItems := List (String × List StoredAttachment)

def StagedItems.rowsOf (items : StagedItems) (guid : String) : List StoredAttachment :=
  (items.filter (fun item => decide (item.1 = guid))).flatMap Prod.snd

def storeItems (source : String) (items : StagedItems) (server : List StoredMessage) :
    List StoredMessage :=
  (storeMessages source (items.map Prod.fst) server).map (fun m =>
    { m with attachments := mergeAttachments (items.rowsOf m.guid) m.attachments })

/-- A row of some message names the file. -/
def namedFingerprint (server : List StoredMessage) (sha256 : String) : Bool :=
  server.any (fun m => m.attachments.any (fun a => decide (a.sha256 = some sha256)))

/-! A run. -/

/-- What a run does: what its main thread does, and its workers' rows for attachments. -/
inductive UploadEffect where
  | push (e : PushEffect)
  | assetOk (sha256 : String) (how : Appended)
  deriving DecidableEq, Repr

def RunJournal.recordUpload (journal : RunJournal) : UploadEffect → RunJournal
  | .push e => journal.record e
  | .assetOk sha256 how => journal.assetOk sha256 how

/-- A run under way: what it was called with, the source of its Import Run, what it has done
    so far, the fingerprints its workers are uploading and those they are done with, each for
    a file, the batches the server took, and the guids they took away. -/
structure PushProgress where
  input : PushInput
  assets : AssetConfig
  digests : String → String
  source : String
  done : List UploadEffect
  claims : List (Nat × String)
  settled : List (Nat × String)
  committed : List ImportBatch
  wiped : Bool
  taken : List String

namespace PushProgress

def new (input : PushInput) (assets : AssetConfig) (digests : String → String)
    (source : String) : PushProgress :=
  ⟨input, assets, digests, source, [], [], [], [], false, []⟩

/-- What the main thread has done. -/
def pushed (r : PushProgress) : List PushEffect :=
  r.done.filterMap (fun
    | .push e => some e
    | .assetOk .. => none)

/-- The journal of a run under way: its skip sets and the file. -/
def journal (r : PushProgress) : RunJournal := r.done.foldl RunJournal.recordUpload r.input.journal

/-- Whether a batch of these guids takes the source's messages away. -/
def wipes (r : PushProgress) (guids : List String) : Bool :=
  decide (r.input.cfg.mode = .replace) && !r.wiped && !guids.isEmpty

/-- Some worker is uploading the file. -/
def inFlight (r : PushProgress) (sha256 : String) : Bool :=
  r.claims.any (fun claim => decide (claim.2 = sha256))

/-- What the server keeps of what a batch brings. -/
def items (r : PushProgress) (folder : ExportFolder) (store : List String)
    (batch : ImportBatch) : StagedItems :=
  batch.messages.filterMap (fun m =>
    (folder.stored m.journal).map (fun guid => (guid, (folder.attachments m.journal).map (fun att =>
      stagedAttachment store att (folder.scanOneAttachment r.assets r.digests att)))))

/-- The attachments of a file have been uploaded: its messages can be cut into requests. -/
def Prepared (r : PushProgress) (folder : ExportFolder) (idx : Nat) : Prop :=
  ∀ name guid, folder.names[idx]? = some name → guid ∈ folder.lines idx →
    ∀ att ∈ folder.attachments ⟨name, guid⟩, ∀ sha256,
      folder.scanOneAttachment r.assets r.digests att = some sha256 → (idx, sha256) ∈ r.settled

end PushProgress

/-- The journal file, the messages and the files of the account between two steps, and the run
    under way. -/
structure Uploads where
  file : JournalFile
  server : List StoredMessage
  store : List String
  running : Option PushProgress

/-- An account that nothing was pushed to from this folder. -/
def Uploads.new (server : List StoredMessage) (store : List String) : Uploads :=
  ⟨[], server, store, none⟩

/-- What can happen. -/
inductive UploadEvent where
  | start (input : PushInput) (assets : AssetConfig) (digests : String → String)
      (source : String)
  | effect (e : PushEffect)
  | claim (idx : Nat) (sha256 : String)
  | onServer (idx : Nat) (sha256 : String)
  | uploaded (idx : Nat) (sha256 : String) (how : Appended)
  | gaveUp (idx : Nat) (sha256 : String)
  | commit (batch : ImportBatch)
  | stop
  | rewrite
  | put (sha256 : String)
  | sweep
  | others (source : String) (items : StagedItems)

inductive UploadStep (folder : ExportFolder) (url username : String) :
    Uploads → UploadEvent → Uploads → Prop
  | start {u : Uploads} {input : PushInput} {assets : AssetConfig} {digests : String → String}
      {source : String} (hidle : u.running = none)
      (hnames : input.names = folder.names) (hfile : input.file = u.file)
      (hurl : input.url = url) (husername : input.username = username)
      (hreads : folder.Reads input.out) (hdigests : folder.Resolves assets digests) :
      UploadStep folder url username u (.start input assets digests source)
        { u with running := some (.new input assets digests source) }
  /-- The main thread does what it does next: it posts a file's messages once their
      attachments are settled, and learns of an answer that the server has given. -/
  | effect {u : Uploads} {r : PushProgress} {e : PushEffect} (hrunning : u.running = some r)
      (hnext : r.pushed ++ [e] <+: (pushRun r.input).2.effects)
      (hprepared : ∀ batch, e = .posted batch → ∀ m ∈ batch.messages,
        r.Prepared folder m.fileIndex)
      (hanswered : ∀ batch, e = .acknowledged batch → batch ∈ r.committed) :
      UploadStep folder url username u (.effect e)
        { u with running := some { r with done := r.done ++ [.push e] } }
  | claim {u : Uploads} {r : PushProgress} {idx : Nat} {sha256 : String}
      (hrunning : u.running = some r) (hfree : r.inFlight sha256 = false)
      (hunknown : r.input.cfg.force = true ∨ r.journal.hasAsset sha256 = false) :
      UploadStep folder url username u (.claim idx sha256)
        { u with running := some { r with claims := (idx, sha256) :: r.claims } }
  /-- The journal says that the server has the file. -/
  | onServer {u : Uploads} {r : PushProgress} {idx : Nat} {sha256 : String}
      (hrunning : u.running = some r) (hfree : r.inFlight sha256 = false)
      (hforce : r.input.cfg.force = false) (hknown : r.journal.hasAsset sha256 = true) :
      UploadStep folder url username u (.onServer idx sha256)
        { u with running := some { r with settled := (idx, sha256) :: r.settled } }
  /-- The server has answered that it has the file. A row that cannot be written fails the
      worker's conversation. -/
  | uploaded {u : Uploads} {r : PushProgress} {idx : Nat} {sha256 : String} {how : Appended}
      (hrunning : u.running = some r) (hclaim : (idx, sha256) ∈ r.claims)
      (hstored : sha256 ∈ u.store) :
      UploadStep folder url username u (.uploaded idx sha256 how)
        { u with running := some { r with
          claims := r.claims.erase (idx, sha256)
          done := r.done ++ [.assetOk sha256 how]
          settled := if how.isOk then (idx, sha256) :: r.settled else r.settled } }
  | gaveUp {u : Uploads} {r : PushProgress} {idx : Nat} {sha256 : String}
      (hrunning : u.running = some r) (hclaim : (idx, sha256) ∈ r.claims) :
      UploadStep folder url username u (.gaveUp idx sha256)
        { u with running := some { r with claims := r.claims.erase (idx, sha256) } }
  | commit {u : Uploads} {r : PushProgress} {batch : ImportBatch} (hrunning : u.running = some r)
      (hposted : batch ∈ postedBatches r.pushed) :
      UploadStep folder url username u (.commit batch)
        { u with
          server := storeItems r.source (r.items folder u.store batch)
            (if r.wipes (folder.guids batch) then
              u.server.filter (fun m => decide (m.source ≠ r.source)) else u.server)
          running := some { r with
            committed := batch :: r.committed
            wiped := r.wiped || r.wipes (folder.guids batch)
            taken := r.taken ++ if r.wipes (folder.guids batch) then
              (u.server.filter (fun m => decide (m.source = r.source))).map StoredMessage.guid
              else [] } }
  /-- The run ends, by itself or not, and the journal keeps its rows. -/
  | stop {u : Uploads} {r : PushProgress} (hrunning : u.running = some r) :
      UploadStep folder url username u .stop { u with file := r.journal.file, running := none }
  /-- The run ends clean and has rewritten the journal. -/
  | rewrite {u : Uploads} {r : PushProgress} {report : PushReport} (hrunning : u.running = some r)
      (hdone : r.pushed = (pushRun r.input).2.effects)
      (hreport : (pushRun r.input).1 = .ok report)
      (hrewritten : (pushRun r.input).2.journal =
        (r.pushed.foldl RunJournal.record r.input.journal).compact) :
      UploadStep folder url username u .rewrite
        { u with file := r.journal.compact.file, running := none }
  /-- A file arrives, from a worker or from somebody else. -/
  | put {u : Uploads} {sha256 : String} :
      UploadStep folder url username u (.put sha256) { u with store := u.store.insert sha256 }
  /-- The files that no row names are removed, while no run is under way. -/
  | sweep {u : Uploads} (hidle : u.running = none) :
      UploadStep folder url username u .sweep
        { u with store := u.store.filter (namedFingerprint u.server) }
  /-- Somebody else stores messages. -/
  | others {u : Uploads} {source : String} {items : StagedItems} :
      UploadStep folder url username u (.others source items)
        { u with server := storeItems source items u.server }

/-! Keys, rows and stored guids. -/

theorem append_cons_inj {α : Type} {a : α} {l l' r r' : List α} (hl : a ∉ l) (hl' : a ∉ l')
    (h : l ++ a :: r = l' ++ a :: r') : l = l' ∧ r = r' := by
  induction l generalizing l' with
  | nil =>
    cases l' with
    | nil => exact ⟨rfl, by simpa using h⟩
    | cons b l' =>
      obtain ⟨rfl, -⟩ := List.cons.inj h
      exact absurd List.mem_cons_self hl'
  | cons b l ih =>
    cases l' with
    | nil =>
      obtain ⟨rfl, -⟩ := List.cons.inj h
      exact absurd List.mem_cons_self hl
    | cons b' l' =>
      obtain ⟨rfl, htail⟩ := List.cons.inj h
      obtain ⟨rfl, hr⟩ := ih (fun hm => hl (List.mem_cons_of_mem _ hm))
        (fun hm => hl' (List.mem_cons_of_mem _ hm)) htail
      exact ⟨rfl, hr⟩

/-- A key says which file and message it is of, as no file name holds a NUL. -/
theorem messageKey_inj {name name' guid guid' : String} (hname : '\x00' ∉ name.toList)
    (hname' : '\x00' ∉ name'.toList) (h : messageKey name guid = messageKey name' guid') :
    name = name' ∧ guid = guid' := by
  have hlists : name.toList ++ '\x00' :: guid.toList = name'.toList ++ '\x00' :: guid'.toList := by
    have := congrArg String.toList h
    simpa [messageKey] using this
  obtain ⟨hn, hg⟩ := append_cons_inj hname hname' hlists
  exact ⟨String.toList_injective hn, String.toList_injective hg⟩

/-! What the server keeps. -/

section
variable {source : String} {guids : List String} {server : List StoredMessage} {g : String}

theorem mem_storeMessages : g ∈ (storeMessages source guids server).map StoredMessage.guid ↔
    g ∈ server.map StoredMessage.guid ∨ g ∈ guids := by
  induction guids generalizing server with
  | nil => simp [storeMessages]
  | cons guid guids ih =>
    rw [storeMessages, ih]
    split
    · rename_i hheld
      simp only [List.mem_cons]
      constructor
      · exact fun h => h.imp_right .inr
      · rintro (h | rfl | h)
        · exact .inl h
        · exact .inl hheld
        · exact .inr h
    · simp only [List.map_append, List.map_cons, List.map_nil, List.mem_append, List.mem_cons,
        List.not_mem_nil, or_false, or_assoc]

theorem nodup_storeMessages (h : (server.map StoredMessage.guid).Nodup) :
    ((storeMessages source guids server).map StoredMessage.guid).Nodup := by
  induction guids generalizing server with
  | nil => exact h
  | cons guid guids ih =>
    rw [storeMessages]
    split
    · exact ih h
    · rename_i hnew
      refine ih ?_
      rw [List.map_append]
      exact h.append (List.nodup_singleton _) (by simpa using hnew)

end

section
variable {source guid : String} {items : StagedItems} {server : List StoredMessage}
  {staged rows : List StoredAttachment} {a b : StoredAttachment} {g sha256 : String}
  {m : StoredMessage}

theorem guids_storeItems : (storeItems source items server).map StoredMessage.guid =
    (storeMessages source (items.map Prod.fst) server).map StoredMessage.guid := by
  simp [storeItems, Function.comp_def]

theorem mem_storeItems : g ∈ (storeItems source items server).map StoredMessage.guid ↔
    g ∈ server.map StoredMessage.guid ∨ g ∈ items.map Prod.fst := by
  rw [guids_storeItems, mem_storeMessages]

theorem nodup_storeItems (h : (server.map StoredMessage.guid).Nodup) :
    ((storeItems source items server).map StoredMessage.guid).Nodup := by
  rw [guids_storeItems]
  exact nodup_storeMessages h

theorem items_guids {r : PushProgress} {folder : ExportFolder} {store : List String}
    {batch : ImportBatch} : (r.items folder store batch).map Prod.fst = folder.guids batch := by
  simp [PushProgress.items, ExportFolder.guids, List.map_filterMap, Function.comp_def]

end

/-! The journal of a run. -/

/-- The keys of the messages a row adds. -/
def UploadEffect.keys : UploadEffect → List String
  | .push e => journalledKeys [e]
  | .assetOk .. => []

def UploadEffect.files : UploadEffect → List String
  | .push e => journalledFiles [e]
  | .assetOk .. => []

def UploadEffect.assets : UploadEffect → List String
  | .push _ => []
  | .assetOk sha256 _ => [sha256]

section
variable {e : PushEffect} {x : UploadEffect} {journal : RunJournal} {k url username : String}

theorem mem_record_messages : k ∈ (journal.record e).state.messages ↔
    k ∈ journal.state.messages ∨ k ∈ journalledKeys [e] := by
  show k ∈ ([e].foldl RunJournal.record journal).state.messages ↔ _
  exact mem_foldl_record

theorem mem_record_files : k ∈ (journal.record e).state.files ↔
    k ∈ journal.state.files ∨ k ∈ journalledFiles [e] := by
  show k ∈ ([e].foldl RunJournal.record journal).state.files ↔ _
  exact mem_foldl_record_files

theorem load_record_messages
    (hk : k ∈ (load url username (journal.record e).file).messages) :
    k ∈ (load url username journal.file).messages ∨ k ∈ journalledKeys [e] := by
  cases e with
  | posted | acknowledged | refused => exact .inl hk
  | journalledMessages source messages how =>
    refine (load_append_messages hk).imp_right fun hk => ?_
    simp only [JournalEvent.keys] at hk
    split at hk
    · simpa [journalledKeys] using hk
    · cases hk
  | journalledFile idx source name how =>
    refine (load_append_messages hk).imp_right fun hk => ?_
    simp [JournalEvent.keys] at hk
  | journalledFailure source file stage error how =>
    refine (load_append_messages hk).imp_right fun hk => ?_
    simp [JournalEvent.keys] at hk

theorem load_record_files
    (hk : k ∈ (load url username (journal.record e).file).files) :
    k ∈ (load url username journal.file).files ∨ k ∈ journalledFiles [e] := by
  cases e with
  | posted | acknowledged | refused => exact .inl hk
  | journalledMessages source messages how =>
    refine (load_append_files hk).imp_right fun hk => ?_
    simp [JournalEvent.files] at hk
  | journalledFile idx source name how =>
    refine (load_append_files hk).imp_right fun hk => ?_
    simp only [JournalEvent.files] at hk
    split at hk
    · simpa [journalledFiles] using hk
    · cases hk
  | journalledFailure source file stage error how =>
    refine (load_append_files hk).imp_right fun hk => ?_
    simp [JournalEvent.files] at hk

theorem load_record_assets
    (hk : k ∈ (load url username (journal.record e).file).assets) :
    k ∈ (load url username journal.file).assets := by
  cases e with
  | posted | acknowledged | refused => exact hk
  | journalledMessages | journalledFile | journalledFailure =>
    refine (load_append_assets hk).elim id fun hk => ?_
    simp [JournalEvent.assets] at hk

theorem recordUpload_target : (journal.recordUpload x).url = journal.url ∧
    (journal.recordUpload x).username = journal.username := by
  cases x with
  | push e => cases e <;> exact ⟨rfl, rfl⟩
  | assetOk => exact ⟨rfl, rfl⟩

theorem mem_recordUpload_messages : k ∈ (journal.recordUpload x).state.messages ↔
    k ∈ journal.state.messages ∨ k ∈ x.keys := by
  cases x with
  | push e => exact mem_record_messages
  | assetOk => simp [RunJournal.recordUpload, RunJournal.assetOk, UploadEffect.keys]

theorem mem_recordUpload_files : k ∈ (journal.recordUpload x).state.files ↔
    k ∈ journal.state.files ∨ k ∈ x.files := by
  cases x with
  | push e => exact mem_record_files
  | assetOk => simp [RunJournal.recordUpload, RunJournal.assetOk, UploadEffect.files]

theorem mem_recordUpload_assets : k ∈ (journal.recordUpload x).state.assets ↔
    k ∈ journal.state.assets ∨ k ∈ x.assets := by
  cases x with
  | push e =>
    cases e <;>
      simp [RunJournal.recordUpload, RunJournal.record, RunJournal.messageBatchOk,
        RunJournal.fileOk, RunJournal.recordFailure, UploadEffect.assets]
  | assetOk sha256 how =>
    simp [RunJournal.recordUpload, UploadEffect.assets, mem_assetOk, or_comm]

theorem load_recordUpload_messages
    (hk : k ∈ (load url username (journal.recordUpload x).file).messages) :
    k ∈ (load url username journal.file).messages ∨ k ∈ x.keys := by
  cases x with
  | push e => exact load_record_messages hk
  | assetOk =>
    refine (load_append_messages hk).imp_right fun hk => ?_
    simp [JournalEvent.keys] at hk

theorem load_recordUpload_files
    (hk : k ∈ (load url username (journal.recordUpload x).file).files) :
    k ∈ (load url username journal.file).files ∨ k ∈ x.files := by
  cases x with
  | push e => exact load_record_files hk
  | assetOk =>
    refine (load_append_files hk).imp_right fun hk => ?_
    simp [JournalEvent.files] at hk

theorem load_recordUpload_assets
    (hk : k ∈ (load url username (journal.recordUpload x).file).assets) :
    k ∈ (load url username journal.file).assets ∨ k ∈ x.assets := by
  cases x with
  | push e => exact .inl (load_record_assets hk)
  | assetOk sha256 how =>
    refine (load_append_assets hk).imp_right fun hk => ?_
    simp only [JournalEvent.assets] at hk
    split at hk
    · exact hk
    · cases hk

end

namespace PushProgress
variable {r : PushProgress} {x : UploadEffect} {k : String}

/-- The run after one thing more. -/
def snoc (r : PushProgress) (x : UploadEffect) : PushProgress := { r with done := r.done ++ [x] }

theorem snoc_journal : (r.snoc x).journal = r.journal.recordUpload x := by
  simp [snoc, journal]

theorem snoc_pushed {e : PushEffect} : (r.snoc (.push e)).pushed = r.pushed ++ [e] := by
  simp [snoc, pushed]

theorem snoc_assetOk_pushed {sha256 : String} {how : Appended} :
    (r.snoc (.assetOk sha256 how)).pushed = r.pushed := by
  simp [snoc, pushed]

/-- The skip sets hold what they held when the run began, and what it has journalled. -/
theorem mem_journal : (k ∈ r.journal.state.messages ↔
      k ∈ r.input.journal.state.messages ∨ k ∈ journalledKeys r.pushed) ∧
    (k ∈ r.journal.state.files ↔
      k ∈ r.input.journal.state.files ∨ k ∈ journalledFiles r.pushed) := by
  obtain ⟨input, assets, digests, source, done, claims, settled, committed, wiped, taken⟩ := r
  simp only [journal, pushed]
  generalize input.journal = j
  induction done generalizing j with
  | nil => simp [journalledKeys, journalledFiles]
  | cons x done ih =>
    rw [List.foldl_cons, (ih _).1, (ih _).2, mem_recordUpload_messages, mem_recordUpload_files]
    cases x with
    | push e =>
      simp only [UploadEffect.keys, UploadEffect.files, journalledKeys, journalledFiles,
        List.flatMap_cons, List.flatMap_nil, List.append_nil, List.filterMap_cons,
        List.mem_append]
      cases e <;> simp [or_assoc]
    | assetOk => simp [UploadEffect.keys, UploadEffect.files]

theorem journal_target : r.journal.url = r.input.url ∧ r.journal.username = r.input.username := by
  have h : ∀ (done : List UploadEffect) (j : RunJournal),
      (done.foldl RunJournal.recordUpload j).url = j.url ∧
        (done.foldl RunJournal.recordUpload j).username = j.username := by
    intro done
    induction done with
    | nil => exact fun _ => ⟨rfl, rfl⟩
    | cons x done ih =>
      intro j
      rw [List.foldl_cons, (ih _).1, (ih _).2]
      exact recordUpload_target
  exact h r.done r.input.journal

end PushProgress

/-- A run opens its journal with empty skip sets, or with what the file holds. -/
theorem PushInput.opened_state (input : PushInput) :
    input.journal.state = .empty ∨
      (input.cfg.fresh = false ∧ input.journal.state = load input.url input.username input.file) := by
  have hstate : input.journal.state =
      if input.cfg.fresh then .empty else load input.url input.username input.file := rfl
  rw [hstate]
  cases input.cfg.fresh with
  | true => exact .inl rfl
  | false => exact .inr ⟨rfl, rfl⟩

/-! What the journal of a run tells. -/

/-- What the journal of a run under way says, when `kept m guid` is that the server keeps what
    it should of the message `m` under its guid. -/
structure RunTold (folder : ExportFolder) (url username : String)
    (kept : JournalMessage → String → Prop) (r : PushProgress) : Prop where
  names : r.input.names = folder.names
  target : r.input.url = url ∧ r.input.username = username
  reads : folder.Reads r.input.out
  sofar : r.pushed <+: (pushRun r.input).2.effects
  acked : ∀ batch ∈ ackedBatches r.pushed, batch ∈ r.committed
  posted : ∀ batch ∈ r.committed, batch ∈ postedBatches r.pushed
  sent : ∀ batch ∈ r.committed, ∀ m ∈ batch.messages, ∀ g,
    folder.stored m.journal = some g → kept m.journal g
  /-- Before it takes anything away, a `replace` run has stored and journalled nothing. -/
  untouched : r.input.cfg.mode = .replace → r.wiped = false →
    (∀ batch ∈ r.committed, folder.guids batch = []) ∧
      ∀ m, folder.Names r.journal.state m → folder.stored m = none
  skips : ∀ m, folder.Names r.journal.state m → ∀ g, folder.stored m = some g → kept m g
  rows : ∀ m, folder.Names (load url username r.journal.file) m → ∀ g,
    folder.stored m = some g → kept m g ∨ g ∈ r.taken

section
variable {folder : ExportFolder} {url username : String}
  {kept kept' : JournalMessage → String → Prop} {r : PushProgress} {e : PushEffect}
  {state state' : JournalState} {m : JournalMessage} {g : String}

theorem Names.mono (h : folder.Names state m)
    (hmessages : ∀ k ∈ state.messages, k ∈ state'.messages)
    (hfiles : ∀ k ∈ state.files, k ∈ state'.files) : folder.Names state' m :=
  ⟨h.1, h.2.imp (hmessages _) (hfiles _)⟩

/-- A message of a posted batch is a line of the folder, under its file's label. -/
theorem posted_has {input : PushInput} {batch : ImportBatch} {m : BatchMessage}
    (hnames : input.names = folder.names) (hreads : folder.Reads input.out)
    (hbatch : batch ∈ postedBatches (pushRun input).2.effects) (hm : m ∈ batch.messages) :
    folder.names[m.fileIndex]? = some m.journal.file ∧
      m.journal.guid ∈ folder.lines m.fileIndex := by
  have hmem : m.journal ∈ ofFile m.fileIndex (pushRun input).2.posted :=
    mem_ofFile.mpr (List.mem_flatMap.mpr ⟨batch, hbatch, hm⟩)
  rcases (pushRun_onRecord input).once m.fileIndex with hnil | ⟨name, file, hname, hfile, hsub⟩
  · rw [hnil] at hmem
    cases hmem
  · obtain ⟨l, hl, heq⟩ := List.mem_map.mp (hsub.mem hmem)
    rw [← heq, ← hnames, ← hreads _ file hfile]
    exact ⟨hname, List.mem_map.mpr ⟨l, hl, rfl⟩⟩

theorem justified_next {input : PushInput} {done : List PushEffect}
    (hnext : done ++ [e] <+: (pushRun input).2.effects) : Justified input done e := by
  obtain ⟨rest, hrest⟩ := hnext
  refine (pushRun_onRecord input).ordered done e rest ?_
  rw [← hrest, List.append_assoc]
  rfl

theorem RunTold.has (h : RunTold folder url username kept r) {batch : ImportBatch}
    (hbatch : batch ∈ postedBatches r.pushed) {m : BatchMessage} (hm : m ∈ batch.messages) :
    folder.names[m.fileIndex]? = some m.journal.file ∧
      m.journal.guid ∈ folder.lines m.fileIndex := by
  obtain ⟨rest, hrest⟩ := h.sofar
  refine posted_has h.names h.reads ?_ hm
  rw [← hrest, postedBatches_append]
  exact List.mem_append_left _ hbatch

/-- What a row written to the journal names has been stored by the run, or was named in memory
    before. -/
theorem RunTold.added {P : JournalMessage → Prop} (h : RunTold folder url username kept r)
    (hnodup : folder.names.Nodup) (hnext : r.pushed ++ [e] <+: (pushRun r.input).2.effects)
    (hsent : ∀ batch ∈ r.committed, ∀ m ∈ batch.messages, P m.journal)
    (hskips : ∀ m, folder.Names r.journal.state m → P m) (hm : folder.Has m) :
    (m.key ∈ journalledKeys [e] → P m) ∧ (m.file ∈ journalledFiles [e] → P m) := by
  have hjust := justified_next hnext
  obtain ⟨idx, hname, hguid⟩ := hm
  constructor
  · intro hkey
    cases e with
    | journalledMessages source messages how =>
      obtain ⟨batch, hbatch, rfl⟩ := hjust
      obtain ⟨m', hm', hmkey⟩ : ∃ m' ∈ batch.messages, m'.journal.key = m.key := by
        simpa [journalledKeys] using hkey
      have hcommitted := h.acked batch hbatch
      obtain ⟨hname', -⟩ := h.has (h.posted batch hcommitted) hm'
      obtain ⟨hfile, hguid'⟩ := messageKey_inj (folder.noNul _ (List.mem_of_getElem? hname'))
        (folder.noNul _ (List.mem_of_getElem? hname)) hmkey
      have heq : m'.journal = m := by
        cases hj : m'.journal
        rw [hj] at hfile hguid'
        simp_all
      rw [← heq]
      exact hsent batch hcommitted m' hm'
    | journalledFile | journalledFailure | posted | acknowledged | refused => cases hkey
  · intro hfile
    cases e with
    | journalledFile idx' source name how =>
      obtain rfl : m.file = name := by simpa [journalledFiles] using hfile
      obtain ⟨file, hname', hstaged, hall⟩ := hjust
      rw [h.names] at hname'
      obtain rfl : idx' = idx := by
        obtain ⟨hlt, heq⟩ := List.getElem?_eq_some_iff.mp hname'
        obtain ⟨hlt', heq'⟩ := List.getElem?_eq_some_iff.mp hname
        exact (hnodup.getElem_inj_iff).mp (heq.trans heq'.symm)
      have hhas : folder.Has m := ⟨idx', hname, hguid⟩
      rw [← h.reads idx' file hstaged] at hguid
      obtain ⟨l, hl, hlguid⟩ := List.mem_map.mp hguid
      rcases hall l hl with hacked | ⟨-, hjournalled⟩
      · obtain ⟨batch, hbatch, hm⟩ := List.mem_flatMap.mp (mem_ofFile.mp hacked)
        have := hsent batch (h.acked batch hbatch) _ hm
        rwa [hlguid] at this
      · rw [hlguid] at hjournalled
        exact hskips m ⟨hhas, .inl (PushProgress.mem_journal.1.mpr hjournalled)⟩
    | journalledMessages | journalledFailure | posted | acknowledged | refused => cases hfile

/-- The main thread does one thing more. -/
theorem RunTold.effect (h : RunTold folder url username kept r) (hnodup : folder.names.Nodup)
    (hnext : r.pushed ++ [e] <+: (pushRun r.input).2.effects)
    (hanswered : ∀ batch, e = .acknowledged batch → batch ∈ r.committed) :
    RunTold folder url username kept (r.snoc (.push e)) := by
  -- A line named now was named before, or its row has just been written.
  have hadded : ∀ (P : JournalMessage → Prop),
      (∀ batch ∈ r.committed, ∀ m ∈ batch.messages, P m.journal) →
      (∀ m, folder.Names r.journal.state m → P m) →
      ∀ m, folder.Names (r.snoc (.push e)).journal.state m → P m := by
    rintro P hsent hskips m ⟨hhas, hin⟩
    obtain ⟨hkeys, hfiles⟩ := h.added hnodup hnext hsent hskips hhas
    rw [PushProgress.snoc_journal, mem_recordUpload_messages, mem_recordUpload_files] at hin
    rcases hin with (hold | hnew) | hold | hnew
    · exact hskips m ⟨hhas, .inl hold⟩
    · exact hkeys hnew
    · exact hskips m ⟨hhas, .inr hold⟩
    · exact hfiles hnew
  have hsent : ∀ batch ∈ r.committed, ∀ m ∈ batch.messages, ∀ g,
      folder.stored m.journal = some g → kept m.journal g := h.sent
  refine
    { names := h.names, target := h.target, reads := h.reads
      sofar := by rw [PushProgress.snoc_pushed]; exact hnext
      acked := fun batch hb => ?_
      posted := fun batch hb => ?_
      sent := h.sent
      untouched := fun hmode hwiped => ?_
      skips := hadded _ hsent h.skips
      rows := fun m hin g hg => ?_ }
  · rw [PushProgress.snoc_pushed, ackedBatches_append, List.mem_append] at hb
    rcases hb with hb | hb
    · exact h.acked batch hb
    · cases e with
      | acknowledged b =>
        obtain rfl : batch = b := by simpa [ackedBatches] using hb
        exact hanswered batch rfl
      | journalledMessages | journalledFile | journalledFailure | posted | refused => cases hb
  · rw [PushProgress.snoc_pushed, postedBatches_append]
    exact List.mem_append_left _ (h.posted batch hb)
  · obtain ⟨hnone, hempty⟩ := h.untouched hmode hwiped
    refine ⟨hnone, hadded _ (fun batch hb m hm => ?_) hempty⟩
    by_contra hsome
    obtain ⟨g, hg⟩ := Option.ne_none_iff_exists'.mp hsome
    have : g ∈ folder.guids batch := List.mem_filterMap.mpr ⟨m, hm, hg⟩
    rw [hnone batch hb] at this
    cases this
  · obtain ⟨hhas, hin⟩ := hin
    obtain ⟨hkeys, hfiles⟩ := h.added hnodup hnext hsent h.skips hhas
    rw [PushProgress.snoc_journal] at hin
    rcases hin with hin | hin
    · rcases load_recordUpload_messages hin with hold | hnew
      · exact h.rows m ⟨hhas, .inl hold⟩ g hg
      · exact .inl (hkeys hnew g hg)
    · rcases load_recordUpload_files hin with hold | hnew
      · exact h.rows m ⟨hhas, .inr hold⟩ g hg
      · exact .inl (hfiles hnew g hg)

/-- A worker's row says nothing of messages. -/
theorem RunTold.assetOk (h : RunTold folder url username kept r) (sha256 : String)
    (how : Appended) : RunTold folder url username kept (r.snoc (.assetOk sha256 how)) := by
  have hskips : ∀ m, folder.Names (r.snoc (.assetOk sha256 how)).journal.state m →
      folder.Names r.journal.state m := by
    rintro m ⟨hhas, hin⟩
    rw [PushProgress.snoc_journal, mem_recordUpload_messages, mem_recordUpload_files] at hin
    exact ⟨hhas, hin.imp (Or.rec id nofun) (Or.rec id nofun)⟩
  have hrows : ∀ m,
      folder.Names (load url username (r.snoc (.assetOk sha256 how)).journal.file) m →
      folder.Names (load url username r.journal.file) m := by
    rintro m ⟨hhas, hin⟩
    rw [PushProgress.snoc_journal] at hin
    refine ⟨hhas, hin.imp (fun hk => ?_) fun hk => ?_⟩
    · exact (load_recordUpload_messages hk).elim id fun hnone => absurd hnone List.not_mem_nil
    · exact (load_recordUpload_files hk).elim id fun hnone => absurd hnone List.not_mem_nil
  exact
    { names := h.names, target := h.target, reads := h.reads
      sofar := by rw [PushProgress.snoc_assetOk_pushed]; exact h.sofar
      acked := by rw [PushProgress.snoc_assetOk_pushed]; exact h.acked
      posted := by rw [PushProgress.snoc_assetOk_pushed]; exact h.posted
      sent := h.sent
      untouched := fun hmode hwiped =>
        (h.untouched hmode hwiped).imp_right fun hempty m hm => hempty m (hskips m hm)
      skips := fun m hm => h.skips m (hskips m hm)
      rows := fun m hm => h.rows m (hrows m hm) }

/-- The claims and the settled files say nothing of messages. -/
theorem RunTold.claims (h : RunTold folder url username kept r)
    (claims settled : List (Nat × String)) :
    RunTold folder url username kept { r with claims, settled } :=
  { names := h.names, target := h.target, reads := h.reads, sofar := h.sofar, acked := h.acked
    posted := h.posted, sent := h.sent, untouched := h.untouched, skips := h.skips
    rows := h.rows }

theorem RunTold.mono (h : RunTold folder url username kept r)
    (hkeep : ∀ m g, kept m g → kept' m g) : RunTold folder url username kept' r :=
  { names := h.names, target := h.target, reads := h.reads, sofar := h.sofar, acked := h.acked
    posted := h.posted
    sent := fun batch hb m hm g hg => hkeep _ _ (h.sent batch hb m hm g hg)
    untouched := h.untouched
    skips := fun m hm g hg => hkeep _ _ (h.skips m hm g hg)
    rows := fun m hm g hg => (h.rows m hm g hg).imp_left (hkeep _ _) }

/-- The server takes a batch. -/
theorem RunTold.commit {batch : ImportBatch} {taken : List String}
    (h : RunTold folder url username kept r) (hposted : batch ∈ postedBatches r.pushed)
    (hnew : ∀ m ∈ batch.messages, ∀ g, folder.stored m.journal = some g → kept' m.journal g)
    (hkeep : ∀ m g, kept m g →
      kept' m g ∨ (r.wipes (folder.guids batch) = true ∧ g ∈ taken)) :
    RunTold folder url username kept'
      { r with
        committed := batch :: r.committed
        wiped := r.wiped || r.wipes (folder.guids batch)
        taken := r.taken ++ if r.wipes (folder.guids batch) then taken else [] } := by
  have hall : ∀ b ∈ batch :: r.committed, b ∈ postedBatches r.pushed := by
    intro b hb
    rcases List.mem_cons.mp hb with rfl | hb
    · exact hposted
    · exact h.posted b hb
  by_cases hw : r.wipes (folder.guids batch) = true
  · simp only [hw, if_true]
    obtain ⟨⟨hmode, hwiped⟩, hsome⟩ : (r.input.cfg.mode = .replace ∧ r.wiped = false) ∧
        folder.guids batch ≠ [] := by
      simpa [PushProgress.wipes] using hw
    obtain ⟨hnone, hempty⟩ := h.untouched hmode hwiped
    refine
      { names := h.names, target := h.target, reads := h.reads, sofar := h.sofar
        acked := fun b hb => List.mem_cons_of_mem _ (h.acked b hb)
        posted := hall
        sent := fun b hb m hm g hg => ?_
        untouched := fun _ hfalse => by simp at hfalse
        skips := fun m hm g hg => by cases (hempty m hm).symm.trans hg
        rows := fun m hm g hg => ?_ }
    · rcases List.mem_cons.mp hb with rfl | hb
      · exact hnew m hm g hg
      · have : g ∈ folder.guids b := List.mem_filterMap.mpr ⟨m, hm, hg⟩
        rw [hnone b hb] at this
        cases this
    · rcases h.rows m hm g hg with hheld | htaken
      · exact (hkeep m g hheld).imp_right fun ht => List.mem_append_right _ ht.2
      · exact .inr (List.mem_append_left _ htaken)
  · have hstays : ∀ m g, kept m g → kept' m g :=
      fun m g hk => (hkeep m g hk).elim id fun ht => absurd ht.1 hw
    rw [Bool.not_eq_true] at hw
    simp only [hw, Bool.false_eq_true, if_false, Bool.or_false, List.append_nil]
    refine
      { names := h.names, target := h.target, reads := h.reads, sofar := h.sofar
        acked := fun b hb => List.mem_cons_of_mem _ (h.acked b hb)
        posted := hall
        sent := fun b hb m hm g hg => ?_
        untouched := fun hmode hwiped => ⟨fun b hb => ?_, (h.untouched hmode hwiped).2⟩
        skips := fun m hm g hg => hstays m g (h.skips m hm g hg)
        rows := fun m hm g hg => (h.rows m hm g hg).imp_left (hstays m g) }
    · rcases List.mem_cons.mp hb with rfl | hb
      · exact hnew m hm g hg
      · exact hstays _ g (h.sent b hb m hm g hg)
    · rcases List.mem_cons.mp hb with rfl | hb
      · -- A first batch that takes nothing away has no messages.
        have hmode' : r.input.cfg.mode = .replace := hmode
        have hwiped' : r.wiped = false := hwiped
        simpa [PushProgress.wipes, hmode', hwiped'] using hw
      · exact (h.untouched hmode hwiped).1 b hb

end

/-- What the journal says between two runs and during one, when `kept u m guid` is that the
    server of `u` keeps what it should. -/
structure UploadsTold (folder : ExportFolder) (url username : String)
    (kept : Uploads → JournalMessage → String → Prop) (u : Uploads) : Prop where
  left : u.running = none → ∀ m, folder.Names (load url username u.file) m → ∀ g,
    folder.stored m = some g → kept u m g
  run : ∀ r, u.running = some r → RunTold folder url username (kept u) r

/-- What a step has to do for `kept`: what was kept stays but for what a wipe takes away, a
    batch brings what it should, and a run does not stop with a row on disk for a message that
    it took away and that is not kept again. -/
structure StepKeeps (folder : ExportFolder) (url username : String)
    (kept : Uploads → JournalMessage → String → Prop) (u : Uploads) (event : UploadEvent)
    (u' : Uploads) : Prop where
  keep : ∀ m g, kept u m g → kept u' m g ∨ ∃ r batch, event = .commit batch ∧
    u.running = some r ∧ r.wipes (folder.guids batch) = true ∧
    g ∈ (u.server.filter (fun m => decide (m.source = r.source))).map StoredMessage.guid
  new : ∀ batch, event = .commit batch → ∀ m ∈ batch.messages, ∀ g,
    folder.stored m.journal = some g → kept u' m.journal g
  clear : event = .stop → ∀ r, u.running = some r → ∀ m,
    folder.Names (load url username r.journal.file) m → ∀ g ∈ r.taken,
    folder.stored m = some g → kept u m g

section
variable {folder : ExportFolder} {url username : String} {event : UploadEvent}
  {kept : Uploads → JournalMessage → String → Prop} {u u' : Uploads} {m : JournalMessage}
  {g : String}

theorem StepKeeps.stays (hk : StepKeeps folder url username kept u event u')
    (hevent : ∀ batch, event ≠ .commit batch) (h : kept u m g) : kept u' m g :=
  (hk.keep m g h).elim id fun ⟨_, batch, heq, _⟩ => absurd heq (hevent batch)

/-- What a run finds in the journal that it opens. -/
theorem UploadsTold.start {input : PushInput} {assets : AssetConfig} {digests : String → String}
    {source : String} (h : UploadsTold folder url username kept u) (hidle : u.running = none)
    (hnames : input.names = folder.names) (hfile : input.file = u.file)
    (hurl : input.url = url) (husername : input.username = username)
    (hreads : folder.Reads input.out) :
    RunTold folder url username (kept u) (.new input assets digests source) := by
  have hopen : ∀ m, folder.Names input.journal.state m →
      input.cfg.fresh = false ∧ folder.Names (load url username u.file) m := by
    intro m hm
    rcases input.opened_state with hempty | ⟨hfresh, hloaded⟩
    · rw [hempty] at hm
      rcases hm.2 with hin | hin <;> cases hin
    · rw [hloaded, hfile, hurl, husername] at hm
      exact ⟨hfresh, hm⟩
  exact
    { names := hnames, target := ⟨hurl, husername⟩, reads := hreads
      sofar := List.nil_prefix
      acked := nofun
      posted := nofun
      sent := nofun
      untouched := fun hmode _ => by
        refine ⟨nofun, fun m hm => ?_⟩
        have hfresh := (hopen m hm).1
        have hmode' : input.cfg.mode = .replace := hmode
        simp [PushConfig.fresh, hmode'] at hfresh
      skips := fun m hm g hg => h.left hidle m (hopen m hm).2 g hg
      rows := fun m hm g hg => .inl (h.left hidle m (hfile ▸ hm) g hg) }

theorem UploadsTold.step (h : UploadsTold folder url username kept u)
    (hnodup : folder.names.Nodup) (hstep : UploadStep folder url username u event u')
    (hk : StepKeeps folder url username kept u event u') :
    UploadsTold folder url username kept u' := by
  cases hstep with
  | @start input assets digests source hidle hnames hfile hurl husername hreads hdigests =>
    refine ⟨nofun, fun r hr => ?_⟩
    cases hr
    exact (h.start hidle hnames hfile hurl husername hreads).mono fun m g => hk.stays nofun
  | @effect r e hrunning hnext hprepared hanswered =>
    refine ⟨nofun, fun r' hr' => ?_⟩
    cases hr'
    exact ((h.run r hrunning).effect hnodup hnext hanswered).mono fun m g => hk.stays nofun
  | @claim r idx sha256 hrunning hfree hunknown =>
    refine ⟨nofun, fun r' hr' => ?_⟩
    cases hr'
    exact ((h.run r hrunning).claims _ _).mono fun m g => hk.stays nofun
  | @onServer r idx sha256 hrunning hfree hforce hknown =>
    refine ⟨nofun, fun r' hr' => ?_⟩
    cases hr'
    exact ((h.run r hrunning).claims _ _).mono fun m g => hk.stays nofun
  | @uploaded r idx sha256 how hrunning hclaim hstored =>
    refine ⟨nofun, fun r' hr' => ?_⟩
    cases hr'
    exact (((h.run r hrunning).assetOk sha256 how).claims _ _).mono fun m g => hk.stays nofun
  | @gaveUp r idx sha256 hrunning hclaim =>
    refine ⟨nofun, fun r' hr' => ?_⟩
    cases hr'
    exact ((h.run r hrunning).claims _ _).mono fun m g => hk.stays nofun
  | @commit r batch hrunning hposted =>
    refine ⟨nofun, fun r' hr' => ?_⟩
    cases hr'
    refine (h.run r hrunning).commit hposted (hk.new batch rfl) fun m g hkept => ?_
    refine (hk.keep m g hkept).imp_right ?_
    rintro ⟨r', batch', heq, hrunning', hwipes, hg⟩
    cases heq
    cases hrunning.symm.trans hrunning'
    exact ⟨hwipes, hg⟩
  | @stop r hrunning =>
    refine ⟨fun _ m hm g hg => hk.stays nofun ?_, nofun⟩
    rcases (h.run r hrunning).rows m hm g hg with hheld | htaken
    · exact hheld
    · exact hk.clear rfl r hrunning m hm g htaken hg
  | @rewrite r report hrunning hdone hreport hrewritten =>
    refine ⟨fun _ m hm g hg => hk.stays nofun ?_, nofun⟩
    have hr := h.run r hrunning
    have hurl : r.journal.url = url := PushProgress.journal_target.1.trans hr.target.1
    have husername : r.journal.username = username :=
      PushProgress.journal_target.2.trans hr.target.2
    refine hr.skips m (Names.mono hm (fun k hk => ?_) fun k hk => ?_) g hg
    all_goals rw [RunJournal.compact, hurl, husername] at hk
    · exact load_compact_le.1 k hk
    · exact load_compact_le.2.1 k hk
  | put =>
    exact ⟨fun hidle m hm g hg => hk.stays nofun (h.left hidle m hm g hg),
      fun r hr => (h.run r hr).mono fun m g => hk.stays nofun⟩
  | sweep hidle =>
    exact ⟨fun hidle m hm g hg => hk.stays nofun (h.left hidle m hm g hg),
      fun r hr => (h.run r hr).mono fun m g => hk.stays nofun⟩
  | others =>
    exact ⟨fun hidle m hm g hg => hk.stays nofun (h.left hidle m hm g hg),
      fun r hr => (h.run r hr).mono fun m g => hk.stays nofun⟩

/-- A file that a run reports as done had every line stored by the run, or told before. -/
theorem UploadsTold.delivered {r : PushProgress} {report : PushReport} {idx : Nat}
    {row : FileResult} {guid : String} (h : UploadsTold folder url username kept u)
    (hr : u.running = some r) (hdone : r.pushed = (pushRun r.input).2.effects)
    (hreport : (pushRun r.input).1 = .ok report) (hrow : report.results[idx]? = some row)
    (hstatus : row.status = .ok ∨ row.status = .skipped) (hguid : guid ∈ folder.lines idx)
    (hg : folder.stored ⟨row.file, guid⟩ = some g) : kept u ⟨row.file, guid⟩ g := by
  have htold := h.run r hr
  have hsettled := pushRun_settled hreport
  have hname : folder.names[idx]? = some row.file := by
    rw [← htold.names, ← hsettled.files]
    simp [hrow]
  have hhas : folder.Has ⟨row.file, guid⟩ := ⟨idx, hname, hguid⟩
  rcases hstatus with hstatus | hstatus
  · obtain ⟨file, -, hstaged, hall⟩ := hsettled.ok idx row hrow hstatus
    rw [← htold.reads idx file hstaged] at hguid
    obtain ⟨l, hl, rfl⟩ := List.mem_map.mp hguid
    rw [← hdone] at hall
    rcases hall l hl with hacked | ⟨-, hjournalled⟩
    · obtain ⟨batch, hbatch, hm⟩ := List.mem_flatMap.mp (mem_ofFile.mp hacked)
      exact htold.sent batch (htold.acked batch hbatch) _ hm g hg
    · exact htold.skips _ ⟨hhas, .inl (PushProgress.mem_journal.1.mpr hjournalled)⟩ g hg
  · obtain ⟨-, -, himported⟩ := hsettled.skipped idx row hrow hstatus
    rw [← hdone] at himported
    exact htold.skips _ ⟨hhas, .inr (PushProgress.mem_journal.2.mpr himported)⟩ g hg

end

end MessageCrate

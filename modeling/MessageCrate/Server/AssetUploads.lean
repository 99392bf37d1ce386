import Mathlib.Data.Finset.Insert
import Mathlib.Data.List.Range
import Mathlib.Logic.Function.Basic
import MessageCrate.Lib.Runs
import MessageCrate.Lib.Text

/- Attachments uploaded in parts (`asset_uploads.rs`, `assets_api.rs`).

   An upload has a folder with a manifest and a file for each part. A part may come again and
   takes the place of the one before it; the completion joins the parts, checks the fingerprint
   and moves the file into the asset store, where a file is found by its fingerprint alone.

   Correspondence (Rust ↔ Lean):
     `expected_part_count`, `expected_part_len`  ↔ `expectedPartCount`, `expectedPartLen`
     `put_part`, `write_part`                    ↔ `putPart`, `writePart`
     `complete_upload`, `complete_session`       ↔ `completeUpload`
     `assemble`                                  ↔ `assemble`
     `store_verified_inner`, `install_blob`      ↔ `storeVerified`, `installBlob`
     `copy_to_verified_temp`                     ↔ `copyToVerifiedTemp`
     `store_mime_metadata`, `resolve_mime`       ↔ `storeMimeMetadata`, `resolveMime`
     another request holds the folder's lock     ↔ `busy`
     a file operation of `put_part` that fails   ↔ `PartWrite`
     one of `complete_upload` that fails         ↔ `Disk`

   SHA-256 is the parameter `sha`, from bytes to the text of a fingerprint. Numbers are natural
   ones: a `u64` or a `usize` holds what is computed here (`partStart_lt`), and the one cast that
   narrows is written out. Every operation on a file may fail, and a request says which of its
   own do: `write_part` overwrites the part's file before it writes the manifest, so a part that
   is refused may be in the folder all the same. -/
namespace MessageCrate.AssetUploads
open Runs

inductive AssetError
  | invalid (message : String)
  | uploadNotFound
  | locked
  | mismatch (claimed actual : String)
  | internal
  deriving DecidableEq

/-- `manifest.json`. -/
structure UploadManifest where
  sha256 : String
  bytes : Nat
  partSize : Nat
  mime : Option String
  received : Finset Nat

/-- The folder of an upload: the manifest and the part files. -/
structure Session where
  manifest : UploadManifest
  parts : Nat → Option (List UInt8)

/-! Part sizes. -/

/-- Rounded up, and narrowed to a `u32`. -/
def expectedPartCount (bytes partSize : Nat) : Nat := (bytes + partSize - 1) / partSize % 2 ^ 32

def expectedPartLen (bytes partSize part : Nat) : Nat :=
  if part = 0 ∨ expectedPartCount bytes partSize < part then 0
  else min (bytes - (part - 1) * partSize) partSize

/-- The numbers of the parts an upload waits for. -/
def partNumbers (bytes partSize : Nat) : List Nat :=
  List.range' 1 (expectedPartCount bytes partSize)

/-! Parts. -/

def invalid {α : Type} (message : String) : Except AssetError α := .error (.invalid message)

/-- What is wrong with a part, if anything. -/
def checkPart (sha256 : String) (m : UploadManifest) (part : Nat) (body : List UInt8) :
    Except AssetError Unit :=
  let count := expectedPartCount m.bytes m.partSize
  let expect := expectedPartLen m.bytes m.partSize part
  if m.sha256 ≠ sha256 then invalid "the upload was started for a different SHA-256"
  else if m.partSize < body.length then
    invalid ("part body " ++ toString body.length ++ " bytes exceeds session part_size " ++
      toString m.partSize)
  else if count < part then
    invalid ("part " ++ toString part ++ " out of range (expected 1..=" ++ toString count ++ ")")
  else if body.length ≠ expect then
    invalid ("part " ++ toString part ++ " length " ++ toString body.length ++
      " does not match expected " ++ toString expect)
  else .ok ()

/-- How far the file operations of a part get: the lock's file cannot be opened, the manifest not
read, or the part's file not made; or the part's file is cut off after so many bytes, or whole and
the manifest not written; or all is written. -/
inductive PartWrite
  | noLock
  | noManifest
  | noFile
  | cutOff (bytes : Nat)
  | noRecord
  | whole
  deriving DecidableEq

/-- What the part's file then holds, where it was written over. -/
def PartWrite.left (body : List UInt8) : PartWrite → Option (List UInt8)
  | .noLock | .noManifest | .noFile => none
  | .cutOff bytes => some (body.take bytes)
  | .noRecord | .whole => some body

/-- The folder with what is left of the part's file in it. -/
def Session.overwrite (s : Session) (part : Nat) (left : Option (List UInt8)) : Session :=
  { s with parts := Function.update s.parts part (left.or (s.parts part)) }

/-- The folder with the part in its manifest. -/
def Session.record (s : Session) (part : Nat) : Session :=
  { s with manifest := { s.manifest with received := insert part s.manifest.received } }

def writePart (sha256 : String) (busy : Bool) (write : PartWrite) (part : Nat) (body : List UInt8)
    (s : Session) : Except AssetError Nat × Session :=
  if write = .noLock then (.error .internal, s)
  else if busy then (.error .locked, s)
  else if write = .noManifest then (.error .internal, s)
  else
    match checkPart sha256 s.manifest part body with
    | .error e => (.error e, s)
    | .ok () =>
      let s := s.overwrite part (write.left body)
      if write = .whole then (.ok body.length, s.record part) else (.error .internal, s)

def putPart (sha256 : String) (busy : Bool) (write : PartWrite) (part : Nat) (body : List UInt8)
    (session : Option Session) : Except AssetError Nat × Option Session :=
  if part = 0 then (invalid "part number must be >= 1", session)
  else
    match session with
    | none => (.error .uploadNotFound, none)
    | some s =>
      let (result, s) := writePart sha256 busy write part body s
      (result, some s)

/-! The asset store. -/

/-- What is at a fingerprint's path: nothing, a file, or what is not a regular file. -/
inductive Blob
  | absent
  | file (bytes : List UInt8)
  | irregular
  deriving DecidableEq

/-- A fingerprint's file, and the text of the file that keeps its MIME type. -/
structure Entry where
  blob : Blob
  sidecar : Option String
  deriving DecidableEq

/-- Which file operations of a completion succeed, in their order: opening the lock's file, reading
the manifest, joining the parts; finding the joined file and making the folder of the fingerprint's,
reading the file that is there, reading the joined one again, copying it and moving it into place; reading the recorded
MIME type and recording one. A removal of the upload's folder that fails and leaves its manifest
takes away the part files it names. -/
structure Disk where
  locks : Bool
  reads : Bool
  joins : Bool
  shards : Bool
  rereads : Bool
  verifies : Bool
  copies : Bool
  persists : Bool
  readsType : Bool
  records : Bool
  leaves : Option (Finset Nat)

/-- Nothing fails. -/
def Disk.sound : Disk :=
  ⟨true, true, true, true, true, true, true, true, true, true, none⟩

structure StoredAsset where
  sha256 : String
  assetsPath : String
  mimeType : Option String
  deriving DecidableEq

/-- The path of a fingerprint's file, in the folder of its first two digits. -/
def shardRelPath (sha256 : String) : String :=
  String.ofList (sha256.toList.take 2) ++ "/" ++ sha256

section store
variable (sha : List UInt8 → String) (disk : Disk)

def copyToVerifiedTemp (source : List UInt8) (claimed : String) : Except AssetError (List UInt8) :=
  if disk.copies = false then .error .internal
  else if sha source ≠ claimed then .error (.mismatch claimed (sha source))
  else .ok source

/-- The copy under the file's own path. -/
def persist (source : List UInt8) (claimed : String) : Except AssetError (Bool × Blob) :=
  match copyToVerifiedTemp sha disk source claimed with
  | .error e => .error e
  | .ok copy => if disk.persists = false then .error .internal else .ok (false, .file copy)

/-- Whether the file was there already, and what is there now. A file that cannot be read is
replaced. -/
def installBlob (source : List UInt8) (claimed : String) (blob : Blob) : Except AssetError (Bool × Blob) :=
  if disk.shards = false then .error .internal
  else
    match blob with
    | .irregular => .error .internal
    | .absent => persist sha disk source claimed
    | .file stored =>
      if disk.rereads = true ∧ sha stored = claimed then
        if disk.verifies = false then .error .internal
        else if sha source ≠ claimed then .error (.mismatch claimed (sha source))
        else .ok (true, .file stored)
      else persist sha disk source claimed

/-- The upload's MIME type. The joined file has no extension where the upload has no type, so its
name says no more. -/
def resolveMime (mime : Option String) : Option String := mime.filter (· ≠ "")

/-- The text a sidecar gives, where it gives one. -/
def readMimeMetadata (sidecar : Option String) : Option String :=
  if disk.readsType then (sidecar.map Text.trim).filter (· ≠ "") else none

/-- The sidecar with the type in it, unless there is one. -/
def storeMimeMetadata (mime : String) (sidecar : Option String) : Except AssetError (Option String) :=
  if Text.trim mime = "" then .ok sidecar
  else if (readMimeMetadata disk sidecar).isSome then .ok sidecar
  else if disk.records = false then .error .internal
  else .ok (sidecar.or (some (Text.trim mime)))

def storeVerified (source : List UInt8) (claimed : String) (mime : Option String) (entry : Entry) :
    Except AssetError (StoredAsset × Bool) × Entry :=
  match installBlob sha disk source claimed entry.blob with
  | .error e => (.error e, entry)
  | .ok (already, blob) =>
    let stored := ⟨claimed, shardRelPath claimed, resolveMime mime⟩
    match resolveMime mime with
    | none => (.ok (stored, already), { entry with blob := blob })
    | some mime =>
      match storeMimeMetadata disk mime entry.sidecar with
      | .error e => (.error e, { entry with blob := blob })
      | .ok sidecar => (.ok (stored, already), ⟨blob, sidecar⟩)

end store

/-! Completion. -/

/-- The parts' bodies one after another. -/
def joined (bytes partSize : Nat) (parts : Nat → Option (List UInt8)) : List UInt8 :=
  (partNumbers bytes partSize).flatMap fun n => (parts n).getD []

def assemble (sha256 : String) (disk : Disk) (s : Session) : Except AssetError (List UInt8) :=
  let m := s.manifest
  let numbers := partNumbers m.bytes m.partSize
  let content := joined m.bytes m.partSize s.parts
  if disk.reads = false then .error .internal
  else if m.sha256 ≠ sha256 then invalid "the upload was started for a different SHA-256"
  else
    match numbers.find? (fun n => n ∉ m.received ∨ s.parts n = none) with
    | some n => invalid ("missing part " ++ toString n ++ " of " ++ toString numbers.length)
    | none =>
      if disk.joins = false then .error .internal
      else if content.length ≠ m.bytes then
        invalid ("assembled size " ++ toString content.length ++ " does not match declared " ++
          toString m.bytes)
      else .ok content

/-- An upload and the asset store. -/
structure State where
  session : Option Session
  store : String → Entry

/-- What a removal of the folder leaves of it. -/
def Session.removed (s : Session) (leaves : Option (Finset Nat)) : Option Session :=
  leaves.map fun gone => { s with parts := fun n => if n ∈ gone then none else s.parts n }

/-- The folder goes after every completion that got as far as storing the file. -/
def completeUpload (sha : List UInt8 → String) (claimed : String) (busy : Bool) (disk : Disk)
    (st : State) : Except AssetError (StoredAsset × Bool) × State :=
  match st.session with
  | none => (.error .uploadNotFound, st)
  | some s =>
    if disk.locks = false then (.error .internal, st)
    else if busy then (.error .locked, st)
    else
      match assemble claimed disk s with
      | .error e => (.error e, st)
      | .ok content =>
        let (result, entry) := storeVerified sha disk content claimed s.manifest.mime (st.store claimed)
        (result, ⟨s.removed disk.leaves, Function.update st.store claimed entry⟩)

/-! Requests. -/

inductive Request
  | put (part : Nat) (body : List UInt8) (busy : Bool) (write : PartWrite)
  | complete (busy : Bool) (disk : Disk)

inductive Response
  | put (result : Except AssetError Nat)
  | complete (result : Except AssetError (StoredAsset × Bool))

def respond (sha : List UInt8 → String) (claimed : String) (st : State) : Request → Response × State
  | .put part body busy write =>
    let (result, session) := putPart claimed busy write part body st.session
    (.put result, { st with session := session })
  | .complete busy disk =>
    let (result, st) := completeUpload sha claimed busy disk st
    (.complete result, st)

/-- A request and what was answered. -/
abbrev Event := Request × Response

/-- One request after another to an upload. -/
def Answers (sha : List UInt8 → String) (claimed : String) (st : State) (e : Event) (st' : State) : Prop :=
  respond sha claimed st e.1 = (e.2, st')

/-- An upload that has just been started. -/
def started (sha256 : String) (bytes partSize : Nat) (mime : Option String) : Session :=
  ⟨⟨sha256, bytes, partSize, (mime.map Text.trim).filter (· ≠ ""), ∅⟩, fun _ => none⟩

end MessageCrate.AssetUploads

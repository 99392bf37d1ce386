import MessageCrate.Import.Messages
import MessageCrate.Import.Identities
import MessageCrate.Lib.Packing

/- The way out of the trash that destroys (`crates/server/server/src/db/trash.rs`).

   A trashed conversation is deleted with what hangs off it, and the files that nothing names any
   more are reported, for the caller to remove from disk. A trashed contact loses its name and
   keeps its identities.

   Correspondence (Rust ↔ Lean):
     `trashed_conversations`, `trashed_contacts`   ↔ `Vault.trashedConversations`,
                                                     `Book.trashedContacts`
     `derived_sha256`, `derived_assets_path`       ↔ `Vault.previews`, by an attachment's rowid
     `delete_conversations`                        ↔ `deleteConversations`, by `deleteChunk`
     `orphaned_files`, `asset_is_referenced`       ↔ `orphanedFiles`, `assetIsReferenced`
     `forget_contacts`, `purge_account`            ↔ `forgetContacts`, `purgeAccount`
     `delete_trashed`, `empty_trash`               ↔ `deleteTrashed`, `emptyTrash`

   Left out: the audit trail, the tags of a message, and when a row was last changed.

   What is proved:
     1. `without_deleteConversation`, `deletes_chunks`: what one deleted conversation takes with
        it, and what every chunk of a set takes.
     2. `mem_deleteConversations`: what is reported. `orphaned_deleteConversations`: of a set of
        the account's own, it is what is orphaned; a candidate of a conversation that stays is
        no orphan, since it names its own digest still.
     3. `permanent_delete`: the two together, a delete that is refused, and the trash emptied.
     4. `permanent_delete_foreign`: the candidates are collected whatever their account, so a set
        that holds another account's conversation has its files reported. -/
namespace MessageCrate.Trash
open SqlTable Table

/-! The account's state. -/

/-- The columns an attachment's Preview is named in. -/
structure Preview where
  derivedSha256 : Option String
  derivedAssetsPath : Option String
  deriving DecidableEq, Repr

structure Vault where
  db : Db
  staging : Staging
  book : Book
  previews : Int → Preview
  stagedPreviews : Int → Preview
  /-- `(contact, group)` pairs. -/
  groupMembers : List (Int × Int)
  /-- `(account, conversation)` pairs. -/
  trashedConversations : List (Int × Int)

/-- Max ids per `IN (...)` list. -/
def inChunk : Nat := 400

/-! Files. -/

/-- A stored attachment file. -/
inductive OrphanedFile where
  | original (sha256 assetsPath : String)
  | derived (assetsPath : String)
  deriving DecidableEq, Repr

/-- The derived order: originals first, then field by field. -/
def OrphanedFile.Le : OrphanedFile → OrphanedFile → Prop
  | .original sha path, .original sha' path' => sha < sha' ∨ (sha = sha' ∧ path ≤ path')
  | .original _ _, .derived _ => True
  | .derived _, .original _ _ => False
  | .derived path, .derived path' => path ≤ path'

instance : DecidableRel OrphanedFile.Le
  | .original _ _, .original _ _ => inferInstanceAs (Decidable (_ ∨ _))
  | .original _ _, .derived _ => inferInstanceAs (Decidable True)
  | .derived _, .original _ _ => inferInstanceAs (Decidable False)
  | .derived _, .derived _ => inferInstanceAs (Decidable (_ ≤ _))

/-- One attachment's stored files: sha256, assets_path, derived_sha256, derived_assets_path. -/
structure AttachmentFilesRow where
  sha256 : Option String
  assetsPath : Option String
  derivedSha256 : Option String
  derivedAssetsPath : Option String
  deriving DecidableEq, Repr

def filesRow (a : AttachmentRow) (p : Preview) : AttachmentFilesRow :=
  ⟨a.sha256, a.assetsPath, p.derivedSha256, p.derivedAssetsPath⟩

/-- The column a reference is looked up in. -/
inductive Column where
  | sha256
  | derivedSha256
  deriving DecidableEq, Repr

def Column.read (column : Column) (row : AttachmentFilesRow) : Option String :=
  match column with
  | .sha256 => row.sha256
  | .derivedSha256 => row.derivedSha256

/-- The files of the attachments of a chunk's conversations. -/
def candidates (v : Vault) (chunk : List Int) : List AttachmentFilesRow :=
  ((v.db.attachments.rows.filter (fun a =>
      v.db.messages.rows.any (fun m => m.id = a.messageId ∧ m.conversationId ∈ chunk) &&
        (a.sha256.isSome || (v.previews a.id).derivedSha256.isSome))).map
    (fun a => filesRow a (v.previews a.id))).dedup

/-- Whether any attachment of the account, promoted or in staging, still carries a digest in a
column. -/
def assetIsReferenced (accountId : Int) (column : Column) (sha256 : String) (v : Vault) : Bool :=
  v.db.attachments.rows.any (fun a =>
      v.db.messages.rows.any (fun m => m.id = a.messageId ∧ m.accountId = accountId) &&
        column.read (filesRow a (v.previews a.id)) = some sha256) ||
    v.staging.attachments.rows.any (fun a =>
      v.staging.messages.rows.any (fun m => m.id = a.messageId ∧ m.accountId = accountId) &&
        column.read (filesRow a (v.stagedPreviews a.id)) = some sha256)

/-- The files of one candidate that nothing points at. -/
def orphanedOf (accountId : Int) (v : Vault) (row : AttachmentFilesRow) : List OrphanedFile :=
  (match row.sha256, row.assetsPath with
    | some sha256, some assetsPath =>
      if assetIsReferenced accountId .sha256 sha256 v then [] else [.original sha256 assetsPath]
    | _, _ => []) ++
  (match row.derivedSha256, row.derivedAssetsPath with
    | some derivedSha256, some assetsPath =>
      if assetIsReferenced accountId .derivedSha256 derivedSha256 v then [] else [.derived assetsPath]
    | _, _ => [])

/-- The files among the candidates that no attachment of the account points at any more, sorted,
each once. -/
def orphanedFiles (accountId : Int) (rows : List AttachmentFilesRow) (v : Vault) :
    List OrphanedFile :=
  ((rows.flatMap (orphanedOf accountId v)).insertionSort OrphanedFile.Le).destutter (· ≠ ·)

/-! Conversations. -/

/-- Whether the statement that deletes conversations by a list of ids takes one. -/
def isTaken (accountId : Int) (v : Vault) (chunk : List Int) (c : ConversationRow) : Bool :=
  c.accountId = accountId ∧ c.id ∈ chunk ∧ (accountId, c.id) ∈ v.trashedConversations

/-- One chunk of ids: the conversations go first, while their markers still say they are in the
trash, and then the markers. -/
def deleteChunk (accountId : Int) (v : Vault) (chunk : List Int) : Vault :=
  { v with
    db := (v.db.conversations.rows.filter (isTaken accountId v chunk)).foldl Db.deleteConversation v.db
    trashedConversations :=
      v.trashedConversations.filter (fun q => ¬ (q.1 = accountId ∧ q.2 ∈ chunk)) }

/-- Deletes those of the ids that are the account's trashed conversations, and reports the files
that nothing references any more. -/
def deleteConversations (accountId : Int) (ids : List Int) (v : Vault) : Vault × List OrphanedFile :=
  if ids.isEmpty then (v, [])
  else
    let rows := (ids.toChunks inChunk).flatMap (candidates v)
    let v := (ids.toChunks inChunk).foldl (deleteChunk accountId) v
    (v, orphanedFiles accountId rows v)

/-! Contacts. -/

/-- A contact made Unknown. -/
def forgotten (accountId : Int) (chunk : List Int) : Change ContactRow where
  apply c :=
    if c.accountId = accountId ∧ c.id ∈ chunk then { c with preferredName := "", origin := .imported }
    else c
  id_apply c := by
    split <;> rfl
  key_apply c := by
    split <;> exact Or.inl rfl

def forgetChunk (accountId : Int) (v : Vault) (chunk : List Int) : Vault :=
  { v with
    book := { v.book with
      contacts := v.book.contacts.update (forgotten accountId chunk)
      trashedContacts :=
        v.book.trashedContacts.filter (fun q => ¬ (q.1 = accountId ∧ q.2 ∈ chunk)) }
    groupMembers := v.groupMembers.filter (fun q => ¬ v.book.contacts.rows.any (fun c =>
      c.id = q.1 ∧ c.accountId = accountId ∧ c.id ∈ chunk)) }

/-- Makes contacts Unknown again. Their identities stay linked. -/
def forgetContacts (accountId : Int) (ids : List Int) (v : Vault) : Vault :=
  if ids.isEmpty then v else (ids.toChunks inChunk).foldl (forgetChunk accountId) v

/-- Removes every trash marker of the account. -/
def purgeAccount (accountId : Int) (v : Vault) : Vault :=
  { v with
    book := { v.book with
      trashedContacts := v.book.trashedContacts.filter (fun q => q.1 ≠ accountId) }
    trashedConversations := v.trashedConversations.filter (fun q => q.1 ≠ accountId) }

/-! What the routes ask for. -/

/-- A thing that can be put in the trash, named by id. -/
inductive Trashable where
  | conversation (id : Int)
  | contact (id : Int)
  deriving DecidableEq, Repr

def Trashable.isOwned (accountId : Int) (v : Vault) : Trashable → Bool
  | .conversation id => v.db.conversations.rows.any (fun c => c.id = id ∧ c.accountId = accountId)
  | .contact id => v.book.contacts.rows.any (fun c => c.id = id ∧ c.accountId = accountId)

def Trashable.isTrashed (accountId : Int) (v : Vault) : Trashable → Bool
  | .conversation id => v.trashedConversations.contains (accountId, id)
  | .contact id => v.book.trashedContacts.contains (accountId, id)

inductive DeleteOutcome where
  | deleted (orphaned : List OrphanedFile)
  | notOwned
  | notTrashed
  deriving DecidableEq, Repr

/-- Permanently deletes a trashed conversation, or makes a trashed contact Unknown again. -/
def deleteTrashed (accountId : Int) (target : Trashable) (v : Vault) : Vault × DeleteOutcome :=
  if !target.isOwned accountId v then (v, .notOwned)
  else if !target.isTrashed accountId v then (v, .notTrashed)
  else
    match target with
    | .conversation id =>
      let (v, orphaned) := deleteConversations accountId [id] v
      (v, .deleted orphaned)
    | .contact id => (forgetContacts accountId [id] v, .deleted [])

structure EmptiedTrash where
  orphaned : List OrphanedFile
  conversations : Nat
  contacts : Nat
  deriving DecidableEq, Repr

/-- The account's trashed conversations that are there, in id order. -/
def trashedConversationIds (accountId : Int) (v : Vault) : List Int :=
  ((v.trashedConversations.filter (fun q => q.1 = accountId ∧
    v.db.conversations.rows.any (fun c => c.id = q.2 ∧ c.accountId = q.1))).map Prod.snd).insertionSort
      (· ≤ ·)

/-- The account's trashed contacts that are there, in id order. -/
def trashedContactIds (accountId : Int) (v : Vault) : List Int :=
  ((v.book.trashedContacts.filter (fun q => q.1 = accountId ∧
    v.book.contacts.rows.any (fun c => c.id = q.2 ∧ c.accountId = q.1))).map Prod.snd).insertionSort
      (· ≤ ·)

/-- Deletes every trashed conversation, makes every trashed contact Unknown, and clears both
marker tables. -/
def emptyTrash (accountId : Int) (v : Vault) : Vault × EmptiedTrash :=
  let conversationIds := trashedConversationIds accountId v
  let contactIds := trashedContactIds accountId v
  let (v, orphaned) := deleteConversations accountId conversationIds v
  let v := purgeAccount accountId (forgetContacts accountId contactIds v)
  (v, ⟨orphaned, conversationIds.length, contactIds.length⟩)

/-! What a deleted conversation takes with it. -/

section
variable {db db' : Db}

/-- The messages of conversations. -/
def messagesOf (gone : Int → Bool) (db : Db) (i : Int) : Bool :=
  db.messages.rows.any (fun m => m.id = i ∧ gone m.conversationId)

/-- The tables without some conversations: their participants and messages go, and what hangs off
the messages; a flag that points at one of them is cleared. -/
structure Without (gone : Int → Bool) (db db' : Db) : Prop where
  conversations : db'.conversations.rows = db.conversations.rows.filter (fun c => !gone c.id)
  participants : db'.participants.rows =
    db.participants.rows.filter (fun p => !gone p.conversationId)
  messages : db'.messages.rows = (db.messages.rows.filter (fun m => !gone m.conversationId)).map
    (Db.clearDuplicateOf (messagesOf gone db)).apply
  attachments : db'.attachments.rows =
    db.attachments.rows.filter (fun a => !messagesOf gone db a.messageId)
  tapbacks : db'.tapbacks.rows = db.tapbacks.rows.filter (fun t => !messagesOf gone db t.messageId)

theorem messagesOf_iff {gone : Int → Bool} {i : Int} : messagesOf gone db i = true ↔
    ∃ m ∈ db.messages.rows, m.id = i ∧ gone m.conversationId = true := by
  unfold messagesOf
  rw [List.any_eq_true]
  exact exists_congr fun m => and_congr_right fun _ => decide_eq_true_iff

theorem messagesOf_of_mem {gone : Int → Bool} {m : MessageRow} (hm : m ∈ db.messages.rows) :
    messagesOf gone db m.id = gone m.conversationId := by
  apply Bool.eq_iff_iff.mpr
  rw [messagesOf_iff]
  constructor
  · rintro ⟨m', hm', hid, hgone⟩
    rw [← Table.eq_of_id_eq hm' hm hid]
    exact hgone
  · exact fun hgone => ⟨m, hm, rfl, hgone⟩

theorem filter_true {α : Type} (l : List α) : l.filter (fun _ => !false) = l :=
  List.filter_eq_self.mpr fun _ _ => rfl

theorem without_none (db : Db) : Without (fun _ => false) db db := by
  have hnone : ∀ i, messagesOf (fun _ => false) db i = false := by
    intro i
    apply Bool.eq_false_iff.mpr
    intro h
    obtain ⟨m, -, -, hgone⟩ := messagesOf_iff.mp h
    cases hgone
  refine ⟨(filter_true _).symm, (filter_true _).symm, ?_, ?_, ?_⟩
  · rw [filter_true]
    refine ((List.map_congr_left fun m _ => ?_).trans (List.map_id _)).symm
    have hany : m.duplicateOf.any (messagesOf (fun _ => false) db) = false := by
      cases m.duplicateOf with
      | none => rfl
      | some i => exact hnone i
    exact if_neg (Bool.eq_false_iff.mp hany)
  · simp only [hnone, filter_true]
  · simp only [hnone, filter_true]

/-- Some conversations deleted, and then some more. -/
theorem Without.trans {gone gone' : Int → Bool} {db₁ : Db} (h : Without gone db db₁)
    (h' : Without gone' db₁ db') : Without (fun i => gone i || gone' i) db db' := by
  have hmsg : ∀ i, messagesOf (fun i => gone i || gone' i) db i =
      (messagesOf gone db i || messagesOf gone' db₁ i) := by
    intro i
    apply Bool.eq_iff_iff.mpr
    rw [Bool.or_eq_true, messagesOf_iff, messagesOf_iff, messagesOf_iff]
    constructor
    · rintro ⟨m, hm, hid, hgone⟩
      by_cases hfirst : gone m.conversationId = true
      · exact .inl ⟨m, hm, hid, hfirst⟩
      · have hsame := sameBut_clearDuplicateOf (messagesOf gone db) m
        refine .inr ⟨(Db.clearDuplicateOf (messagesOf gone db)).apply m, ?_, ?_, ?_⟩
        · rw [h.messages]
          refine List.mem_map_of_mem (List.mem_filter.mpr ⟨hm, ?_⟩)
          rw [Bool.not_eq_true] at hfirst
          rw [hfirst]
          rfl
        · exact hsame.id_eq.trans hid
        · rw [hsame.conversationId_eq]
          exact (Bool.or_eq_true _ _ ▸ hgone).resolve_left hfirst
    · rintro (⟨m, hm, hid, hgone⟩ | ⟨m₁, hm₁, hid, hgone⟩)
      · exact ⟨m, hm, hid, by rw [hgone]; rfl⟩
      · rw [h.messages] at hm₁
        obtain ⟨m, hm, rfl⟩ := List.mem_map.mp hm₁
        have hsame := sameBut_clearDuplicateOf (messagesOf gone db) m
        refine ⟨m, (List.mem_filter.mp hm).1, hsame.id_eq.symm.trans hid, ?_⟩
        rw [hsame.conversationId_eq] at hgone
        rw [hgone, Bool.or_true]
  constructor
  · rw [h'.conversations, h.conversations, List.filter_filter]
    refine List.filter_congr fun c _ => ?_
    rw [Bool.not_or, Bool.and_comm]
  · rw [h'.participants, h.participants, List.filter_filter]
    refine List.filter_congr fun p _ => ?_
    rw [Bool.not_or, Bool.and_comm]
  · have hclear : (Db.clearDuplicateOf (messagesOf gone' db₁)).apply ∘
        (Db.clearDuplicateOf (messagesOf gone db)).apply =
          (Db.clearDuplicateOf (messagesOf (fun i => gone i || gone' i) db)).apply := by
      funext m
      rw [Function.comp_apply, Db.clearDuplicateOf_twice]
      exact congrArg (fun c : Change MessageRow => c.apply m)
        (Db.clearDuplicateOf_congr fun i => (hmsg i).symm)
    rw [h'.messages, h.messages, List.filter_map, List.map_map, List.filter_filter, hclear]
    congr 1
    refine List.filter_congr fun m _ => ?_
    rw [Function.comp_apply, (sameBut_clearDuplicateOf (messagesOf gone db) m).conversationId_eq,
      Bool.not_or, Bool.and_comm]
  · rw [h'.attachments, h.attachments, List.filter_filter]
    refine List.filter_congr fun a _ => ?_
    rw [hmsg, Bool.not_or, Bool.and_comm]
  · rw [h'.tapbacks, h.tapbacks, List.filter_filter]
    refine List.filter_congr fun t _ => ?_
    rw [hmsg, Bool.not_or, Bool.and_comm]

theorem foldl_deleteAttachment_rows (as : List AttachmentRow) (db : Db) :
    (as.foldl Db.deleteAttachment db).attachments.rows =
        db.attachments.rows.filter (fun a => a.id ∉ as.map AttachmentRow.id) ∧
      (as.foldl Db.deleteAttachment db).tapbacks = db.tapbacks ∧
      (as.foldl Db.deleteAttachment db).participants = db.participants := by
  induction as generalizing db with
  | nil => exact ⟨(List.filter_eq_self.mpr fun a _ => by simp).symm, rfl, rfl⟩
  | cons a as ih =>
    have hone : (db.deleteAttachment a).attachments.rows =
          db.attachments.rows.filter (fun a' => !decide (a'.id = a.id)) ∧
        (db.deleteAttachment a).tapbacks = db.tapbacks ∧
        (db.deleteAttachment a).participants = db.participants := by
      unfold Db.deleteAttachment
      simp only
      split <;> exact ⟨rfl, rfl, rfl⟩
    obtain ⟨hrows, htaps, hparts⟩ := ih (db.deleteAttachment a)
    refine ⟨?_, htaps.trans hone.2.1, hparts.trans hone.2.2⟩
    rw [List.foldl_cons, hrows, hone.1, List.filter_filter]
    refine List.filter_congr fun a' _ => ?_
    by_cases h : a'.id = a.id <;> simp [h]

theorem deleteMessage_rows (db : Db) (m : MessageRow) :
    (db.deleteMessage m).attachments.rows =
        db.attachments.rows.filter (fun a => a.messageId ≠ m.id) ∧
      (db.deleteMessage m).tapbacks.rows = db.tapbacks.rows.filter (fun t => t.messageId ≠ m.id) ∧
      (db.deleteMessage m).participants = db.participants := by
  set db₁ := db.setMessages ((db.messages.delete (fun m' : MessageRow => m'.id = m.id)).update
    (Db.clearDuplicateOf (fun id => id = m.id))) with hdb₁
  obtain ⟨hrows, htaps, hparts⟩ :=
    foldl_deleteAttachment_rows (db₁.attachments.rows.filter (fun a => a.messageId = m.id)) db₁
  have hatt : db₁.attachments.rows.filter (fun a =>
      a.id ∉ (db₁.attachments.rows.filter (fun a => a.messageId = m.id)).map AttachmentRow.id) =
        db.attachments.rows.filter (fun a => a.messageId ≠ m.id) := by
    refine List.filter_congr fun a ha => decide_eq_decide.mpr (not_congr ?_)
    constructor
    · intro hmem
      obtain ⟨a', ha', hid⟩ := List.mem_map.mp hmem
      obtain ⟨ha', hmsg⟩ := List.mem_filter.mp ha'
      rw [← Table.eq_of_id_eq ha' ha hid]
      exact of_decide_eq_true hmsg
    · exact fun hmsg => List.mem_map_of_mem (List.mem_filter.mpr ⟨ha, decide_eq_true hmsg⟩)
  have htap : ∀ t : Table TapbackRow, (t.delete (fun t : TapbackRow => t.messageId = m.id)).rows =
      t.rows.filter (fun t => t.messageId ≠ m.id) := by
    intro t
    rw [rows_delete]
    exact List.filter_congr fun x _ => (decide_not).symm
  have hkept := congrArg (fun t : Table TapbackRow => t.rows.filter (fun t => t.messageId ≠ m.id)) htaps
  unfold Db.deleteMessage
  simp only
  split
  · exact ⟨hrows.trans hatt, (htap _).trans hkept, hparts⟩
  · exact ⟨hrows.trans hatt, (htap _).trans hkept, hparts⟩

theorem foldl_deleteMessage_rows (ms : List MessageRow) (db : Db) :
    (ms.foldl Db.deleteMessage db).attachments.rows =
        db.attachments.rows.filter (fun a => a.messageId ∉ ms.map MessageRow.id) ∧
      (ms.foldl Db.deleteMessage db).tapbacks.rows =
        db.tapbacks.rows.filter (fun t => t.messageId ∉ ms.map MessageRow.id) ∧
      (ms.foldl Db.deleteMessage db).participants = db.participants := by
  induction ms generalizing db with
  | nil =>
    exact ⟨(List.filter_eq_self.mpr fun a _ => by simp).symm,
      (List.filter_eq_self.mpr fun t _ => by simp).symm, rfl⟩
  | cons m ms ih =>
    obtain ⟨hatt, htap, hpart⟩ := ih (db.deleteMessage m)
    obtain ⟨hatt₁, htap₁, hpart₁⟩ := deleteMessage_rows db m
    refine ⟨?_, ?_, hpart.trans hpart₁⟩
    · rw [List.foldl_cons, hatt, hatt₁, List.filter_filter]
      refine List.filter_congr fun a _ => ?_
      by_cases h : a.messageId = m.id <;> simp [h]
    · rw [List.foldl_cons, htap, htap₁, List.filter_filter]
      refine List.filter_congr fun t _ => ?_
      by_cases h : t.messageId = m.id <;> simp [h]

/-- **One conversation deleted.** -/
theorem without_deleteConversation (db : Db) (c : ConversationRow) :
    Without (fun i => i = c.id) db (db.deleteConversation c) := by
  set db₁ := (db.setConversations
    (db.conversations.delete (fun c' : ConversationRow => c'.id = c.id))).setParticipants
      (db.participants.delete (fun p : ParticipantRow => p.conversationId = c.id)) with hdb₁
  set ms := db₁.messages.rows.filter (fun m => m.conversationId = c.id) with hms
  have hdelete : db.deleteConversation c = ms.foldl Db.deleteMessage db₁ := rfl
  obtain ⟨hmsg, hconv⟩ := Db.rows_foldl_deleteMessage ms db₁
  obtain ⟨hatt, htap, hpart⟩ := foldl_deleteMessage_rows ms db₁
  have hids : ∀ i, decide (i ∈ ms.map MessageRow.id) =
      messagesOf (fun i => decide (i = c.id)) db i := by
    intro i
    apply Bool.eq_iff_iff.mpr
    rw [decide_eq_true_iff, messagesOf_iff, List.mem_map]
    refine exists_congr fun m => ?_
    rw [hms, List.mem_filter]
    exact ⟨fun ⟨⟨hm, hc⟩, hid⟩ => ⟨hm, hid, hc⟩, fun ⟨hm, hid, hc⟩ => ⟨⟨hm, hc⟩, hid⟩⟩
  constructor
  · rw [hdelete, hconv]
    rfl
  · rw [hdelete, hpart]
    rfl
  · rw [hdelete, hmsg]
    have hclear := Db.clearDuplicateOf_congr hids
    rw [hclear]
    congr 1
    refine List.filter_congr fun m hm => ?_
    have hgone : messagesOf (fun i => decide (i = c.id)) db m.id = decide (m.conversationId = c.id) :=
      messagesOf_of_mem hm
    rw [decide_not, hids, hgone]
  · rw [hdelete, hatt]
    refine List.filter_congr fun a _ => ?_
    rw [decide_not, hids]
  · rw [hdelete, htap]
    refine List.filter_congr fun t _ => ?_
    rw [decide_not, hids]

theorem without_deleteAll (cs : List ConversationRow) (db : Db) :
    Without (fun i => i ∈ cs.map ConversationRow.id) db (cs.foldl Db.deleteConversation db) := by
  induction cs generalizing db with
  | nil =>
    have hnone : (fun i : Int => decide (i ∈ ([] : List ConversationRow).map ConversationRow.id)) =
        fun _ => false := funext fun i => decide_eq_false List.not_mem_nil
    rw [hnone]
    exact without_none db
  | cons c cs ih =>
    have hboth := (without_deleteConversation db c).trans (ih (db.deleteConversation c))
    have hgone : (fun i : Int => decide (i ∈ (c :: cs).map ConversationRow.id)) =
        fun i => decide (i = c.id) || decide (i ∈ cs.map ConversationRow.id) := by
      funext i
      rw [List.map_cons, ← Bool.decide_or]
      exact decide_eq_decide.mpr List.mem_cons
    rw [hgone]
    exact hboth

end

/-! A set of conversations. -/

section
variable {accountId : Int} {ids : List Int} {v v' : Vault}

/-- The conversations of a set that go: the account's that are in the trash. -/
def gone (accountId : Int) (v : Vault) (ids : List Int) (i : Int) : Bool :=
  v.db.conversations.rows.any (fun c => c.id = i && isTaken accountId v ids c)

theorem gone_iff {i : Int} : gone accountId v ids i = true ↔ i ∈ ids ∧
    (accountId, i) ∈ v.trashedConversations ∧
      ∃ c ∈ v.db.conversations.rows, c.id = i ∧ c.accountId = accountId := by
  unfold gone isTaken
  rw [List.any_eq_true]
  constructor
  · rintro ⟨c, hc, htaken⟩
    rw [Bool.and_eq_true, decide_eq_true_iff, decide_eq_true_iff] at htaken
    obtain ⟨rfl, hacc, hmem, htrashed⟩ := htaken
    exact ⟨hmem, htrashed, c, hc, rfl, hacc⟩
  · rintro ⟨hmem, htrashed, c, hc, rfl, hacc⟩
    refine ⟨c, hc, ?_⟩
    rw [Bool.and_eq_true, decide_eq_true_iff, decide_eq_true_iff]
    exact ⟨rfl, hacc, hmem, htrashed⟩

/-- What deleting a set of conversations leaves, but for the files. -/
structure Deletes (accountId : Int) (ids : List Int) (v v' : Vault) : Prop where
  db : Without (gone accountId v ids) v.db v'.db
  markers : v'.trashedConversations =
    v.trashedConversations.filter (fun q => ¬ (q.1 = accountId ∧ q.2 ∈ ids))
  staging : v'.staging = v.staging
  book : v'.book = v.book
  previews : v'.previews = v.previews
  stagedPreviews : v'.stagedPreviews = v.stagedPreviews
  groupMembers : v'.groupMembers = v.groupMembers

theorem deletes_chunk (accountId : Int) (v : Vault) (chunk : List Int) :
    Deletes accountId chunk v (deleteChunk accountId v chunk) := by
  refine ⟨?_, rfl, rfl, rfl, rfl, rfl, rfl⟩
  have hgone : gone accountId v chunk = fun i => decide (i ∈
      (v.db.conversations.rows.filter (isTaken accountId v chunk)).map ConversationRow.id) := by
    funext i
    apply Bool.eq_iff_iff.mpr
    unfold gone
    rw [List.any_eq_true, decide_eq_true_iff, List.mem_map]
    refine exists_congr fun c => ?_
    rw [List.mem_filter, Bool.and_eq_true, decide_eq_true_iff]
    exact ⟨fun ⟨hc, hid, htaken⟩ => ⟨⟨hc, htaken⟩, hid⟩, fun ⟨⟨hc, htaken⟩, hid⟩ => ⟨hc, hid, htaken⟩⟩
  rw [hgone]
  exact without_deleteAll _ v.db

theorem Deletes.append {ids' : List Int} {v₁ : Vault} (h : Deletes accountId ids v v₁)
    (h' : Deletes accountId ids' v₁ v') : Deletes accountId (ids ++ ids') v v' := by
  refine ⟨?_, ?_, h'.staging.trans h.staging, h'.book.trans h.book, h'.previews.trans h.previews,
    h'.stagedPreviews.trans h.stagedPreviews, h'.groupMembers.trans h.groupMembers⟩
  · have hgone : gone accountId v (ids ++ ids') =
        fun i => gone accountId v ids i || gone accountId v₁ ids' i := by
      funext i
      apply Bool.eq_iff_iff.mpr
      rw [Bool.or_eq_true, gone_iff, gone_iff, gone_iff, List.mem_append]
      constructor
      · rintro ⟨hmem, htrashed, c, hc, rfl, hacc⟩
        by_cases hfirst : c.id ∈ ids
        · exact .inl ⟨hfirst, htrashed, c, hc, rfl, hacc⟩
        · -- The first set has left the conversation and its marker alone.
          refine .inr ⟨hmem.resolve_left hfirst, ?_, c, ?_, rfl, hacc⟩
          · rw [h.markers]
            exact List.mem_filter.mpr ⟨htrashed, decide_eq_true fun hq => hfirst hq.2⟩
          · rw [h.db.conversations]
            refine List.mem_filter.mpr ⟨hc, ?_⟩
            rw [Bool.not_eq_true']
            exact Bool.eq_false_iff.mpr fun hgone => hfirst (gone_iff.mp hgone).1
      · rintro (⟨hmem, htrashed, hc⟩ | ⟨hmem, htrashed, c, hc, hid, hacc⟩)
        · exact ⟨.inl hmem, htrashed, hc⟩
        · rw [h.markers] at htrashed
          rw [h.db.conversations] at hc
          exact ⟨.inr hmem, (List.mem_filter.mp htrashed).1, c, (List.mem_filter.mp hc).1, hid, hacc⟩
    rw [hgone]
    exact h.db.trans h'.db
  · rw [h'.markers, h.markers, List.filter_filter]
    refine List.filter_congr fun q _ => ?_
    rw [← Bool.decide_and]
    refine decide_eq_decide.mpr ?_
    rw [List.mem_append, and_or_left, not_or, and_comm]

theorem deletes_none (accountId : Int) (v : Vault) : Deletes accountId [] v v := by
  refine ⟨?_, ?_, rfl, rfl, rfl, rfl, rfl⟩
  · have hgone : gone accountId v [] = fun _ => false := by
      funext i
      exact Bool.eq_false_iff.mpr fun h => List.not_mem_nil (gone_iff.mp h).1
    rw [hgone]
    exact without_none v.db
  · refine (List.filter_eq_self.mpr fun q _ => ?_).symm
    rw [decide_eq_true_iff]
    exact fun hq => List.not_mem_nil hq.2

/-- **Every chunk deleted.** -/
theorem deletes_chunks (accountId : Int) (chunks : List (List Int)) (v : Vault) :
    Deletes accountId chunks.flatten v (chunks.foldl (deleteChunk accountId) v) := by
  induction chunks generalizing v with
  | nil => exact deletes_none accountId v
  | cons chunk chunks ih => exact (deletes_chunk accountId v chunk).append (ih _)

/-- **The set deleted, chunk by chunk.** -/
theorem deletes_deleteConversations (accountId : Int) (ids : List Int) (v : Vault) :
    Deletes accountId ids v (deleteConversations accountId ids v).1 := by
  unfold deleteConversations
  split
  · next hempty =>
    rw [List.isEmpty_iff.mp hempty]
    exact deletes_none accountId v
  · have hall := deletes_chunks accountId (ids.toChunks inChunk) v
    rw [Packing.flatten_toChunks] at hall
    exact hall

theorem Deletes.mem_attachments (h : Deletes accountId ids v v') {a : AttachmentRow} :
    a ∈ v'.db.attachments.rows ↔ a ∈ v.db.attachments.rows ∧
      ∀ m ∈ v.db.messages.rows, m.id = a.messageId → gone accountId v ids m.conversationId = false := by
  rw [h.db.attachments, List.mem_filter, Bool.not_eq_true', Bool.eq_false_iff, ne_eq, messagesOf_iff]
  refine and_congr_right fun _ => ?_
  constructor
  · exact fun hnone m hm hid => Bool.eq_false_iff.mpr fun hgone => hnone ⟨m, hm, hid, hgone⟩
  · rintro hkept ⟨m, hm, hid, hgone⟩
    rw [hkept m hm hid] at hgone
    cases hgone

/-- A message of a conversation that stays is there, with its account. -/
theorem Deletes.exists_message (h : Deletes accountId ids v v') {m : MessageRow}
    (hm : m ∈ v.db.messages.rows) (hkept : gone accountId v ids m.conversationId = false) :
    ∃ m' ∈ v'.db.messages.rows, m'.id = m.id ∧ m'.accountId = m.accountId := by
  have hsame := sameBut_clearDuplicateOf (messagesOf (gone accountId v ids) v.db) m
  refine ⟨_, ?_, hsame.id_eq, hsame.accountId_eq⟩
  rw [h.db.messages]
  refine List.mem_map_of_mem (List.mem_filter.mpr ⟨hm, ?_⟩)
  rw [hkept]
  rfl

end

/-! The files. -/

namespace OrphanedFile

theorem Le.total (f g : OrphanedFile) : f.Le g ∨ g.Le f := by
  cases f with
  | original sha path =>
    cases g with
    | original sha' path' =>
      rcases lt_trichotomy sha sha' with hlt | rfl | hlt
      · exact .inl (.inl hlt)
      · exact (le_total path path').imp (fun h => .inr ⟨rfl, h⟩) (fun h => .inr ⟨rfl, h⟩)
      · exact .inr (.inl hlt)
    | derived path' => exact .inl trivial
  | derived path =>
    cases g with
    | original sha' path' => exact .inr trivial
    | derived path' => exact le_total path path'

theorem Le.trans {f g k : OrphanedFile} (h : f.Le g) (h' : g.Le k) : f.Le k := by
  cases f <;> cases g <;> cases k <;> simp only [OrphanedFile.Le] at h h' ⊢
  · rcases h with h | ⟨rfl, h⟩
    · rcases h' with h' | ⟨rfl, -⟩
      · exact .inl (h.trans h')
      · exact .inl h
    · exact h'.imp id (fun h' => ⟨h'.1, h.trans h'.2⟩)
  · exact h.trans h'

theorem Le.antisymm {f g : OrphanedFile} (h : f.Le g) (h' : g.Le f) : f = g := by
  cases f <;> cases g <;> simp only [OrphanedFile.Le] at h h' ⊢
  · rcases h with h | ⟨rfl, h⟩
    · rcases h' with h' | ⟨rfl, -⟩
      · exact absurd (h.trans h') (lt_irrefl _)
      · exact absurd h (lt_irrefl _)
    · rcases h' with h' | ⟨-, h'⟩
      · exact absurd h' (lt_irrefl _)
      · rw [h.antisymm h']
  · rw [h.antisymm h']

instance : Std.Total OrphanedFile.Le := ⟨Le.total⟩

instance : IsTrans OrphanedFile OrphanedFile.Le := ⟨fun _ _ _ => Le.trans⟩

instance : Std.Antisymm OrphanedFile.Le := ⟨fun _ _ => Le.antisymm⟩

end OrphanedFile

section
variable {accountId : Int} {ids : List Int} {v v' : Vault} {f : OrphanedFile}

/-- An attachment of the account, promoted or in staging, carries a digest in a column. -/
def Referenced (accountId : Int) (column : Column) (sha256 : String) (v : Vault) : Prop :=
  (∃ a ∈ v.db.attachments.rows, ∃ m ∈ v.db.messages.rows, m.id = a.messageId ∧
      m.accountId = accountId ∧ column.read (filesRow a (v.previews a.id)) = some sha256) ∨
    ∃ a ∈ v.staging.attachments.rows, ∃ m ∈ v.staging.messages.rows, m.id = a.messageId ∧
      m.accountId = accountId ∧ column.read (filesRow a (v.stagedPreviews a.id)) = some sha256

/-- What an attachment names a file by: an original by its digest and its path, a Preview by its
path, under the digest beside it. -/
def AttachmentFilesRow.Names (row : AttachmentFilesRow) (column : Column) (sha256 : String) :
    OrphanedFile → Prop
  | .original sha256' assetsPath => column = .sha256 ∧ sha256' = sha256 ∧
      row.sha256 = some sha256 ∧ row.assetsPath = some assetsPath
  | .derived assetsPath => column = .derivedSha256 ∧
      row.derivedSha256 = some sha256 ∧ row.derivedAssetsPath = some assetsPath

/-- A deleted attachment named the file, and no attachment of the account names its digest any
more. -/
def Orphaned (accountId : Int) (v v' : Vault) (f : OrphanedFile) : Prop :=
  ∃ column sha256, (∃ a ∈ v.db.attachments.rows, a ∉ v'.db.attachments.rows ∧
    (filesRow a (v.previews a.id)).Names column sha256 f) ∧ ¬ Referenced accountId column sha256 v'

/-- An attachment of a conversation of the set named the file, and no attachment of the account
names its digest any more. -/
def Reported (accountId : Int) (ids : List Int) (v v' : Vault) (f : OrphanedFile) : Prop :=
  ∃ column sha256, (∃ a ∈ v.db.attachments.rows, (∃ m ∈ v.db.messages.rows, m.id = a.messageId ∧
    m.conversationId ∈ ids) ∧ (filesRow a (v.previews a.id)).Names column sha256 f) ∧
      ¬ Referenced accountId column sha256 v'

theorem orphaned_congr {v₁ : Vault} (hdb : v'.db = v₁.db) (hstaging : v'.staging = v₁.staging)
    (hpreviews : v'.previews = v₁.previews) (hstaged : v'.stagedPreviews = v₁.stagedPreviews) :
    Orphaned accountId v v' f ↔ Orphaned accountId v v₁ f := by
  unfold Orphaned Referenced
  rw [hdb, hstaging, hpreviews, hstaged]

theorem AttachmentFilesRow.Names.read {row : AttachmentFilesRow} {column : Column} {sha256 : String}
    (h : row.Names column sha256 f) : column.read row = some sha256 := by
  cases f with
  | original sha256' assetsPath =>
    obtain ⟨rfl, -, hsha, -⟩ := h
    exact hsha
  | derived assetsPath =>
    obtain ⟨rfl, hsha, -⟩ := h
    exact hsha

theorem AttachmentFilesRow.Names.isSome {row : AttachmentFilesRow} {column : Column}
    {sha256 : String} (h : row.Names column sha256 f) :
    (row.sha256.isSome || row.derivedSha256.isSome) = true := by
  have hread := h.read
  cases column with
  | sha256 =>
    have hsha : row.sha256 = some sha256 := hread
    rw [hsha]
    rfl
  | derivedSha256 =>
    have hsha : row.derivedSha256 = some sha256 := hread
    rw [hsha]
    exact Bool.or_true _

theorem assetIsReferenced_iff {column : Column} {sha256 : String} :
    assetIsReferenced accountId column sha256 v = true ↔ Referenced accountId column sha256 v := by
  unfold assetIsReferenced Referenced
  simp only [Bool.or_eq_true, List.any_eq_true, Bool.and_eq_true, decide_eq_true_eq]
  constructor
  · rintro (⟨a, ha, ⟨m, hm, hid, hacc⟩, hread⟩ | ⟨a, ha, ⟨m, hm, hid, hacc⟩, hread⟩)
    · exact .inl ⟨a, ha, m, hm, hid, hacc, hread⟩
    · exact .inr ⟨a, ha, m, hm, hid, hacc, hread⟩
  · rintro (⟨a, ha, m, hm, hid, hacc, hread⟩ | ⟨a, ha, m, hm, hid, hacc, hread⟩)
    · exact .inl ⟨a, ha, ⟨m, hm, hid, hacc⟩, hread⟩
    · exact .inr ⟨a, ha, ⟨m, hm, hid, hacc⟩, hread⟩

theorem mem_unless {c : Bool} {file : OrphanedFile} :
    f ∈ (if c then [] else [file]) ↔ c = false ∧ f = file := by
  cases c with
  | true => exact ⟨fun h => absurd h List.not_mem_nil, fun h => absurd h.1 Bool.true_eq_false_eq_False⟩
  | false => exact ⟨fun h => ⟨rfl, List.mem_singleton.mp h⟩, fun h => List.mem_singleton.mpr h.2⟩

theorem mem_orphanedOf {row : AttachmentFilesRow} : f ∈ orphanedOf accountId v row ↔
    ∃ column sha256, row.Names column sha256 f ∧ ¬ Referenced accountId column sha256 v := by
  unfold orphanedOf
  rw [List.mem_append]
  constructor
  · rintro (hf | hf)
    · split at hf
      · next sha256 assetsPath hsha hpath =>
        obtain ⟨hnone, rfl⟩ := mem_unless.mp hf
        refine ⟨.sha256, sha256, ⟨rfl, rfl, hsha, hpath⟩, fun href => ?_⟩
        rw [assetIsReferenced_iff.mpr href] at hnone
        cases hnone
      · cases hf
    · split at hf
      · next derivedSha256 assetsPath hsha hpath =>
        obtain ⟨hnone, rfl⟩ := mem_unless.mp hf
        refine ⟨.derivedSha256, derivedSha256, ⟨rfl, hsha, hpath⟩, fun href => ?_⟩
        rw [assetIsReferenced_iff.mpr href] at hnone
        cases hnone
      · cases hf
  · rintro ⟨column, sha256, hnames, hnone⟩
    have hunread : assetIsReferenced accountId column sha256 v = false :=
      Bool.eq_false_iff.mpr fun href => hnone (assetIsReferenced_iff.mp href)
    cases f with
    | original sha256' assetsPath =>
      obtain ⟨rfl, rfl, hsha, hpath⟩ := hnames
      rw [hsha, hpath]
      exact .inl (mem_unless.mpr ⟨hunread, rfl⟩)
    | derived assetsPath =>
      obtain ⟨rfl, hsha, hpath⟩ := hnames
      rw [hsha, hpath]
      exact .inr (mem_unless.mpr ⟨hunread, rfl⟩)

theorem orphanedFiles_eq_dedup (rows : List AttachmentFilesRow) : orphanedFiles accountId rows v =
    ((rows.flatMap (orphanedOf accountId v)).insertionSort OrphanedFile.Le).dedup :=
  (List.pairwise_insertionSort OrphanedFile.Le _).destutter_eq_dedup

/-- The files reported are those of the candidates that the account's attachments do not name. -/
theorem mem_orphanedFiles {rows : List AttachmentFilesRow} :
    f ∈ orphanedFiles accountId rows v ↔ ∃ row ∈ rows, ∃ column sha256,
      row.Names column sha256 f ∧ ¬ Referenced accountId column sha256 v := by
  rw [orphanedFiles_eq_dedup, List.mem_dedup, List.mem_insertionSort, List.mem_flatMap]
  exact exists_congr fun row => and_congr_right fun _ => mem_orphanedOf

theorem mem_candidates {chunk : List Int} {row : AttachmentFilesRow} : row ∈ candidates v chunk ↔
    ∃ a ∈ v.db.attachments.rows, (∃ m ∈ v.db.messages.rows, m.id = a.messageId ∧
      m.conversationId ∈ chunk) ∧ (row.sha256.isSome || row.derivedSha256.isSome) = true ∧
      filesRow a (v.previews a.id) = row := by
  unfold candidates
  rw [List.mem_dedup, List.mem_map]
  refine exists_congr fun a => ?_
  rw [List.mem_filter, Bool.and_eq_true, List.any_eq_true]
  simp only [decide_eq_true_eq]
  constructor
  · rintro ⟨⟨ha, hm, hsome⟩, rfl⟩
    exact ⟨ha, hm, hsome, rfl⟩
  · rintro ⟨ha, hm, hsome, rfl⟩
    exact ⟨⟨ha, hm, hsome⟩, rfl⟩

/-- **What is reported**, of any set. -/
theorem mem_deleteConversations : f ∈ (deleteConversations accountId ids v).2 ↔
    Reported accountId ids v (deleteConversations accountId ids v).1 f := by
  have hfiles : f ∈ (deleteConversations accountId ids v).2 ↔
      ∃ row ∈ (ids.toChunks inChunk).flatMap (candidates v), ∃ column sha256,
        row.Names column sha256 f ∧
          ¬ Referenced accountId column sha256 (deleteConversations accountId ids v).1 := by
    unfold deleteConversations
    split
    · next hempty =>
      rw [List.isEmpty_iff.mp hempty]
      simp [List.toChunks]
    · exact mem_orphanedFiles
  rw [hfiles]
  generalize (deleteConversations accountId ids v).1 = v'
  constructor
  · rintro ⟨row, hrow, column, sha256, hnames, hnone⟩
    obtain ⟨chunk, hchunk, hrow⟩ := List.mem_flatMap.mp hrow
    obtain ⟨a, ha, ⟨m, hm, hid, hmem⟩, -, rfl⟩ := mem_candidates.mp hrow
    refine ⟨column, sha256, ⟨a, ha, ⟨m, hm, hid, ?_⟩, hnames⟩, hnone⟩
    rw [← Packing.flatten_toChunks inChunk ids]
    exact List.mem_flatten.mpr ⟨chunk, hchunk, hmem⟩
  · rintro ⟨column, sha256, ⟨a, ha, ⟨m, hm, hid, hmem⟩, hnames⟩, hnone⟩
    rw [← Packing.flatten_toChunks inChunk ids] at hmem
    obtain ⟨chunk, hchunk, hmem⟩ := List.mem_flatten.mp hmem
    exact ⟨_, List.mem_flatMap.mpr ⟨chunk, hchunk, mem_candidates.mpr
      ⟨a, ha, ⟨m, hm, hid, hmem⟩, hnames.isSome, rfl⟩⟩, column, sha256, hnames, hnone⟩

/-- **Of a set of the account's own the orphans are reported.** A candidate of a conversation that
stays names its own digest still. -/
theorem orphaned_deleteConversations (howned : v.db.Owned)
    (hids : ∀ c ∈ v.db.conversations.rows, c.id ∈ ids → c.accountId = accountId) :
    f ∈ (deleteConversations accountId ids v).2 ↔
      Orphaned accountId v (deleteConversations accountId ids v).1 f := by
  have hdel := deletes_deleteConversations accountId ids v
  rw [mem_deleteConversations]
  generalize (deleteConversations accountId ids v).1 = v' at hdel ⊢
  constructor
  · rintro ⟨column, sha256, ⟨a, ha, ⟨m, hm, hid, hmem⟩, hnames⟩, hnone⟩
    refine ⟨column, sha256, ⟨a, ha, fun hstill => hnone (.inl ?_), hnames⟩, hnone⟩
    obtain ⟨c, hc, hcid, hcacc⟩ := howned m hm
    have hacc : m.accountId = accountId :=
      hcacc.symm.trans (hids c hc (by rw [hcid]; exact hmem))
    have hkept := (hdel.mem_attachments.mp hstill).2 m hm hid
    obtain ⟨m', hm', hid', hacc'⟩ := hdel.exists_message hm hkept
    refine ⟨a, hstill, m', hm', hid'.trans hid, hacc'.trans hacc, ?_⟩
    rw [hdel.previews]
    exact hnames.read
  · rintro ⟨column, sha256, ⟨a, ha, hdeleted, hnames⟩, hnone⟩
    have hgone : ∃ m ∈ v.db.messages.rows, m.id = a.messageId ∧
        gone accountId v ids m.conversationId = true := by
      by_contra hkept
      refine hdeleted (hdel.mem_attachments.mpr ⟨ha, fun m hm hid => ?_⟩)
      exact Bool.eq_false_iff.mpr fun hgone => hkept ⟨m, hm, hid, hgone⟩
    obtain ⟨m, hm, hid, hgone⟩ := hgone
    exact ⟨column, sha256, ⟨a, ha, ⟨m, hm, hid, (gone_iff.mp hgone).1⟩, hnames⟩, hnone⟩

end

/-! Contacts. -/

section
variable {accountId : Int} {ids : List Int} {v v' : Vault}

theorem forgotten_eq (accountId : Int) (chunk : List Int) (c : ContactRow) :
    ((forgotten accountId chunk).apply c).id = c.id ∧
      ((forgotten accountId chunk).apply c).accountId = c.accountId := by
  unfold forgotten
  simp only
  split <;> exact ⟨rfl, rfl⟩

theorem forgotten_twice (ids ids' : List Int) (c : ContactRow) :
    (forgotten accountId ids').apply ((forgotten accountId ids).apply c) =
      (forgotten accountId (ids ++ ids')).apply c := by
  unfold forgotten
  simp only [List.mem_append]
  by_cases h : c.accountId = accountId ∧ c.id ∈ ids
  · have hboth : c.accountId = accountId ∧ (c.id ∈ ids ∨ c.id ∈ ids') := ⟨h.1, .inl h.2⟩
    rw [if_pos h, if_pos hboth]
    split <;> rfl
  · rw [if_neg h]
    refine if_congr (and_congr_right fun hacc => ?_) rfl rfl
    exact (or_iff_right fun hmem => h ⟨hacc, hmem⟩).symm

/-- What forgetting a set of contacts leaves. -/
structure Forgets (accountId : Int) (ids : List Int) (v v' : Vault) : Prop where
  contacts : v'.book.contacts.rows = v.book.contacts.rows.map (forgotten accountId ids).apply
  markers : v'.book.trashedContacts =
    v.book.trashedContacts.filter (fun q => ¬ (q.1 = accountId ∧ q.2 ∈ ids))
  groupMembers : v'.groupMembers = v.groupMembers.filter (fun q =>
    ¬ v.book.contacts.rows.any (fun c => c.id = q.1 ∧ c.accountId = accountId ∧ c.id ∈ ids))
  rest : v' = { v with
    groupMembers := v'.groupMembers
    book := { v.book with
      contacts := v'.book.contacts
      trashedContacts := v'.book.trashedContacts } }

theorem forgets_chunk (accountId : Int) (v : Vault) (chunk : List Int) :
    Forgets accountId chunk v (forgetChunk accountId v chunk) := ⟨rfl, rfl, rfl, rfl⟩

theorem forgets_none (accountId : Int) (v : Vault) : Forgets accountId [] v v := by
  refine ⟨?_, ?_, ?_, rfl⟩
  · refine ((List.map_congr_left fun c _ => ?_).trans (List.map_id _)).symm
    exact if_neg fun h => List.not_mem_nil h.2
  · refine (List.filter_eq_self.mpr fun q _ => ?_).symm
    rw [decide_eq_true_iff]
    exact fun hq => List.not_mem_nil hq.2
  · refine (List.filter_eq_self.mpr fun q _ => ?_).symm
    rw [decide_eq_true_iff, List.any_eq_true]
    rintro ⟨c, -, hc⟩
    exact List.not_mem_nil (of_decide_eq_true hc).2.2

theorem Forgets.append {ids' : List Int} {v₁ : Vault} (h : Forgets accountId ids v v₁)
    (h' : Forgets accountId ids' v₁ v') : Forgets accountId (ids ++ ids') v v' := by
  refine ⟨?_, ?_, ?_, ?_⟩
  · rw [h'.contacts, h.contacts, List.map_map]
    exact List.map_congr_left fun c _ => forgotten_twice ids ids' c
  · rw [h'.markers, h.markers, List.filter_filter]
    refine List.filter_congr fun q _ => ?_
    rw [← Bool.decide_and]
    refine decide_eq_decide.mpr ?_
    rw [List.mem_append, and_or_left, not_or, and_comm]
  · -- A forgotten contact keeps its id and its account.
    rw [h'.groupMembers, h.groupMembers, List.filter_filter, h.contacts]
    refine List.filter_congr fun q _ => ?_
    rw [← Bool.decide_and, List.any_map]
    refine decide_eq_decide.mpr ?_
    rw [← not_or, or_comm]
    refine not_congr ?_
    simp only [List.any_eq_true, decide_eq_true_eq, Function.comp_apply,
      (forgotten_eq accountId ids _).1, (forgotten_eq accountId ids _).2]
    rw [← exists_or]
    refine exists_congr fun c => ?_
    rw [← and_or_left, ← and_or_left, ← and_or_left, List.mem_append]
  · rw [h'.rest, h.rest]

theorem forgets_chunks (accountId : Int) (chunks : List (List Int)) (v : Vault) :
    Forgets accountId chunks.flatten v (chunks.foldl (forgetChunk accountId) v) := by
  induction chunks generalizing v with
  | nil => exact forgets_none accountId v
  | cons chunk chunks ih => exact (forgets_chunk accountId v chunk).append (ih _)

theorem forgets_forgetContacts (accountId : Int) (ids : List Int) (v : Vault) :
    Forgets accountId ids v (forgetContacts accountId ids v) := by
  unfold forgetContacts
  split
  · next hempty =>
    rw [List.isEmpty_iff.mp hempty]
    exact forgets_none accountId v
  · have hall := forgets_chunks accountId (ids.toChunks inChunk) v
    rw [Packing.flatten_toChunks] at hall
    exact hall

end

/-! What the routes ask for. -/

section
variable {accountId : Int} {v v' : Vault} {target : Trashable} {id : Int}

theorem isOwned_conversation_iff : (Trashable.conversation id).isOwned accountId v = true ↔
    ∃ c ∈ v.db.conversations.rows, c.id = id ∧ c.accountId = accountId := by
  unfold Trashable.isOwned
  rw [List.any_eq_true]
  exact exists_congr fun c => and_congr_right fun _ => decide_eq_true_iff

/-- A conversation of the account is no other account's. -/
theorem accountId_of_isOwned (h : (Trashable.conversation id).isOwned accountId v = true)
    {c : ConversationRow} (hc : c ∈ v.db.conversations.rows) (hid : c.id = id) :
    c.accountId = accountId := by
  obtain ⟨c', hc', hid', hacc⟩ := isOwned_conversation_iff.mp h
  rw [Table.eq_of_id_eq hc hc' (hid.trans hid'.symm)]
  exact hacc

theorem mem_trashedConversationIds : id ∈ trashedConversationIds accountId v ↔
    (Trashable.conversation id).isOwned accountId v = true ∧
      (Trashable.conversation id).isTrashed accountId v = true := by
  unfold trashedConversationIds Trashable.isTrashed
  rw [List.mem_insertionSort, List.mem_map, isOwned_conversation_iff, List.contains_iff_mem]
  constructor
  · rintro ⟨⟨account, i⟩, hq, rfl⟩
    obtain ⟨hmarked, hboth⟩ := List.mem_filter.mp hq
    obtain ⟨hacc, hthere⟩ := of_decide_eq_true hboth
    obtain ⟨c, hc, hown⟩ := List.any_eq_true.mp hthere
    rw [← hacc]
    exact ⟨⟨c, hc, of_decide_eq_true hown⟩, hmarked⟩
  · rintro ⟨⟨c, hc, hown⟩, hq⟩
    refine ⟨(accountId, id), List.mem_filter.mpr ⟨hq, decide_eq_true ⟨rfl, ?_⟩⟩, rfl⟩
    exact List.any_eq_true.mpr ⟨c, hc, decide_eq_true hown⟩

theorem mem_trashedContactIds : id ∈ trashedContactIds accountId v ↔
    (Trashable.contact id).isOwned accountId v = true ∧
      (Trashable.contact id).isTrashed accountId v = true := by
  unfold trashedContactIds Trashable.isTrashed Trashable.isOwned
  rw [List.mem_insertionSort, List.mem_map, List.any_eq_true, List.contains_iff_mem]
  constructor
  · rintro ⟨⟨account, i⟩, hq, rfl⟩
    obtain ⟨hmarked, hboth⟩ := List.mem_filter.mp hq
    obtain ⟨hacc, hthere⟩ := of_decide_eq_true hboth
    rw [← hacc]
    exact ⟨List.any_eq_true.mp hthere, hmarked⟩
  · rintro ⟨hthere, hq⟩
    refine ⟨(accountId, id), List.mem_filter.mpr ⟨hq, decide_eq_true ⟨rfl, ?_⟩⟩, rfl⟩
    exact List.any_eq_true.mpr hthere

/-- What a permanent delete of one thing does. -/
def Destroys (accountId : Int) (v v' : Vault) : Trashable → Prop
  | .conversation id => Deletes accountId [id] v v'
  | .contact id => Forgets accountId [id] v v'

/-- An emptied trash. -/
structure Emptied (accountId : Int) (v v' : Vault) (emptied : EmptiedTrash) : Prop where
  markers : v'.trashedConversations = v.trashedConversations.filter (fun q => q.1 ≠ accountId)
  contactMarkers : v'.book.trashedContacts =
    v.book.trashedContacts.filter (fun q => q.1 ≠ accountId)
  db : Without (fun i => (Trashable.conversation i).isOwned accountId v &&
    (Trashable.conversation i).isTrashed accountId v) v.db v'.db
  orphaned : emptied.orphaned.Nodup ∧ ∀ f, f ∈ emptied.orphaned ↔ Orphaned accountId v v' f
  contacts : v'.book.contacts.rows = v.book.contacts.rows.map (fun c =>
    if c.accountId = accountId ∧ (accountId, c.id) ∈ v.book.trashedContacts then
      { c with preferredName := "", origin := .imported } else c)
  handles : v'.book.handles = v.book.handles
  contactHandles : v'.book.contactHandles = v.book.contactHandles

theorem nodup_deleteConversations (accountId : Int) (ids : List Int) (v : Vault) :
    (deleteConversations accountId ids v).2.Nodup := by
  unfold deleteConversations
  split
  · exact List.nodup_nil
  · simp only [orphanedFiles_eq_dedup]
    exact List.nodup_dedup _

/-- Every marker of a set of things is one of the account's, when the set is the account's. -/
theorem filter_markers {ids : List Int} {marked : List (Int × Int)} :
    (marked.filter (fun q => ¬ (q.1 = accountId ∧ q.2 ∈ ids))).filter (fun q => q.1 ≠ accountId) =
      marked.filter (fun q => q.1 ≠ accountId) := by
  rw [List.filter_filter]
  refine List.filter_congr fun q _ => ?_
  rw [← Bool.decide_and]
  refine decide_eq_decide.mpr ⟨fun h => h.1, fun h => ⟨h, fun hq => h hq.1⟩⟩

theorem emptied_emptyTrash (accountId : Int) (howned : v.db.Owned) :
    Emptied accountId v (emptyTrash accountId v).1 (emptyTrash accountId v).2 := by
  have hdel := deletes_deleteConversations accountId (trashedConversationIds accountId v) v
  have hfiles : ∀ f, f ∈ (deleteConversations accountId (trashedConversationIds accountId v) v).2 ↔
      Orphaned accountId v (deleteConversations accountId (trashedConversationIds accountId v) v).1 f :=
    fun f => orphaned_deleteConversations howned
      fun c hc hid => accountId_of_isOwned (mem_trashedConversationIds.mp hid).1 hc rfl
  have hnodup := nodup_deleteConversations accountId (trashedConversationIds accountId v) v
  have hforget := forgets_forgetContacts accountId (trashedContactIds accountId v)
    (deleteConversations accountId (trashedConversationIds accountId v) v).1
  unfold emptyTrash
  simp only
  generalize deleteConversations accountId (trashedConversationIds accountId v) v = done at *
  generalize forgetContacts accountId (trashedContactIds accountId v) done.1 = v₂ at *
  -- The tables of the messages are the ones the conversations left.
  have hdb : v₂.db = done.1.db := by rw [hforget.rest]
  constructor
  · have hmarkers : v₂.trashedConversations = done.1.trashedConversations := by rw [hforget.rest]
    unfold purgeAccount
    simp only
    rw [hmarkers, hdel.markers]
    exact filter_markers
  · unfold purgeAccount
    simp only
    rw [hforget.markers, hdel.book]
    exact filter_markers
  · have hgone : gone accountId v (trashedConversationIds accountId v) = fun i =>
        (Trashable.conversation i).isOwned accountId v &&
          (Trashable.conversation i).isTrashed accountId v := by
      funext i
      apply Bool.eq_iff_iff.mpr
      rw [gone_iff, Bool.and_eq_true, mem_trashedConversationIds]
      constructor
      · exact fun h => h.1
      · exact fun h => ⟨h, List.contains_iff_mem.mp h.2, isOwned_conversation_iff.mp h.1⟩
    rw [← hgone]
    unfold purgeAccount
    simp only
    rw [hdb]
    exact hdel.db
  · refine ⟨hnodup, fun f => (hfiles f).trans (Iff.symm ?_)⟩
    refine orphaned_congr hdb ?_ ?_ ?_
    · unfold purgeAccount
      rw [hforget.rest]
    · unfold purgeAccount
      rw [hforget.rest]
    · unfold purgeAccount
      rw [hforget.rest]
  · unfold purgeAccount
    simp only
    rw [hforget.contacts, hdel.book]
    refine List.map_congr_left fun c hc => ?_
    refine if_congr (and_congr_right fun hacc => ?_) rfl rfl
    rw [mem_trashedContactIds]
    constructor
    · exact fun h => List.contains_iff_mem.mp h.2
    · intro hmarked
      refine ⟨?_, List.contains_iff_mem.mpr hmarked⟩
      unfold Trashable.isOwned
      exact List.any_eq_true.mpr ⟨c, hc, decide_eq_true ⟨rfl, hacc⟩⟩
  · unfold purgeAccount
    rw [hforget.rest, hdel.book]
  · unfold purgeAccount
    rw [hforget.rest, hdel.book]

/-- A delete of a set of conversations. -/
theorem deletes_reports (howned : v.db.Owned) {ids : List Int}
    {files : List OrphanedFile} (h : deleteConversations accountId ids v = (v', files)) :
    Deletes accountId ids v v' ∧ files.Nodup ∧ (∀ f, f ∈ files ↔ Reported accountId ids v v' f) ∧
      ((∀ c ∈ v.db.conversations.rows, c.id ∈ ids → c.accountId = accountId) →
        ∀ f, f ∈ files ↔ Orphaned accountId v v' f) := by
  have hdel := deletes_deleteConversations accountId ids v
  have hnodup := nodup_deleteConversations accountId ids v
  have hreported : ∀ f, f ∈ (deleteConversations accountId ids v).2 ↔
      Reported accountId ids v (deleteConversations accountId ids v).1 f :=
    fun f => mem_deleteConversations
  have hfiles : (∀ c ∈ v.db.conversations.rows, c.id ∈ ids → c.accountId = accountId) →
      ∀ f, f ∈ (deleteConversations accountId ids v).2 ↔
        Orphaned accountId v (deleteConversations accountId ids v).1 f :=
    fun hids f => orphaned_deleteConversations howned hids
  rw [h] at hdel hnodup hreported hfiles
  exact ⟨hdel, hnodup, hreported, hfiles⟩

/-- A thing of the account's that is in the trash is deleted. -/
theorem deleteTrashed_of_trashed (howns : target.isOwned accountId v = true)
    (htrashed : target.isTrashed accountId v = true) :
    ∃ v' files, deleteTrashed accountId target v = (v', .deleted files) := by
  unfold deleteTrashed
  rw [howns, htrashed]
  cases target with
  | conversation id => exact ⟨_, _, rfl⟩
  | contact id => exact ⟨_, _, rfl⟩

/-- A thing that is deleted was the account's, and in the trash. -/
theorem deleteTrashed_deleted {files : List OrphanedFile}
    (h : deleteTrashed accountId target v = (v', .deleted files)) :
    target.isOwned accountId v = true ∧ target.isTrashed accountId v = true ∧
      match target with
      | .conversation id => deleteConversations accountId [id] v = (v', files)
      | .contact id => forgetContacts accountId [id] v = v' ∧ files = [] := by
  unfold deleteTrashed at h
  split at h
  · cases h
  · next howns =>
    split at h
    · cases h
    · next hmarked =>
      rw [Bool.not_eq_true', Bool.not_eq_false] at howns hmarked
      refine ⟨howns, hmarked, ?_⟩
      cases target with
      | conversation id =>
        simp only [Prod.mk.injEq, DeleteOutcome.deleted.injEq] at h ⊢
        exact Prod.ext h.1 h.2
      | contact id =>
        simp only [Prod.mk.injEq, DeleteOutcome.deleted.injEq] at h ⊢
        exact ⟨h.1, h.2.symm⟩

/-- Forgetting a contact deletes no attachment. -/
theorem Forgets.not_orphaned {ids : List Int} (h : Forgets accountId ids v v') (f : OrphanedFile) :
    ¬ Orphaned accountId v v' f := by
  rintro ⟨column, sha256, ⟨a, ha, hdeleted, -⟩, -⟩
  apply hdeleted
  rw [h.rest]
  exact ha

/-- **The way out of the trash.** A delete takes the account's trashed conversations among those
it is given and reports the files of the set that the account names no more, which are those it
orphaned when no conversation of the set is another account's; a thing is deleted just when it is
the account's and in the trash; what is not in the trash is not deleted; and the trash that is
emptied holds nothing of the account. -/
theorem permanent_delete (accountId : Int) (v : Vault) (howned : v.db.Owned) :
    (∀ ids v' files, deleteConversations accountId ids v = (v', files) →
      Deletes accountId ids v v' ∧ files.Nodup ∧ (∀ f, f ∈ files ↔ Reported accountId ids v v' f) ∧
        ((∀ c ∈ v.db.conversations.rows, c.id ∈ ids → c.accountId = accountId) →
          ∀ f, f ∈ files ↔ Orphaned accountId v v' f)) ∧
    (∀ target, (∃ v' files, deleteTrashed accountId target v = (v', .deleted files)) ↔
      target.isOwned accountId v = true ∧ target.isTrashed accountId v = true) ∧
    (∀ target v' files, deleteTrashed accountId target v = (v', .deleted files) →
      Destroys accountId v v' target ∧ files.Nodup ∧ ∀ f, f ∈ files ↔ Orphaned accountId v v' f) ∧
    (∀ target, target.isTrashed accountId v = false → (deleteTrashed accountId target v).1 = v) ∧
    Emptied accountId v (emptyTrash accountId v).1 (emptyTrash accountId v).2 := by
  refine ⟨fun ids v' files h => deletes_reports howned h, ?_, ?_, ?_,
    emptied_emptyTrash accountId howned⟩
  · intro target
    constructor
    · rintro ⟨v', files, h⟩
      obtain ⟨howns, htrashed, -⟩ := deleteTrashed_deleted h
      exact ⟨howns, htrashed⟩
    · exact fun h => deleteTrashed_of_trashed h.1 h.2
  · intro target v' files h
    obtain ⟨howns, -, hdone⟩ := deleteTrashed_deleted h
    cases target with
    | conversation id =>
      obtain ⟨hdel, hnodup, -, hfiles⟩ := deletes_reports howned hdone
      refine ⟨hdel, hnodup, hfiles fun c hc hid => ?_⟩
      exact accountId_of_isOwned howns hc (List.mem_singleton.mp hid)
    | contact id =>
      obtain ⟨rfl, rfl⟩ := hdone
      have hforget := forgets_forgetContacts accountId [id] v
      refine ⟨hforget, List.nodup_nil, fun f => ⟨fun hf => absurd hf List.not_mem_nil, fun hf => ?_⟩⟩
      exact absurd hf (hforget.not_orphaned f)
  · intro target htrashed
    unfold deleteTrashed
    rw [htrashed]
    split <;> rfl

/-! Two conversations that share a file, and a contact. -/

def sharedFile (id messageId : Int) (sha256 : String) : AttachmentRow :=
  ⟨id, messageId, none, none, none, 0, none, some sha256, some sha256, none, none⟩

def trashMessage (id conversationId : Int) : MessageRow :=
  ⟨id, conversationId, 1, "imessage", some (toString id), "2024-01-01T00:00:00Z", 1, none, none,
    none, none, none, 0, 0, none, none, 0, id, none, none, none⟩

/-- The first conversation is in the trash, and the contact. The first message has a file of its
own and one that the second message has too. -/
def trashedVault : Vault where
  db := {
    conversations := ⟨[⟨1, 1, 1, "direct", none, none, ""⟩, ⟨2, 1, 2, "direct", none, none, ""⟩],
      by decide, by decide⟩
    participants := ⟨[], by decide, by decide⟩
    messages := ⟨[trashMessage 1 1, trashMessage 2 2], by decide, by decide⟩
    attachments := ⟨[sharedFile 1 1 "own", sharedFile 2 1 "shared", sharedFile 3 2 "shared"],
      by decide, by decide⟩
    tapbacks := ⟨[], by decide, by decide⟩
    messagesFts := []
    triggers := true }
  staging := {
    conversations := ⟨[], by decide, by decide⟩
    participants := ⟨[], by decide, by decide⟩
    messages := ⟨[], by decide, by decide⟩
    attachments := ⟨[], by decide, by decide⟩
    tapbacks := ⟨[], by decide, by decide⟩ }
  book := {
    handles := ⟨[⟨1, 1, "+15550001", "+15550001", none, .phone, .phone⟩], by decide, by decide⟩
    contacts := ⟨[⟨1, 1, "Sam", .user⟩], by decide, by decide⟩
    contactHandles := ⟨[⟨1, 1, 1, 1, .user⟩], by decide, by decide⟩
    trashedContacts := [(1, 1)]
    accountHandles := [] }
  previews := fun i => if i = 1 then ⟨some "preview", some "own.jpg"⟩ else ⟨none, none⟩
  stagedPreviews := fun _ => ⟨none, none⟩
  groupMembers := []
  trashedConversations := [(1, 1)]

/-- Its own file is orphaned with its Preview, the shared file is not. -/
theorem permanent_delete_shared :
    (deleteConversations 1 [1] trashedVault).2 = [.original "own" "own", .derived "own.jpg"] ∧
    (∀ f, f ∈ (deleteConversations 1 [1] trashedVault).2 ↔
      Orphaned 1 trashedVault (deleteConversations 1 [1] trashedVault).1 f) ∧
    (∃ v' files, deleteTrashed 1 (.contact 1) trashedVault = (v', .deleted files)) ∧
    Emptied 1 trashedVault (emptyTrash 1 trashedVault).1 (emptyTrash 1 trashedVault).2 := by
  have howned : trashedVault.db.Owned := by
    unfold Db.Owned
    decide
  obtain ⟨hdelete, hdone, -, -, hempty⟩ := permanent_delete 1 trashedVault howned
  exact ⟨by decide +kernel, (hdelete [1] _ _ rfl).2.2.2 (by decide),
    (hdone (.contact 1)).mpr (by decide), hempty⟩

/-- The vault with a conversation of another account, in that account's trash. -/
def foreignVault : Vault :=
  { trashedVault with
    db := { trashedVault.db with
      conversations := ⟨trashedVault.db.conversations.rows ++ [⟨3, 2, 3, "direct", none, none, ""⟩],
        by decide, by decide⟩
      messages := ⟨trashedVault.db.messages.rows ++ [{ trashMessage 3 3 with accountId := 2 }],
        by decide, by decide⟩
      attachments := ⟨trashedVault.db.attachments.rows ++ [sharedFile 4 3 "theirs"],
        by decide, by decide⟩ }
    trashedConversations := [(1, 1), (2, 3)] }

/-- The other account's conversation stays, and its file is reported: nothing deleted named it. -/
theorem permanent_delete_foreign :
    foreignVault.db.Owned ∧
    (deleteConversations 1 [1, 3] foreignVault).1.db.attachments.rows =
      [sharedFile 3 2 "shared", sharedFile 4 3 "theirs"] ∧
    .original "theirs" "theirs" ∈ (deleteConversations 1 [1, 3] foreignVault).2 ∧
    ¬ Orphaned 1 foreignVault (deleteConversations 1 [1, 3] foreignVault).1
      (.original "theirs" "theirs") := by
  have hkept : (deleteConversations 1 [1, 3] foreignVault).1.db.attachments.rows =
      [sharedFile 3 2 "shared", sharedFile 4 3 "theirs"] := by decide +kernel
  refine ⟨by unfold Db.Owned; decide, hkept, by decide +kernel, ?_⟩
  rintro ⟨column, sha256, ⟨a, ha, hdeleted, hnames⟩, -⟩
  obtain ⟨-, rfl, hsha, -⟩ := hnames
  have htheirs : ∀ b ∈ foreignVault.db.attachments.rows,
      (filesRow b (foreignVault.previews b.id)).sha256 = some "theirs" →
        b = sharedFile 4 3 "theirs" := by decide
  rw [hkept, htheirs a ha hsha] at hdeleted
  exact hdeleted (List.mem_cons_of_mem _ List.mem_cons_self)

end

end MessageCrate.Trash

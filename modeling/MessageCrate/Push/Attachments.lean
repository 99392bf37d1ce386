import MessageCrate.Push.Uploads

/- The files of attachments across pushes (`crates/libs/push/src/prepare.rs`, the server's
   `asset_store.rs` and `imports_api/staging.rs`).

   `NoFileLost` is that a message of a file reported as done has every attachment whose bytes
   were there: the store has the file and a row of the message names it. It rests on two
   agreements between the journal and the server. A fingerprint in the journal is in the store,
   so that a worker may leave out the upload; and a message in the journal has its rows, so that
   the run may leave out the message.

   The server keeps no file that no row names once no run is under way, and the journal is not
   told. So a run that stops between an upload and the batch that names it, and is swept,
   leaves a row for a file that is gone; the next run stores the message without it
   (`swept_upload_loses_file`). In every sequence of runs without such a sweep no file is lost
   (`resumed_push_loses_no_file`). -/
namespace MessageCrate
open Runs

/-- The row is the attachment's. -/
def StoredAttachment.IsOf (a : StoredAttachment) (att : FolderAttachment) : Prop :=
  a.path = att.path ∧ a.originalName = att.originalName ∧ a.isSticker = att.isSticker

/-- The file is in the store and a row of the message names it. -/
def Uploads.HasFile (u : Uploads) (g : String) (att : FolderAttachment) (sha256 : String) :
    Prop :=
  sha256 ∈ u.store ∧ ∃ m ∈ u.server, m.guid = g ∧
    ∃ a ∈ m.attachments, a.IsOf att ∧ a.sha256 = some sha256

section
variable (folder : ExportFolder) (url username : String) (limit : Nat)

/-- The server has what the folder has of a message's attachments, within the limit. -/
def HasFiles (u : Uploads) (m : JournalMessage) (g : String) : Prop :=
  ∀ att ∈ folder.attachments m, ∀ file, folder.disk att.path = some file → file.size ≤ limit →
    u.HasFile g att file.sha256

/-- A row for an attachment of the folder names the folder's file, or none. -/
def ExportFolder.Agrees (g : String) (a : StoredAttachment) : Prop :=
  ∀ m, folder.Has m → folder.stored m = some g → ∀ att ∈ folder.attachments m, a.IsOf att →
    ∀ file, folder.disk att.path = some file → a.sha256 = none ∨ a.sha256 = some file.sha256

/-- A file reported as done, and a message the journal names between two runs, has its
    attachments. -/
structure NoFileLost (u : Uploads) : Prop where
  ok : ∀ r report, u.running = some r → r.pushed = (pushRun r.input).2.effects →
    (pushRun r.input).1 = .ok report →
    ∀ (idx : Nat) (row : FileResult), report.results[idx]? = some row → row.status = .ok →
    ∀ guid ∈ folder.lines idx, ∀ g, folder.stored ⟨row.file, guid⟩ = some g →
    ∀ att ∈ folder.attachments ⟨row.file, guid⟩, ∀ file, folder.disk att.path = some file →
    file.size ≤ r.assets.maxBytes → u.HasFile g att file.sha256
  left : u.running = none → ∀ m, folder.Names (load url username u.file) m → ∀ g,
    folder.stored m = some g → HasFiles folder limit u m g

/-- What each step has to meet. -/
structure FilesClear (u : Uploads) (event : UploadEvent) : Prop where
  /-- The runs' limits let the same files of the folder through, and a fingerprint taken from
      the export is the file's. -/
  start : ∀ input assets digests source, event = .start input assets digests source →
    ∀ path file, folder.disk path = some file →
      (file.size ≤ assets.maxBytes ↔ file.size ≤ limit) ∧ digests path = file.sha256
  /-- A run that stops without rewriting the journal has sent again every message it took away
      that a row of the journal names. -/
  stop : event = .stop → ∀ r, u.running = some r → ∀ m,
    folder.Names (load url username r.journal.file) m → ∀ g ∈ r.taken,
    folder.stored m = some g → ∃ batch ∈ r.committed, m ∈ batch.messages.map BatchMessage.journal
  /-- No file goes that the journal has a row for. -/
  sweep : event = .sweep → ∀ sha256 ∈ (load url username u.file).assets,
    namedFingerprint u.server sha256 = true
  others : ∀ source items, event = .others source items → ∀ item ∈ items, ∀ a ∈ item.2,
    folder.Agrees item.1 a

end

/-! Rows. -/

section
variable {staged rows : List StoredAttachment} {a b s : StoredAttachment} {sha256 : String}

theorem samePath_iff : a.samePath b = true ↔
    a.path = b.path ∧ a.originalName = b.originalName ∧ a.isSticker = b.isSticker :=
  decide_eq_true_iff

theorem samePath_trans {c : StoredAttachment} (h : a.samePath b = true)
    (h' : b.samePath c = true) : a.samePath c = true := by
  rw [samePath_iff] at *
  exact ⟨h.1.trans h'.1, h.2.1.trans h'.2.1, h.2.2.trans h'.2.2⟩

theorem samePath_symm (h : a.samePath b = true) : b.samePath a = true := by
  rw [samePath_iff] at *
  exact ⟨h.1.symm, h.2.1.symm, h.2.2.symm⟩

/-- A filled row is the row it was, or has the file of a staged row for it. -/
theorem fill_cases (staged : List StoredAttachment) (a : StoredAttachment) :
    a.fill staged = a ∨ (a.sha256 = none ∧ ∃ s ∈ staged, s.sha256.isSome = true ∧
      a.samePath s = true ∧ a.fill staged = { a with sha256 := s.sha256 }) := by
  unfold StoredAttachment.fill
  split
  · rename_i hnone
    split
    · rename_i s hs
      have := List.find?_some hs
      rw [Bool.and_eq_true] at this
      exact .inr ⟨hnone, s, List.mem_of_find?_eq_some hs, this.1, this.2, rfl⟩
    · exact .inl rfl
  · exact .inl rfl

theorem fill_of_some (h : a.sha256 = some sha256) : a.fill staged = a := by
  simp [StoredAttachment.fill, h]

theorem fill_samePath : (a.fill staged).samePath a = true := by
  rcases fill_cases staged a with h | ⟨-, s, -, -, -, h⟩ <;>
    simp [h, StoredAttachment.samePath]

/-- A row without a file is filled when a staged row for it has one. -/
theorem fill_isSome (hs : s ∈ staged) (hsome : s.sha256.isSome = true)
    (hpath : a.samePath s = true) : (a.fill staged).sha256.isSome = true := by
  unfold StoredAttachment.fill
  split
  · split
    · rename_i t ht
      have := List.find?_some ht
      rw [Bool.and_eq_true] at this
      exact this.1
    · rename_i hnone
      have := List.find?_eq_none.mp hnone s hs
      simp [hsome, hpath] at this
  · rename_i h
    exact Option.isSome_iff_ne_none.mpr h

/-- A row that names a file is left as it is. -/
theorem mem_mergeAttachments_of_some (ha : a ∈ rows) (h : a.sha256 = some sha256) :
    a ∈ mergeAttachments staged rows :=
  List.mem_append_left _ (List.mem_map.mpr ⟨a, ha, fill_of_some h⟩)

/-- A staged row with a file is in the store afterwards, itself or in the row that was there,
    when no row for it names another file. -/
theorem mergeAttachments_has (hs : s ∈ staged) (hsha : s.sha256 = some sha256)
    (hother : ∀ a ∈ rows ++ staged, a.samePath s = true →
      a.sha256 = none ∨ a.sha256 = some sha256) :
    ∃ a ∈ mergeAttachments staged rows, a.samePath s = true ∧ a.sha256 = some sha256 := by
  by_cases hthere : (rows.map (StoredAttachment.fill staged)).any (·.samePath s) = true
  · obtain ⟨a', ha', hpath⟩ := List.any_eq_true.mp hthere
    obtain ⟨a, ha, rfl⟩ := List.mem_map.mp ha'
    have hpath' : a.samePath s = true := samePath_trans (samePath_symm fill_samePath) hpath
    refine ⟨a.fill staged, List.mem_append_left _ ha', hpath, ?_⟩
    have hsome := fill_isSome hs (by simp [hsha]) hpath'
    rcases fill_cases staged a with heq | ⟨-, t, ht, -, hat, heq⟩
    · rw [heq] at hsome ⊢
      refine (hother a (List.mem_append_left _ ha) hpath').resolve_left fun hnone => ?_
      simp [hnone] at hsome
    · rw [heq] at hsome ⊢
      refine (hother t (List.mem_append_right _ ht) ?_).resolve_left fun hnone => ?_
      · exact samePath_trans (samePath_symm hat) hpath'
      · simp [hnone] at hsome
  · refine ⟨s, List.mem_append_right _ (List.mem_filter.mpr ⟨hs, ?_⟩), ?_, hsha⟩
    · simpa using hthere
    · exact decide_eq_true ⟨rfl, rfl, rfl⟩

/-- Every row afterwards is for what a row or a staged row was for, and names its file. -/
theorem mem_mergeAttachments (ha : a ∈ mergeAttachments staged rows) :
    ∃ b ∈ rows ++ staged, a.samePath b = true ∧ a.sha256 = b.sha256 := by
  rcases List.mem_append.mp ha with ha | ha
  · obtain ⟨b, hb, rfl⟩ := List.mem_map.mp ha
    rcases fill_cases staged b with heq | ⟨-, t, ht, -, hbt, heq⟩
    · exact ⟨b, List.mem_append_left _ hb, fill_samePath, by rw [heq]⟩
    · refine ⟨t, List.mem_append_right _ ht, samePath_trans fill_samePath hbt, by rw [heq]⟩
  · exact ⟨a, List.mem_append_right _ (List.mem_filter.mp ha).1,
      samePath_iff.mpr ⟨rfl, rfl, rfl⟩, rfl⟩

end

/-! Messages. -/

section
variable {folder : ExportFolder} {source g : String} {guids : List String} {items : StagedItems}
  {server : List StoredMessage} {m : StoredMessage} {a b : StoredAttachment}
  {att : FolderAttachment} {sha256 : String} {P : StoredMessage → StoredAttachment → Prop}

theorem StoredAttachment.IsOf.of_samePath (h : b.IsOf att) (hpath : a.samePath b = true) :
    a.IsOf att := by
  rw [samePath_iff] at hpath
  exact ⟨hpath.1.trans h.1, hpath.2.1.trans h.2.1, hpath.2.2.trans h.2.2⟩

theorem Agrees.of_samePath (h : folder.Agrees g b) (hpath : a.samePath b = true)
    (hsha : a.sha256 = b.sha256) : folder.Agrees g a := by
  intro m hm hg att hatt hof
  rw [hsha]
  exact h m hm hg att hatt (hof.of_samePath (samePath_symm hpath))

theorem mem_storeMessages_of_mem (hm : m ∈ server) : m ∈ storeMessages source guids server := by
  induction guids generalizing server with
  | nil => exact hm
  | cons guid guids ih =>
    rw [storeMessages]
    refine ih ?_
    split
    · exact hm
    · exact List.mem_append_left _ hm

/-- A message stored is one that was there, or one without attachments. -/
theorem mem_storeMessages_cases (hm : m ∈ storeMessages source guids server) :
    m ∈ server ∨ m.attachments = [] := by
  induction guids generalizing server with
  | nil => exact .inl hm
  | cons guid guids ih =>
    rw [storeMessages] at hm
    rcases ih hm with h | h
    · split at h
      · exact .inl h
      · rcases List.mem_append.mp h with h | h
        · exact .inl h
        · rw [List.mem_singleton.mp h]
          exact .inr rfl
    · exact .inr h

theorem mem_rowsOf {item : String × List StoredAttachment} (hitem : item ∈ items)
    (ha : a ∈ item.2) : a ∈ items.rowsOf item.1 :=
  List.mem_flatMap.mpr ⟨item, List.mem_filter.mpr ⟨hitem, by simp⟩, ha⟩

theorem mem_rowsOf_iff : a ∈ items.rowsOf g ↔ ∃ item ∈ items, item.1 = g ∧ a ∈ item.2 := by
  simp only [StagedItems.rowsOf, List.mem_flatMap, List.mem_filter, decide_eq_true_eq, and_assoc]

/-- A row that names a file is still there when more has been stored. -/
theorem storeItems_keeps (hm : m ∈ server) (ha : a ∈ m.attachments)
    (hsha : a.sha256 = some sha256) :
    ∃ m' ∈ storeItems source items server, m'.guid = m.guid ∧ a ∈ m'.attachments :=
  ⟨_, List.mem_map.mpr ⟨m, mem_storeMessages_of_mem hm, rfl⟩, rfl,
    mem_mergeAttachments_of_some ha hsha⟩

/-- Rows that agree with the folder are stored beside rows that do. -/
theorem storeItems_agrees (hserver : ∀ m ∈ server, ∀ a ∈ m.attachments, folder.Agrees m.guid a)
    (hitems : ∀ item ∈ items, ∀ a ∈ item.2, folder.Agrees item.1 a) :
    ∀ m ∈ storeItems source items server, ∀ a ∈ m.attachments, folder.Agrees m.guid a := by
  intro m hm a ha
  obtain ⟨m₀, hm₀, rfl⟩ := List.mem_map.mp hm
  obtain ⟨b, hb, hpath, hsha⟩ := mem_mergeAttachments ha
  refine Agrees.of_samePath ?_ hpath hsha
  rcases List.mem_append.mp hb with hb | hb
  · rcases mem_storeMessages_cases hm₀ with hold | hnil
    · exact hserver m₀ hold b hb
    · rw [hnil] at hb
      cases hb
  · obtain ⟨item, hitem, hguid, hb⟩ := mem_rowsOf_iff.mp hb
    show folder.Agrees m₀.guid b
    rw [← hguid]
    exact hitems item hitem b hb

end

/-! What holds in every state. -/

/-- What holds of the files of a run under way. -/
structure RunFiles (folder : ExportFolder) (url username : String) (limit : Nat)
    (store : List String) (r : PushProgress) : Prop where
  limits : ∀ path file, folder.disk path = some file →
    (file.size ≤ r.assets.maxBytes ↔ file.size ≤ limit) ∧ r.digests path = file.sha256
  memory : ∀ sha256 ∈ r.journal.state.assets, sha256 ∈ store
  rows : ∀ sha256 ∈ (load url username r.journal.file).assets, sha256 ∈ store
  settled : ∀ pair ∈ r.settled, pair.2 ∈ store
  prepared : ∀ batch ∈ postedBatches r.pushed, ∀ m ∈ batch.messages,
    r.Prepared folder m.fileIndex

structure FilesSound (folder : ExportFolder) (url username : String) (limit : Nat)
    (u : Uploads) : Prop where
  agrees : ∀ m ∈ u.server, ∀ a ∈ m.attachments, folder.Agrees m.guid a
  assets : u.running = none → ∀ sha256 ∈ (load url username u.file).assets, sha256 ∈ u.store
  run : ∀ r, u.running = some r → RunFiles folder url username limit u.store r
  told : UploadsTold folder url username (HasFiles folder limit) u

section
variable {folder : ExportFolder} {url username : String} {limit : Nat} {u u' : Uploads}
  {event : UploadEvent} {r : PushProgress} {store store' : List String} {batch : ImportBatch}

theorem RunFiles.mono (h : RunFiles folder url username limit store r)
    (hstore : ∀ sha256 ∈ store, sha256 ∈ store') : RunFiles folder url username limit store' r :=
  { limits := h.limits
    memory := fun sha256 hs => hstore _ (h.memory sha256 hs)
    rows := fun sha256 hs => hstore _ (h.rows sha256 hs)
    settled := fun pair hp => hstore _ (h.settled pair hp)
    prepared := h.prepared }

theorem Prepared.mono {idx : Nat} {settled : List (Nat × String)} (h : r.Prepared folder idx)
    (hle : ∀ pair ∈ r.settled, pair ∈ settled) :
    PushProgress.Prepared { r with settled } folder idx :=
  fun name guid hname hguid att hatt sha256 hsha =>
    hle _ (h name guid hname hguid att hatt sha256 hsha)

/-- A fingerprint that a file's attachment is uploaded under is the folder's. -/
theorem RunFiles.scan (h : RunFiles folder url username limit store r) {att : FolderAttachment}
    {file : DiskFile} (hfile : folder.disk att.path = some file) (hlimit : file.size ≤ limit) :
    folder.scanOneAttachment r.assets r.digests att = some file.sha256 := by
  obtain ⟨hsize, hdigest⟩ := h.limits _ _ hfile
  have hle : ¬ r.assets.maxBytes < file.size := Nat.not_lt.mpr (hsize.mpr hlimit)
  simp [ExportFolder.scanOneAttachment, hfile, hle, hdigest]

/-- What the server is sent for a message agrees with the folder. -/
theorem RunFiles.items_agree (h : RunFiles folder url username limit store r) :
    ∀ item ∈ r.items folder store batch, ∀ a ∈ item.2, folder.Agrees item.1 a := by
  intro item hitem a ha m hm hg att hatt hof file hfile
  obtain ⟨m', hm', heq⟩ := List.mem_filterMap.mp hitem
  obtain ⟨guid, hguid, rfl⟩ := Option.map_eq_some_iff.mp heq
  obtain ⟨att', hatt', rfl⟩ := List.mem_map.mp ha
  have hpath : att'.path = att.path := hof.1
  obtain ⟨-, hdigest⟩ := h.limits _ _ hfile
  simp only [stagedAttachment, ExportFolder.scanOneAttachment, hpath, hfile, hdigest]
  split
  · exact .inl rfl
  · rw [Option.filter_some]
    split
    · exact .inr rfl
    · exact .inl rfl

/-- A batch whose attachments are settled brings each of them. -/
theorem RunFiles.brings (h : RunFiles folder url username limit u.store r) {source : String}
    {server : List StoredMessage} {m : BatchMessage} {g : String} {att : FolderAttachment}
    {file : DiskFile}
    (hserver : ∀ m ∈ server, ∀ a ∈ m.attachments, folder.Agrees m.guid a)
    (hhas : folder.names[m.fileIndex]? = some m.journal.file ∧
      m.journal.guid ∈ folder.lines m.fileIndex)
    (hbatch : batch ∈ postedBatches r.pushed) (hm : m ∈ batch.messages)
    (hg : folder.stored m.journal = some g) (hatt : att ∈ folder.attachments m.journal)
    (hfile : folder.disk att.path = some file) (hlimit : file.size ≤ limit) :
    file.sha256 ∈ u.store ∧
      ∃ row ∈ storeItems source (r.items folder u.store batch) server, row.guid = g ∧
        ∃ a ∈ row.attachments, a.IsOf att ∧ a.sha256 = some file.sha256 := by
  have hscan := h.scan hfile hlimit
  have hstore : file.sha256 ∈ u.store :=
    h.settled _ (h.prepared batch hbatch m hm _ _ hhas.1 hhas.2 att hatt _ hscan)
  have hitem : (g, (folder.attachments m.journal).map (fun att => stagedAttachment u.store att
      (folder.scanOneAttachment r.assets r.digests att))) ∈ r.items folder u.store batch :=
    List.mem_filterMap.mpr ⟨m, hm, by rw [hg]; rfl⟩
  obtain ⟨s, hs⟩ : ∃ s, s = stagedAttachment u.store att
    (folder.scanOneAttachment r.assets r.digests att) := ⟨_, rfl⟩
  have hsha : s.sha256 = some file.sha256 := by
    rw [hs, hscan]
    simp [stagedAttachment, Option.filter_some, hstore]
  have hof : s.IsOf att := by
    rw [hs]
    exact ⟨rfl, rfl, rfl⟩
  have hmem : s ∈ (r.items folder u.store batch).rowsOf g :=
    mem_rowsOf hitem (List.mem_map.mpr ⟨att, hatt, hs.symm⟩)
  obtain ⟨row, hrow, rfl⟩ : ∃ row ∈ storeMessages source
      ((r.items folder u.store batch).map Prod.fst) server, row.guid = g :=
    List.mem_map.mp (mem_storeMessages.mpr (.inr (List.mem_map.mpr ⟨_, hitem, rfl⟩)))
  have hother : ∀ a ∈ row.attachments ++ (r.items folder u.store batch).rowsOf row.guid,
      a.samePath s = true → a.sha256 = none ∨ a.sha256 = some file.sha256 := by
    intro a ha hpath
    have hagrees : folder.Agrees row.guid a := by
      rcases List.mem_append.mp ha with ha | ha
      · rcases mem_storeMessages_cases hrow with hold | hnil
        · exact hserver row hold a ha
        · rw [hnil] at ha
          cases ha
      · obtain ⟨item, hitem, hguid, ha⟩ := mem_rowsOf_iff.mp ha
        rw [← hguid]
        exact h.items_agree item hitem a ha
    exact hagrees m.journal ⟨_, hhas⟩ hg att hatt (hof.of_samePath hpath) file hfile
  obtain ⟨a, ha, hpath, hnames⟩ := mergeAttachments_has hmem hsha hother
  exact ⟨hstore, _, List.mem_map.mpr ⟨row, hrow, rfl⟩, rfl, a, ha, hof.of_samePath hpath, hnames⟩

/-- What is there stays when more is stored. -/
theorem HasFile.storeItems {source g sha256 : String} {items : StagedItems}
    {server : List StoredMessage} {att : FolderAttachment}
    (h : ∃ m ∈ server, m.guid = g ∧ ∃ a ∈ m.attachments, a.IsOf att ∧ a.sha256 = some sha256) :
    ∃ m ∈ MessageCrate.storeItems source items server, m.guid = g ∧
      ∃ a ∈ m.attachments, a.IsOf att ∧ a.sha256 = some sha256 := by
  obtain ⟨m, hm, rfl, a, ha, hof, hsha⟩ := h
  obtain ⟨m', hm', hguid, ha'⟩ := storeItems_keeps hm ha hsha
  exact ⟨m', hm', hguid, a, ha', hof, hsha⟩

/-- What a step takes of the files is what a wipe takes. -/
theorem stepKeeps_files (h : FilesSound folder url username limit u)
    (hstep : UploadStep folder url username u event u')
    (hclear : FilesClear folder url username limit u event) :
    StepKeeps folder url username (HasFiles folder limit) u event u' := by
  have hstop : event = .stop → ∀ r, u.running = some r → ∀ m,
      folder.Names (load url username r.journal.file) m → ∀ g ∈ r.taken,
      folder.stored m = some g → HasFiles folder limit u m g := by
    intro he r hr m hm g hg hs
    obtain ⟨batch, hbatch, hin⟩ := hclear.stop he r hr m hm g hg hs
    obtain ⟨m', hm', rfl⟩ := List.mem_map.mp hin
    exact (h.told.run r hr).sent batch hbatch m' hm' g hs
  have hsame : ∀ m g, HasFiles folder limit u m g → (∀ sha256 ∈ u.store, sha256 ∈ u'.store) →
      u'.server = u.server → HasFiles folder limit u' m g := by
    intro m g hkept hstore hserver att hatt file hfile hlimit
    obtain ⟨hin, hrow⟩ := hkept att hatt file hfile hlimit
    exact ⟨hstore _ hin, by rw [hserver]; exact hrow⟩
  cases hstep with
  | @commit r batch hrunning hposted =>
    refine ⟨fun m g hkept => ?_, fun batch' he m hm g hg att hatt file hfile hlimit => ?_, hstop⟩
    · by_cases hw : r.wipes (folder.guids batch) = true ∧
          g ∈ (u.server.filter (fun m => decide (m.source = r.source))).map StoredMessage.guid
      · exact .inr ⟨r, batch, rfl, hrunning, hw.1, hw.2⟩
      · refine .inl fun att hatt file hfile hlimit => ?_
        obtain ⟨hin, row, hrow, rfl, a, ha, hof, hsha⟩ := hkept att hatt file hfile hlimit
        refine ⟨hin, HasFile.storeItems ⟨row, ?_, rfl, a, ha, hof, hsha⟩⟩
        split
        · rename_i hwipes
          refine List.mem_filter.mpr ⟨hrow, decide_eq_true fun hsource => hw ⟨hwipes, ?_⟩⟩
          exact List.mem_map.mpr ⟨row, List.mem_filter.mpr ⟨hrow, decide_eq_true hsource⟩, rfl⟩
        · exact hrow
    · cases he
      have hserver : ∀ m ∈ (if r.wipes (folder.guids batch) then
          u.server.filter (fun m => decide (m.source ≠ r.source)) else u.server),
          ∀ a ∈ m.attachments, folder.Agrees m.guid a := by
        intro m hm
        split at hm
        · exact h.agrees m (List.mem_filter.mp hm).1
        · exact h.agrees m hm
      exact (h.run r hrunning).brings hserver ((h.told.run r hrunning).has hposted hm) hposted hm
        hg hatt hfile hlimit
  | others =>
    refine ⟨fun m g hkept => .inl fun att hatt file hfile hlimit => ?_, nofun, nofun⟩
    obtain ⟨hin, hrow⟩ := hkept att hatt file hfile hlimit
    exact ⟨hin, HasFile.storeItems hrow⟩
  | sweep =>
    refine ⟨fun m g hkept => .inl fun att hatt file hfile hlimit => ?_, nofun, nofun⟩
    obtain ⟨hin, row, hrow, hguid, a, ha, hof, hsha⟩ := hkept att hatt file hfile hlimit
    -- The row itself keeps the file from the sweep.
    refine ⟨List.mem_filter.mpr ⟨hin, ?_⟩, row, hrow, hguid, a, ha, hof, hsha⟩
    exact List.any_eq_true.mpr ⟨row, hrow, List.any_eq_true.mpr ⟨a, ha, decide_eq_true hsha⟩⟩
  | put =>
    exact ⟨fun m g hkept => .inl (hsame m g hkept
      (fun _ hs => List.mem_insert_of_mem hs) rfl), nofun, nofun⟩
  | stop => exact ⟨fun m g hkept => .inl (hsame m g hkept (fun _ hs => hs) rfl), nofun, hstop⟩
  | start | effect | claim | onServer | uploaded | gaveUp | rewrite =>
    exact ⟨fun m g hkept => .inl (hsame m g hkept (fun _ hs => hs) rfl), nofun, nofun⟩

theorem RunFiles.snoc {x : UploadEffect} (h : RunFiles folder url username limit store r)
    (hassets : ∀ sha256 ∈ x.assets, sha256 ∈ store)
    (hprepared : ∀ batch ∈ postedBatches (r.snoc x).pushed, ∀ m ∈ batch.messages,
      r.Prepared folder m.fileIndex) : RunFiles folder url username limit store (r.snoc x) :=
  { limits := h.limits
    memory := fun sha256 hs => by
      rw [PushProgress.snoc_journal, mem_recordUpload_assets] at hs
      exact hs.elim (h.memory sha256) (hassets sha256)
    rows := fun sha256 hs => by
      rw [PushProgress.snoc_journal] at hs
      exact (load_recordUpload_assets hs).elim (h.rows sha256) (hassets sha256)
    settled := h.settled
    prepared := hprepared }

theorem RunFiles.claims {claims settled : List (Nat × String)}
    (h : RunFiles folder url username limit store r) (hle : ∀ pair ∈ r.settled, pair ∈ settled)
    (hstore : ∀ pair ∈ settled, pair.2 ∈ store) :
    RunFiles folder url username limit store { r with claims, settled } :=
  { limits := h.limits
    memory := h.memory
    rows := h.rows
    settled := hstore
    prepared := fun batch hb m hm => Prepared.mono (h.prepared batch hb m hm) hle }

/-- What a run under way knows of the files, one step on. -/
theorem RunFiles.step (h : FilesSound folder url username limit u)
    (hstep : UploadStep folder url username u event u')
    (hclear : FilesClear folder url username limit u event) :
    ∀ r, u'.running = some r → RunFiles folder url username limit u'.store r := by
  intro r' hr'
  cases hstep with
  | @start input assets digests source hidle hnames hfile hurl husername hreads hdigests =>
    cases hr'
    have hopen : ∀ sha256 ∈ input.journal.state.assets, sha256 ∈ u.store := by
      intro sha256 hs
      rcases input.opened_state with hempty | ⟨-, hloaded⟩
      · rw [hempty] at hs
        cases hs
      · rw [hloaded, hfile, hurl, husername] at hs
        exact h.assets hidle sha256 hs
    exact ⟨hclear.start _ _ _ _ rfl, hopen, fun sha256 hs => h.assets hidle sha256 (hfile ▸ hs),
      nofun, nofun⟩
  | @effect r e hrunning hnext hprepared hanswered =>
    cases hr'
    have hr := h.run r hrunning
    refine hr.snoc nofun fun batch hb m hm => ?_
    rw [PushProgress.snoc_pushed, postedBatches_append, List.mem_append] at hb
    rcases hb with hb | hb
    · exact hr.prepared batch hb m hm
    · cases e with
      | posted b =>
        obtain rfl : batch = b := by simpa [postedBatches] using hb
        exact hprepared batch rfl m hm
      | journalledMessages | journalledFile | journalledFailure | acknowledged | refused => cases hb
  | @claim r idx sha256 hrunning hfree hunknown =>
    cases hr'
    exact (h.run r hrunning).claims (fun _ hp => hp) (h.run r hrunning).settled
  | @onServer r idx sha256 hrunning hfree hforce hknown =>
    cases hr'
    have hr := h.run r hrunning
    refine hr.claims (fun _ hp => List.mem_cons_of_mem _ hp) fun pair hp => ?_
    rcases List.mem_cons.mp hp with rfl | hp
    · exact hr.memory sha256 (by simpa [RunJournal.hasAsset] using hknown)
    · exact hr.settled pair hp
  | @uploaded r idx sha256 how hrunning hclaim hstored =>
    cases hr'
    have hr := h.run r hrunning
    have hsnoc : RunFiles folder url username limit u.store (r.snoc (.assetOk sha256 how)) := by
      refine hr.snoc (fun s hs => ?_) fun batch hb => ?_
      · rw [List.mem_singleton.mp hs]
        exact hstored
      · rw [PushProgress.snoc_assetOk_pushed] at hb
        exact hr.prepared batch hb
    refine hsnoc.claims (fun pair hp => ?_) fun pair hp => ?_
    · split
      · exact List.mem_cons_of_mem _ hp
      · exact hp
    · split at hp
      · rcases List.mem_cons.mp hp with rfl | hp
        · exact hstored
        · exact hr.settled pair hp
      · exact hr.settled pair hp
  | @gaveUp r idx sha256 hrunning hclaim =>
    cases hr'
    exact (h.run r hrunning).claims (fun _ hp => hp) (h.run r hrunning).settled
  | @commit r batch hrunning hposted =>
    cases hr'
    have hr := h.run r hrunning
    exact ⟨hr.limits, hr.memory, hr.rows, hr.settled, hr.prepared⟩
  | stop | rewrite => cases hr'
  | put => exact (h.run r' hr').mono fun _ hs => List.mem_insert_of_mem hs
  | sweep hidle => cases hidle.symm.trans hr'
  | others => exact h.run r' hr'

/-- One step keeps what holds, when it is clear. -/
theorem FilesSound.step (h : FilesSound folder url username limit u)
    (hnodup : folder.names.Nodup) (hstep : UploadStep folder url username u event u')
    (hclear : FilesClear folder url username limit u event) :
    FilesSound folder url username limit u' := by
  refine ⟨?_, ?_, RunFiles.step h hstep hclear,
    h.told.step hnodup hstep (stepKeeps_files h hstep hclear)⟩
  · cases hstep with
    | @commit r batch hrunning hposted =>
      refine storeItems_agrees (fun m hm => ?_) (h.run r hrunning).items_agree
      split at hm
      · exact h.agrees m (List.mem_filter.mp hm).1
      · exact h.agrees m hm
    | others => exact storeItems_agrees h.agrees (hclear.others _ _ rfl)
    | start | effect | claim | onServer | uploaded | gaveUp | stop | rewrite | put | sweep =>
      exact h.agrees
  · intro hidle sha256 hs
    cases hstep with
    | start | effect | claim | onServer | uploaded | gaveUp | commit => cases hidle
    | @stop r hrunning => exact (h.run r hrunning).rows sha256 hs
    | @rewrite r report hrunning hdone hreport hrewritten =>
      have hr := h.told.run r hrunning
      have hurl : r.journal.url = url := PushProgress.journal_target.1.trans hr.target.1
      have husername : r.journal.username = username :=
        PushProgress.journal_target.2.trans hr.target.2
      rw [RunJournal.compact, hurl, husername] at hs
      exact (h.run r hrunning).memory sha256 (load_compact_le.2.2 sha256 hs)
    | put => exact List.mem_insert_of_mem (h.assets hidle sha256 hs)
    | sweep =>
      exact List.mem_filter.mpr ⟨h.assets hidle sha256 hs, hclear.sweep rfl sha256 hs⟩
    | others => exact h.assets hidle sha256 hs

theorem FilesSound.noFileLost (h : FilesSound folder url username limit u) :
    NoFileLost folder url username limit u := by
  refine ⟨fun r report hr hdone hreport idx row hrow hstatus guid hguid g hg att hatt file hfile
    hsize => ?_, h.told.left⟩
  have hlimit : file.size ≤ limit := ((h.run r hr).limits _ _ hfile).1.mp hsize
  exact h.told.delivered hr hdone hreport hrow (.inl hstatus) hguid hg att hatt file hfile hlimit

/-- A resumed push loses no file of an attachment, as long as no sweep takes a file that the
    journal has a row for, and no run stops with a row for a message that it took away. -/
theorem resumed_push_loses_no_file {server : List StoredMessage} {store : List String}
    {events : List UploadEvent} (hnodup : folder.names.Nodup)
    (hserver : ∀ m ∈ server, ∀ a ∈ m.attachments, folder.Agrees m.guid a)
    (hrun : Run (fun u event u' => UploadStep folder url username u event u' ∧
      FilesClear folder url username limit u event) (.new server store) events u) :
    NoFileLost folder url username limit u := by
  have hnew : FilesSound folder url username limit (.new server store) := by
    refine ⟨hserver, fun _ sha256 hs => ?_, nofun, fun _ m hm g hg => ?_, nofun⟩
    · cases hs
    · rcases hm.2 with hin | hin <;> cases hin
  have hsound := hrun.keeps (fun _ _ _ hstep h => h.step hnodup hstep.1 hstep.2) hnew
  exact hsound.noFileLost

end

/-! A folder of one message with a photo. -/

def photo : FolderAttachment := ⟨"attachments/p.jpg", some "p.jpg", false, none, none⟩

def photoChat : ExportFolder where
  names := ["b.jsonl"]
  noNul := by decide +kernel
  lines := fun _ => ["g"]
  stored := fun m => some m.guid
  attachments := fun _ => [photo]
  disk := fun path => if path = "attachments/p.jpg" then some ⟨3, "5f"⟩ else none

def photoDigest : String → String := fun _ => "5f"

def photoAssets : AssetConfig := ⟨1000000, false, false⟩

/-- A run over it. -/
def photoPush (mode : ImportMode) (file : JournalFile) : PushInput where
  names := photoChat.names
  cfg := ⟨mode, false, 1, 1⟩
  file
  url := "https://vault.test"
  username := "alice"
  out :=
    { cancelledAt := fun _ => false
      cancelled_stays := fun _ _ _ h => h
      staged := fun _ => .ok ⟨"imessage", [1], [⟨[2], "g", 2⟩], 1⟩
      looksLate := fun _ _ => true
      arrival := fun _ => some 0
      answer := fun _ => .ok ⟨1, 1, 0⟩
      appended := fun _ => .synced
      compacted := true }

def photoBatch : ImportBatch :=
  ⟨"imessage", [1, 2], [⟨0, ⟨"b.jsonl", "g"⟩⟩], [⟨0, 1⟩, ⟨0, 2⟩], 1⟩

def photoReport : PushReport :=
  { ok := true, cancelled := false, mode := .append, conversationsTotal := 1
    conversationsOk := 1, conversationsFailed := 0, conversationsSkipped := 0
    conversationsCancelled := 0, messagesAttempted := 1, messagesInserted := 1
    messagesDeduped := 0, messagesFailed := 0
    results := [⟨"b.jsonl", .ok, none, 1, 1⟩] }

theorem photo_disk {path : String} {file : DiskFile} (h : photoChat.disk path = some file) :
    file = ⟨3, "5f"⟩ := by
  simp only [photoChat] at h
  split at h
  · exact (Option.some.inj h).symm
  · cases h

theorem photo_resolves : photoChat.Resolves photoAssets photoDigest := by
  intro path file h
  rw [photo_disk h]
  exact .inl rfl

theorem photoPush_reads {mode : ImportMode} {file : JournalFile} :
    photoChat.Reads (photoPush mode file).out := by
  intro idx file h
  cases h
  rfl

/-- Once its file is settled the message can be posted. -/
theorem photo_prepared {r : PushProgress} (hassets : r.assets = photoAssets)
    (hdigests : r.digests = photoDigest) (hsettled : r.settled = [(0, "5f")]) :
    ∀ batch, PushEffect.posted photoBatch = .posted batch →
    ∀ m ∈ batch.messages, r.Prepared photoChat m.fileIndex := by
  intro batch h m hm name guid _ _ att hatt sha256 hscan
  cases h
  rw [List.mem_singleton.mp hm]
  rw [List.mem_singleton.mp hatt, hassets, hdigests] at hscan
  cases hscan
  rw [hsettled]
  exact List.mem_cons_self

/-- A step that neither begins nor ends a run, nor sweeps. -/
theorem photo_clear {u : Uploads} {e : PushEffect} :
    FilesClear photoChat "https://vault.test" "alice" 1000000 u (.effect e) :=
  ⟨nofun, nofun, nofun, nofun⟩

theorem photo_start_clear {u : Uploads} {input : PushInput} :
    FilesClear photoChat "https://vault.test" "alice" 1000000 u
      (.start input photoAssets photoDigest "imessage") := by
  refine ⟨fun _ _ _ _ he path file hfile => ?_, nofun, nofun, nofun⟩
  cases he
  rw [photo_disk hfile]
  exact ⟨Iff.rfl, rfl⟩

/-- A run uploads the photo. -/
def photoUpload : List UploadEvent :=
  [.start (photoPush .append []) photoAssets photoDigest "imessage", .claim 0 "5f", .put "5f",
    .uploaded 0 "5f" .synced]

/-- What the main thread of a run does that sends the message. -/
def photoEffects : List PushEffect :=
  [.posted photoBatch, .acknowledged photoBatch,
    .journalledMessages "imessage" [⟨"b.jsonl", "g"⟩] .synced,
    .journalledFile 0 "imessage" "b.jsonl" .synced]

/-- The same, with the server's part. -/
def photoSend : List UploadEvent :=
  [.effect (.posted photoBatch), .commit photoBatch, .effect (.acknowledged photoBatch),
    .effect (.journalledMessages "imessage" [⟨"b.jsonl", "g"⟩] .synced),
    .effect (.journalledFile 0 "imessage" "b.jsonl" .synced)]

/-- The journal, with the row of the upload. -/
def photoJournal : JournalFile := [some (.assetOk "https://vault.test" "alice" "5f")]

/-- An append run that is done with the photo. -/
def photoRun (file : JournalFile) (done : List UploadEffect) (committed : List ImportBatch) :
    PushProgress :=
  { PushProgress.new (photoPush .append file) photoAssets photoDigest "imessage" with
    done
    settled := [(0, "5f")]
    committed }

def PhotoStep (u : Uploads) (event : UploadEvent) (u' : Uploads) : Prop :=
  UploadStep photoChat "https://vault.test" "alice" u event u' ∧
    FilesClear photoChat "https://vault.test" "alice" 1000000 u event

theorem photoUpload_runs : Run PhotoStep (.new [] []) photoUpload
    ⟨[], [], ["5f"], some (photoRun [] [.assetOk "5f" .synced] [])⟩ := by
  have hclaim : (0, "5f") ∈ [(0, "5f")] := List.mem_cons_self
  refine .cons ⟨.start rfl rfl rfl rfl rfl photoPush_reads photo_resolves, photo_start_clear⟩ ?_
  refine .cons ⟨.claim rfl rfl (.inr (by decide +kernel)), nofun, nofun, nofun, nofun⟩ ?_
  refine .cons ⟨.put, nofun, nofun, nofun, nofun⟩ ?_
  exact .cons ⟨.uploaded rfl hclaim (by decide +kernel), nofun, nofun, nofun, nofun⟩ (.nil _)

section
variable {file : JournalFile} {rows : List UploadEffect} {store : List String}
  {server : List StoredMessage} {committed : List ImportBatch} {e : PushEffect}

/-- The main thread does what it does next. -/
theorem photo_effect (heffects : (pushRun (photoPush .append file)).2.effects = photoEffects)
    (hrows : (photoRun file rows []).pushed = []) (effects : List PushEffect)
    (hnext : effects ++ [e] <+: photoEffects)
    (hposted : ∀ batch, e = .posted batch → e = .posted photoBatch)
    (hacked : ∀ batch, e = .acknowledged batch → batch ∈ committed) :
    PhotoStep ⟨file, server, store, some (photoRun file (rows ++ effects.map .push) committed)⟩
      (.effect e)
      ⟨file, server, store,
        some (photoRun file (rows ++ (effects ++ [e]).map .push) committed)⟩ := by
  have hpushed : (photoRun file (rows ++ effects.map .push) committed).pushed = effects := by
    simp only [PushProgress.pushed, photoRun, List.filterMap_append] at hrows ⊢
    rw [hrows]
    simp [List.filterMap_map]
  have hstep : UploadStep photoChat "https://vault.test" "alice"
      ⟨file, server, store, some (photoRun file (rows ++ effects.map .push) committed)⟩
      (.effect e) _ :=
    .effect rfl (by rw [hpushed]; exact heffects ▸ hnext)
      (fun batch he => photo_prepared rfl rfl rfl batch ((hposted batch he).symm.trans he)) hacked
  rw [List.map_append, ← List.append_assoc]
  exact ⟨hstep, photo_clear⟩

theorem photo_posted : photoBatch ∈ postedBatches
    (photoRun file (rows ++ [PushEffect.posted photoBatch].map .push) []).pushed := by
  simp [PushProgress.pushed, photoRun, postedBatches]

/-- The message is sent, with the photo when the server has it. -/
theorem photoSend_runs (heffects : (pushRun (photoPush .append file)).2.effects = photoEffects)
    (hrows : (photoRun file rows []).pushed = []) :
    Run PhotoStep ⟨file, [], store, some (photoRun file rows [])⟩ photoSend
      ⟨file, [⟨"g", "imessage", [stagedAttachment store photo (some "5f")]⟩], store,
        some (photoRun file (rows ++ photoEffects.map .push) [photoBatch])⟩ := by
  have hacked : ∀ batch, PushEffect.acknowledged photoBatch = .acknowledged batch →
      batch ∈ [photoBatch] := by
    intro batch h
    cases h
    exact List.mem_cons_self
  have hpost := @photo_effect file rows store [] [] (.posted photoBatch) heffects hrows []
    (by decide) (fun _ _ => rfl) nofun
  rw [List.map_nil, List.append_nil] at hpost
  refine .cons hpost (.cons ⟨.commit rfl photo_posted, nofun, nofun, nofun, nofun⟩ ?_)
  refine .cons (photo_effect heffects hrows [.posted photoBatch] (by decide) nofun hacked) ?_
  refine .cons (photo_effect heffects hrows (photoEffects.take 2) (by decide) nofun nofun) ?_
  exact .cons (photo_effect heffects hrows (photoEffects.take 3) (by decide) nofun nofun) (.nil _)

end

/-- The journal after a run that sent the message. -/
def sentJournal : JournalFile :=
  [some (.assetOk "https://vault.test" "alice" "5f"),
    some (.messageBatchOk "https://vault.test" "alice" "imessage" [⟨"b.jsonl", "g"⟩]),
    some (.fileOk "https://vault.test" "alice" "imessage" "b.jsonl")]

/-- The stored message, with its photo. -/
def sentPhoto : StoredMessage :=
  ⟨"g", "imessage", [⟨"attachments/p.jpg", some "p.jpg", false, some "5f"⟩]⟩

/-- A `replace` run, from its start. -/
def photoReplace : List UploadEvent :=
  .start (photoPush .replace sentJournal) photoAssets photoDigest "imessage" ::
    .claim 0 "5f" :: .uploaded 0 "5f" .synced :: photoSend

/-- The run once it has taken the message away and sent it again. -/
def photoReplaced : PushProgress :=
  { PushProgress.new (photoPush .replace sentJournal) photoAssets photoDigest "imessage" with
    done := .assetOk "5f" .synced :: photoEffects.map .push
    settled := [(0, "5f")]
    committed := [photoBatch]
    wiped := true
    taken := ["g"] }

theorem photoReplace_runs : Run PhotoStep ⟨sentJournal, [sentPhoto], ["5f"], none⟩ photoReplace
    ⟨sentJournal, [sentPhoto], ["5f"], some photoReplaced⟩ := by
  have hclaim : (0, "5f") ∈ [(0, "5f")] := List.mem_cons_self
  have hposted : photoBatch ∈ postedBatches [.posted photoBatch] := by decide +kernel
  have hacked : ∀ batch, PushEffect.acknowledged photoBatch = .acknowledged batch →
      batch ∈ [photoBatch] := by
    intro batch h
    cases h
    exact List.mem_cons_self
  refine .cons ⟨.start rfl rfl rfl rfl rfl photoPush_reads photo_resolves, photo_start_clear⟩ ?_
  refine .cons ⟨.claim rfl rfl (.inr (by decide +kernel)), nofun, nofun, nofun, nofun⟩ ?_
  refine .cons ⟨.uploaded rfl hclaim (by decide +kernel), nofun, nofun, nofun, nofun⟩ ?_
  refine .cons ⟨.effect rfl (by decide +kernel) (photo_prepared rfl rfl rfl) nofun, photo_clear⟩ ?_
  refine .cons ⟨.commit rfl hposted, nofun, nofun, nofun, nofun⟩ ?_
  refine .cons ⟨.effect rfl (by decide +kernel) nofun hacked, photo_clear⟩ ?_
  refine .cons ⟨.effect rfl (by decide +kernel) nofun nofun, photo_clear⟩ ?_
  exact .cons ⟨.effect rfl (by decide +kernel) nofun nofun, photo_clear⟩ (.nil _)

/-- A run sends the message and stops before it rewrites the journal, the account is swept, and a
    `replace` run takes the message away and sends it again: it has its photo. -/
theorem resumed_push_loses_no_file_photo :
    Run (UploadStep photoChat "https://vault.test" "alice") (.new [] [])
        (photoUpload ++ photoSend ++ [.stop, .sweep] ++ photoReplace)
        ⟨sentJournal, [sentPhoto], ["5f"], some photoReplaced⟩ ∧
      NoFileLost photoChat "https://vault.test" "alice" 1000000
        ⟨sentJournal, [sentPhoto], ["5f"], some photoReplaced⟩ := by
  have hsent := photoUpload_runs.append (photoSend_runs (by decide +kernel) rfl)
  have hnamed : ∀ sha256 ∈ (load "https://vault.test" "alice" sentJournal).assets,
      namedFingerprint [sentPhoto] sha256 = true := by decide +kernel
  have hswept : Run PhotoStep
      ⟨[], [sentPhoto], ["5f"],
        some (photoRun [] ([.assetOk "5f" .synced] ++ photoEffects.map .push) [photoBatch])⟩
      [.stop, .sweep] ⟨sentJournal, [sentPhoto], ["5f"], none⟩ := by
    refine .cons ⟨.stop rfl, nofun, fun _ r hr m _ g hg => ?_, nofun, nofun⟩ ?_
    · cases hr
      cases hg
    · exact .cons ⟨.sweep rfl, nofun, nofun, fun _ => hnamed, nofun⟩ (.nil _)
  have hrun := (hsent.append hswept).append photoReplace_runs
  exact ⟨hrun.mono fun _ _ _ h => h.1,
    resumed_push_loses_no_file (by decide) (fun _ hm => absurd hm List.not_mem_nil) hrun⟩

/-- A run stops after the upload, the photo is swept, and the next run believes its journal: it
    stores the message without the photo and reports success. -/
theorem swept_upload_loses_file :
    ∃ events u, Run (UploadStep photoChat "https://vault.test" "alice") (.new [] []) events u ∧
      ¬ NoFileLost photoChat "https://vault.test" "alice" 1000000 u := by
  have hupload := photoUpload_runs.mono fun _ _ _ h => h.1
  have hsend : Run PhotoStep ⟨photoJournal, [], [], some (photoRun photoJournal [] [])⟩ _ _ :=
    photoSend_runs (by decide +kernel) rfl
  have hswept : Run (UploadStep photoChat "https://vault.test" "alice")
      ⟨[], [], ["5f"], some (photoRun [] [.assetOk "5f" .synced] [])⟩
      [.stop, .sweep, .start (photoPush .append photoJournal) photoAssets photoDigest "imessage",
        .onServer 0 "5f"]
      ⟨photoJournal, [], [], some (photoRun photoJournal [] [])⟩ := by
    refine .cons (.stop rfl) (.cons (.sweep rfl) ?_)
    refine .cons (.start rfl rfl rfl rfl rfl photoPush_reads photo_resolves) ?_
    exact .cons (.onServer rfl rfl rfl (by decide +kernel)) (.nil _)
  refine ⟨_, _, hupload.append (hswept.append (hsend.mono fun _ _ _ h => h.1)), fun h => ?_⟩
  have hreport : (pushRun (photoPush .append photoJournal)).1 = .ok photoReport := by decide +kernel
  have hfile := h.ok _ photoReport rfl (by decide +kernel) hreport 0 _ rfl rfl "g"
    (by decide +kernel) "g" rfl photo (by decide +kernel) ⟨3, "5f"⟩ rfl (by decide +kernel)
  exact absurd hfile.1 List.not_mem_nil

end MessageCrate

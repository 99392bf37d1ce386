import MessageCrate.Import.Phases

/- The full-text index in step with the tables.

   `IndexedAt i` says the index holds of rowid `i` what the tables have of message `i`: one
   row, or none when there is no such message. A trigger's `reindex` makes it true at one
   rowid and leaves the others alone; a promotion's bulk pass makes it true at the messages
   above its watermark and at those that gained an attachment, and nothing changed at the
   rest. Every statement of an import, a wipe, a delete or an edit so keeps it at every
   rowid.

   What is proved:
     1. `indexedAt_reindex`: what one trigger does.
     2. `indexed_deleteMessage`, `indexed_updateMessage`, `indexed_updateAttachment`: what a
        statement does, its cascades included.
     3. `indexed_promoteStaged`: what the bulk pass does.
     4. `fts_in_step`: after any committed transactions the index is in step and the
        triggers are installed. -/
namespace MessageCrate
open Grouping SqlTable Table

namespace Db
variable (db : Db)

/-- The index rows of one rowid. -/
def entries (i : Int) : List FtsRow := db.messagesFts.filter (fun f => f.rowid = i)

/-- What the index is to hold of one rowid. -/
def wanted (i : Int) : List FtsRow := (db.messages.rows.filter (fun m => m.id = i)).map db.ftsRow

/-- The index is in step at one rowid. -/
def IndexedAt (i : Int) : Prop := db.entries i = db.wanted i

/-- The index is in step: one row for every message, of what the tables hold of it, and none
for any other rowid. -/
structure Indexed : Prop where
  one_row : ∀ m ∈ db.messages.rows,
    db.messagesFts.filter (fun f => f.rowid = m.id) = [db.ftsRow m]
  no_other : ∀ f ∈ db.messagesFts, ∃ m ∈ db.messages.rows, m.id = f.rowid

/-- What the index reads of a message itself. -/
def indexedColumns (m : MessageRow) : Int × Option String × Option String :=
  (m.id, m.body, m.subject)

variable {db} {db' : Db} {i : Int}

theorem filter_id_of_mem {m : MessageRow} (hm : m ∈ db.messages.rows) :
    db.messages.rows.filter (fun m' => m'.id = m.id) = [m] := by
  have hnodup : db.messages.rows.Nodup := List.Nodup.of_map _ db.messages.ids_nodup
  have hperm : (db.messages.rows.filter (fun m' => m'.id = m.id)).Perm [m] := by
    rw [List.perm_ext_iff_of_nodup (hnodup.filter _) (List.nodup_singleton m)]
    intro m'
    rw [List.mem_filter, List.mem_singleton]
    constructor
    · rintro ⟨hm', hid⟩
      have hid : m'.id = m.id := by simpa using hid
      exact Table.eq_of_id_eq hm' hm hid
    · rintro rfl
      exact ⟨hm, by simp⟩
  exact List.perm_singleton.mp hperm

theorem filter_id_of_not_mem (h : ∀ m ∈ db.messages.rows, m.id ≠ i) :
    db.messages.rows.filter (fun m => m.id = i) = [] := by
  refine List.filter_eq_nil_iff.mpr fun m hm => ?_
  simpa using h m hm

/-- In step at every rowid is in step. -/
theorem indexed_iff : db.Indexed ↔ ∀ i, db.IndexedAt i := by
  constructor
  · intro h i
    unfold IndexedAt entries wanted
    by_cases hi : ∃ m ∈ db.messages.rows, m.id = i
    · obtain ⟨m, hm, rfl⟩ := hi
      rw [h.one_row m hm, filter_id_of_mem hm]
      rfl
    · rw [filter_id_of_not_mem fun m hm hid => hi ⟨m, hm, hid⟩, List.map_nil]
      refine List.filter_eq_nil_iff.mpr fun f hf hid => hi ?_
      obtain ⟨m, hm, hmf⟩ := h.no_other f hf
      exact ⟨m, hm, hmf.trans (by simpa using hid)⟩
  · intro h
    refine ⟨fun m hm => ?_, fun f hf => ?_⟩
    · have hat := h m.id
      unfold IndexedAt entries wanted at hat
      rw [hat, filter_id_of_mem hm]
      rfl
    · have hmem : f ∈ db.entries f.rowid := List.mem_filter.mpr ⟨hf, by simp⟩
      rw [h f.rowid] at hmem
      obtain ⟨m, hm, -⟩ := List.mem_map.mp hmem
      obtain ⟨hm, hid⟩ := List.mem_filter.mp hm
      exact ⟨m, hm, by simpa using hid⟩

/-! What the index is to hold, from one state to the next. -/

theorem wanted_eq (db : Db) (i : Int) : db.wanted i =
    ((db.messages.rows.filter (fun m => m.id = i)).map indexedColumns).map
      (fun c => ⟨c.1, c.2.1.getD "", c.2.2.getD "", db.attachmentText i⟩) := by
  unfold wanted
  rw [List.map_map]
  refine List.map_congr_left fun m hm => ?_
  have hid : m.id = i := by simpa using (List.mem_filter.mp hm).2
  unfold ftsRow indexedColumns
  rw [Function.comp_apply, hid]

theorem wanted_congr
    (hmsg : (db'.messages.rows.filter (fun m => m.id = i)).map indexedColumns =
      (db.messages.rows.filter (fun m => m.id = i)).map indexedColumns)
    (hatt : db'.attachmentText i = db.attachmentText i) : db'.wanted i = db.wanted i := by
  rw [wanted_eq, wanted_eq, hmsg, hatt]

theorem indexedAt_congr (hfts : db'.messagesFts = db.messagesFts)
    (hmsg : (db'.messages.rows.filter (fun m => m.id = i)).map indexedColumns =
      (db.messages.rows.filter (fun m => m.id = i)).map indexedColumns)
    (hatt : db'.attachmentText i = db.attachmentText i) (h : db.IndexedAt i) :
    db'.IndexedAt i := by
  have hentries : db'.entries i = db.entries i := by
    unfold entries
    rw [hfts]
  unfold IndexedAt
  rw [hentries, wanted_congr hmsg hatt]
  exact h

theorem attachmentText_congr
    (h : (db'.attachments.rows.filter (fun a => a.messageId = i)).map attachmentTerms =
      (db.attachments.rows.filter (fun a => a.messageId = i)).map attachmentTerms) :
    db'.attachmentText i = db.attachmentText i := by
  unfold attachmentText
  rw [h]

theorem columns_update {f : Change MessageRow} {t : Table MessageRow}
    (h : ∀ m ∈ t.rows, m.id = i → indexedColumns (f.apply m) = indexedColumns m) :
    ((t.update f).rows.filter (fun m => m.id = i)).map indexedColumns =
      (t.rows.filter (fun m => m.id = i)).map indexedColumns := by
  rw [rows_update, List.filter_map, List.map_map]
  have hid : (fun m : MessageRow => decide (m.id = i)) ∘ f.apply = fun m => decide (m.id = i) := by
    funext m
    show decide (Row.id (f.apply m) = i) = _
    rw [f.id_apply]
    rfl
  rw [hid]
  refine List.map_congr_left fun m hm => ?_
  obtain ⟨hm, hmi⟩ := List.mem_filter.mp hm
  exact h m hm (by simpa using hmi)

theorem terms_update {f : Change AttachmentRow} {t : Table AttachmentRow}
    (h : ∀ a ∈ t.rows, (f.apply a).messageId = a.messageId ∧
      (a.messageId = i → attachmentTerms (f.apply a) = attachmentTerms a)) :
    ((t.update f).rows.filter (fun a => a.messageId = i)).map attachmentTerms =
      (t.rows.filter (fun a => a.messageId = i)).map attachmentTerms := by
  rw [rows_update, List.filter_map, List.map_map]
  have hfilter : t.rows.filter ((fun a : AttachmentRow => decide (a.messageId = i)) ∘ f.apply) =
      t.rows.filter (fun a => a.messageId = i) := by
    refine List.filter_congr fun a ha => ?_
    rw [Function.comp_apply, (h a ha).1]
  rw [hfilter]
  refine List.map_congr_left fun a ha => ?_
  obtain ⟨ha, hai⟩ := List.mem_filter.mp ha
  exact (h a ha).2 (by simpa using hai)

/-! Triggers. -/

@[simp] theorem reindex_messages (id : Int) (db : Db) : (db.reindex id).messages = db.messages := rfl
@[simp] theorem reindex_attachments (id : Int) (db : Db) :
    (db.reindex id).attachments = db.attachments := rfl
@[simp] theorem reindex_triggers (id : Int) (db : Db) : (db.reindex id).triggers = db.triggers := rfl
@[simp] theorem wanted_reindex (id i : Int) (db : Db) : (db.reindex id).wanted i = db.wanted i := rfl

theorem entries_reindex_self (id : Int) (db : Db) :
    (db.reindex id).entries id = db.wanted id := by
  unfold entries reindex
  rw [List.filter_append, List.filter_filter]
  have hold : db.messagesFts.filter (fun f => decide (f.rowid = id) && decide (f.rowid ≠ id)) =
      [] := List.filter_eq_nil_iff.mpr fun f _ => by simp
  rw [hold, List.nil_append]
  refine List.filter_eq_self.mpr fun f hf => ?_
  obtain ⟨m, hm, rfl⟩ := List.mem_map.mp hf
  exact (List.mem_filter.mp hm).2

theorem entries_reindex_of_ne {id : Int} (h : i ≠ id) (db : Db) :
    (db.reindex id).entries i = db.entries i := by
  unfold entries reindex
  rw [List.filter_append, List.filter_filter]
  have hnew : ((db.messages.rows.filter (fun m => m.id = id)).map db.ftsRow).filter
      (fun f => decide (f.rowid = i)) = [] := by
    refine List.filter_eq_nil_iff.mpr fun f hf => ?_
    obtain ⟨m, hm, rfl⟩ := List.mem_map.mp hf
    have hid : m.id = id := by simpa using (List.mem_filter.mp hm).2
    show ¬ decide (m.id = i) = true
    simp only [hid, decide_eq_true_eq]
    omega
  rw [hnew, List.append_nil]
  refine List.filter_congr fun f _ => ?_
  by_cases hf : f.rowid = i
  · simp [hf, h]
  · simp [hf]

/-- A trigger puts its message in step, and leaves the rest as they were. -/
theorem indexedAt_reindex {id : Int} (h : i ≠ id → db.IndexedAt i) : (db.reindex id).IndexedAt i := by
  unfold IndexedAt
  rw [wanted_reindex]
  by_cases hi : i = id
  · subst hi
    exact entries_reindex_self i db
  · rw [entries_reindex_of_ne hi]
    exact h hi

/-- Triggers run one after the other: a message one of them names is put in step, the rest
stay in step. -/
theorem indexedAt_reindexAll (db : Db) (ids : List Int) (h : i ∉ ids → db.IndexedAt i) :
    (ids.foldl (fun db id => db.reindex id) db).IndexedAt i ∧
      (ids.foldl (fun db id => db.reindex id) db).messages = db.messages ∧
      (ids.foldl (fun db id => db.reindex id) db).triggers = db.triggers := by
  induction ids generalizing db with
  | nil => exact ⟨h (by simp), rfl, rfl⟩
  | cons id ids ih =>
    rw [List.foldl_cons]
    refine ih _ fun hi => indexedAt_reindex fun hne => h ?_
    simp [hne, hi]

/-! Statements on attachments. -/

theorem attachmentText_deleteAttachment {a : AttachmentRow} {t : Table AttachmentRow}
    (ha : ∀ r ∈ t.rows, r.id = a.id → r.messageId = a.messageId) (hne : i ≠ a.messageId) :
    (t.delete (fun r : AttachmentRow => r.id = a.id)).rows.filter (fun r => r.messageId = i) =
      t.rows.filter (fun r => r.messageId = i) := by
  rw [rows_delete, List.filter_filter]
  refine List.filter_congr fun r hr => ?_
  by_cases hid : r.id = a.id
  · have hmsg : r.messageId ≠ i := by
      rw [ha r hr hid]
      exact fun he => hne he.symm
    simp [hmsg]
  · simp [hid]

/-- A deleted attachment leaves every message that was in step in step. -/
theorem indexedAt_deleteAttachment (htrig : db.triggers = true) {a : AttachmentRow}
    (ha : ∀ r ∈ db.attachments.rows, r.id = a.id → r.messageId = a.messageId)
    (h : db.IndexedAt i) : (db.deleteAttachment a).IndexedAt i := by
  have hdelete : db.deleteAttachment a = (db.setAttachments
      (db.attachments.delete (fun r : AttachmentRow => r.id = a.id))).reindex a.messageId :=
    if_pos htrig
  rw [hdelete]
  refine indexedAt_reindex fun hne => indexedAt_congr (by rfl) (by rfl) ?_ h
  refine attachmentText_congr ?_
  rw [setAttachments_attachments, attachmentText_deleteAttachment ha hne]

theorem deleteAttachment_frame (db : Db) (a : AttachmentRow) :
    (db.deleteAttachment a).messages = db.messages ∧
      (db.deleteAttachment a).triggers = db.triggers ∧
      ∀ r ∈ (db.deleteAttachment a).attachments.rows, r ∈ db.attachments.rows := by
  have hsub : ∀ r ∈ (db.attachments.delete (fun r : AttachmentRow => r.id = a.id)).rows,
      r ∈ db.attachments.rows := fun r hr => (mem_delete.mp hr).1
  unfold deleteAttachment
  simp only
  split
  · exact ⟨rfl, rfl, hsub⟩
  · exact ⟨rfl, rfl, hsub⟩

/-- Rows of the table deleted one by one. -/
theorem indexedAt_deleteAttachments (db : Db) (htrig : db.triggers = true) {as : List AttachmentRow}
    (has : ∀ a ∈ as, ∀ r ∈ db.attachments.rows, r.id = a.id → r.messageId = a.messageId) :
    (db.IndexedAt i → (as.foldl deleteAttachment db).IndexedAt i) ∧
      (as.foldl deleteAttachment db).messages = db.messages ∧
      (as.foldl deleteAttachment db).triggers = true := by
  induction as generalizing db with
  | nil => exact ⟨fun h => h, rfl, htrig⟩
  | cons a as ih =>
    obtain ⟨hmsg, htr, hatt⟩ := deleteAttachment_frame db a
    obtain ⟨hat, hmsgs, htrs⟩ := ih (db.deleteAttachment a) (by rw [htr, htrig])
      (fun a' ha' r hr => has a' (List.mem_cons_of_mem _ ha') r (hatt r hr))
    refine ⟨fun h => hat ?_, hmsgs.trans hmsg, htrs⟩
    exact indexedAt_deleteAttachment htrig (has a List.mem_cons_self) h

/-- A row of the table is the one row of its id. -/
theorem attachment_of_id {p : AttachmentRow → Bool} :
    ∀ a ∈ db.attachments.rows.filter p, ∀ r ∈ db.attachments.rows,
      r.id = a.id → r.messageId = a.messageId := by
  intro a ha r hr hid
  have hsame : r = a := Table.eq_of_id_eq hr (List.mem_filter.mp ha).1 hid
  rw [hsame]

/-- An attachment's new name and transcription reach the index. -/
theorem indexedAt_updateAttachment (htrig : db.triggers = true) (id : Int)
    (originalName transcription : Option String) (h : db.IndexedAt i) :
    (db.updateAttachment id originalName transcription).IndexedAt i ∧
      (db.updateAttachment id originalName transcription).triggers = true := by
  set db₁ := db.setAttachments
    (db.attachments.update (attachmentChange id originalName transcription)) with hdb₁
  set ids := (db.attachments.rows.filter (fun a => a.id = id)).map AttachmentRow.messageId with hids
  have hupdate : db.updateAttachment id originalName transcription =
      ids.foldl (fun db id => db.reindex id) db₁ := by
    rw [hids, List.foldl_map]
    exact if_pos htrig
  obtain ⟨hat, -, htr⟩ := indexedAt_reindexAll (i := i) db₁ ids fun hi => by
    refine indexedAt_congr (by rfl) (by rfl) (attachmentText_congr ?_) h
    refine terms_update fun a ha => ⟨?_, fun hmsg => ?_⟩
    · show (if a.id = id then _ else a).messageId = a.messageId
      split <;> rfl
    · -- The attachment is not the one renamed: message `i` has none of that id.
      have hid : a.id ≠ id := by
        intro hid
        refine hi (List.mem_map.mpr ⟨a, List.mem_filter.mpr ⟨ha, ?_⟩, hmsg⟩)
        simpa using hid
      show attachmentTerms (if a.id = id then _ else a) = attachmentTerms a
      rw [if_neg hid]
  rw [hupdate]
  exact ⟨hat, htr.trans htrig⟩

/-! Statements on messages. -/

/-- A message's new body and subject reach the index. -/
theorem indexedAt_updateMessage (htrig : db.triggers = true) (id : Int)
    (body subject : Option String) (h : db.IndexedAt i) :
    (db.updateMessage id body subject).IndexedAt i ∧
      (db.updateMessage id body subject).triggers = true := by
  set db₁ := db.setMessages (db.messages.update (messageChange id body subject)) with hdb₁
  set ids := (db.messages.rows.filter (fun m => m.id = id)).map MessageRow.id with hids
  have hupdate : db.updateMessage id body subject =
      ids.foldl (fun db id => db.reindex id) db₁ := by
    rw [hids, List.foldl_map]
    exact if_pos htrig
  obtain ⟨hat, -, htr⟩ := indexedAt_reindexAll (i := i) db₁ ids fun hi => by
    refine indexedAt_congr (by rfl) (columns_update fun m hm hmi => ?_) (by rfl) h
    -- The message is not the one rewritten.
    have hid : m.id ≠ id := by
      intro hid
      refine hi (List.mem_map.mpr ⟨m, List.mem_filter.mpr ⟨hm, ?_⟩, hmi⟩)
      simpa using hid
    show indexedColumns (if m.id = id then _ else m) = indexedColumns m
    rw [if_neg hid]
  rw [hupdate]
  exact ⟨hat, htr.trans htrig⟩

theorem columns_clearDuplicateOf (ids : Int → Bool) (m : MessageRow) :
    indexedColumns ((clearDuplicateOf ids).apply m) = indexedColumns m := by
  unfold clearDuplicateOf
  simp only
  split <;> rfl

@[simp] theorem ftsDelete_messages (id : Int) (db : Db) :
    (db.ftsDelete id).messages = db.messages := rfl

/-- A deleted message leaves the index, with what cascades from it, and no other message of
the index changes. -/
theorem indexedAt_deleteMessage (htrig : db.triggers = true) {m : MessageRow}
    (h : i ≠ m.id → db.IndexedAt i) :
    (db.deleteMessage m).IndexedAt i ∧ (db.deleteMessage m).triggers = true := by
  set db₁ := db.setMessages ((db.messages.delete (fun m' : MessageRow => m'.id = m.id)).update
    (clearDuplicateOf (fun id => id = m.id))) with hdb₁
  set db₂ := (db₁.attachments.rows.filter (fun a => a.messageId = m.id)).foldl deleteAttachment db₁
    with hdb₂
  obtain ⟨hat₂, hmsg₂, htr₂⟩ := indexedAt_deleteAttachments (i := i) db₁ htrig
    (attachment_of_id (p := fun a => a.messageId = m.id))
  set db₃ := db₂.setTapbacks (db₂.tapbacks.delete (fun t : TapbackRow => t.messageId = m.id))
    with hdb₃
  have hdelete : db.deleteMessage m = db₃.ftsDelete m.id := if_pos htr₂
  rw [hdelete]
  refine ⟨?_, htr₂⟩
  by_cases hi : i = m.id
  · subst hi
    have hentries : (db₃.ftsDelete m.id).entries m.id = [] := by
      unfold entries ftsDelete
      rw [List.filter_filter]
      exact List.filter_eq_nil_iff.mpr fun f _ => by simp
    have hwanted : (db₃.ftsDelete m.id).wanted m.id = [] := by
      unfold wanted
      rw [ftsDelete_messages, filter_id_of_not_mem, List.map_nil]
      intro m' hm'
      have hmem : m' ∈ db₁.messages.rows := by
        rw [← hmsg₂]
        exact hm'
      obtain ⟨m₀, hm₀, rfl⟩ := List.mem_map.mp hmem
      have hne : m₀.id ≠ m.id := by simpa using (mem_delete.mp hm₀).2
      exact fun he => hne (((clearDuplicateOf _).id_apply m₀).symm.trans he)
    exact hentries.trans hwanted.symm
  · have h₁ : db₁.IndexedAt i := by
      refine indexedAt_congr (by rfl) ?_ (by rfl) (h hi)
      refine (columns_update fun m' _ _ => columns_clearDuplicateOf _ m').trans ?_
      rw [rows_delete, List.filter_filter]
      congr 1
      refine List.filter_congr fun m' _ => ?_
      by_cases hid : m'.id = i
      · simp [hid, hi]
      · simp [hid]
    have h₂ := hat₂ h₁
    unfold IndexedAt at h₂ ⊢
    refine Eq.trans ?_ h₂
    unfold entries ftsDelete
    rw [List.filter_filter]
    refine List.filter_congr fun f _ => ?_
    by_cases hf : f.rowid = i
    · simp [hf, hi]
    · simp [hf]

theorem indexedAt_deleteMessages (htrig : db.triggers = true) (ms : List MessageRow)
    (h : i ∉ ms.map MessageRow.id → db.IndexedAt i) :
    (ms.foldl deleteMessage db).IndexedAt i ∧ (ms.foldl deleteMessage db).triggers = true := by
  induction ms generalizing db with
  | nil => exact ⟨h (by simp), htrig⟩
  | cons m ms ih =>
    rw [List.foldl_cons]
    have htr := (indexedAt_deleteMessage (i := m.id) htrig (m := m) (fun hne => absurd rfl hne)).2
    refine ih htr fun hi => (indexedAt_deleteMessage htrig fun hne => h ?_).1
    simp [hne, hi]

/-! Wipes and deletes. -/

theorem indexedAt_deleteConversation (htrig : db.triggers = true) (c : ConversationRow)
    (h : db.IndexedAt i) :
    (db.deleteConversation c).IndexedAt i ∧ (db.deleteConversation c).triggers = true := by
  set db₁ := (db.setConversations
    (db.conversations.delete (fun c' : ConversationRow => c'.id = c.id))).setParticipants
      (db.participants.delete (fun p : ParticipantRow => p.conversationId = c.id)) with hdb₁
  have hdelete : db.deleteConversation c =
      (db₁.messages.rows.filter (fun m => m.conversationId = c.id)).foldl deleteMessage db₁ := rfl
  have htrig₁ : db₁.triggers = true := htrig
  rw [hdelete]
  refine indexedAt_deleteMessages htrig₁ _ fun _ => ?_
  exact indexedAt_congr (by rfl) (by rfl) (by rfl) h

theorem indexedAt_deleteMessagesForSource (htrig : db.triggers = true) (accountId : Int)
    (source : String) (h : db.IndexedAt i) :
    (db.deleteMessagesForSource accountId source).IndexedAt i ∧
      (db.deleteMessagesForSource accountId source).triggers = true := by
  unfold deleteMessagesForSource
  set ids := db.messageIdsForSource accountId source
  obtain ⟨hat, -, htr⟩ := indexedAt_deleteAttachments (i := i) db htrig
    (attachment_of_id (p := fun a => ids a.messageId))
  refine indexedAt_deleteMessages (by exact htr) _ fun _ => ?_
  refine indexedAt_congr (by rfl) ?_ (by rfl) (hat h)
  exact columns_update fun m _ _ => columns_clearDuplicateOf _ m

end Db

/-! The bulk pass. -/

section
variable {w : Walk} {s : Staging} {accountId : Int} {msgMap : List (Int × Int)} {db db' : Db}
  {stats : PromoteStats}

theorem filter_wanted (i id : Int) : (db.wanted id).filter (fun f => decide (f.rowid = i)) =
    if id = i then db.wanted i else [] := by
  have hrowid : ∀ f ∈ db.wanted id, f.rowid = id := by
    intro f hf
    obtain ⟨m, hm, rfl⟩ := List.mem_map.mp hf
    have hid : m.id = id := by simpa using (List.mem_filter.mp hm).2
    exact hid
  split
  · next hid =>
    subst hid
    exact List.filter_eq_self.mpr fun f hf => by simpa using hrowid f hf
  · next hid =>
    refine List.filter_eq_nil_iff.mpr fun f hf => ?_
    rw [hrowid f hf]
    simpa using hid

/-- Rows written once for each id of a list without repeats. -/
theorem filter_flatMap_wanted {ids : List Int} (hnodup : ids.Nodup) (i : Int) :
    (ids.flatMap db.wanted).filter (fun f => decide (f.rowid = i)) =
      if i ∈ ids then db.wanted i else [] := by
  induction ids with
  | nil => rfl
  | cons id ids ih =>
    rw [List.nodup_cons] at hnodup
    rw [List.flatMap_cons, List.filter_append, ih hnodup.2, filter_wanted]
    by_cases hid : id = i
    · subst hid
      simp [hnodup.1]
    · have hne : ¬ i = id := fun he => hid he.symm
      simp [hid, hne]

/-- What the bulk pass leaves at one rowid: the row it writes when it names the message, what
was there otherwise. -/
theorem entries_indexFts (messagesBefore attachmentsBefore i : Int) :
    (indexFts w msgMap messagesBefore attachmentsBefore db).entries i =
      (if ∃ a ∈ db.attachments.rows, attachmentsBefore < a.id ∧ a.messageId ≤ messagesBefore ∧
          a.messageId = i then db.wanted i
      else if messagesBefore < i ∧ i ∈ msgMap.map Prod.snd then db.entries i ++ db.wanted i
      else db.entries i) := by
  unfold indexFts
  simp only
  set gained := (db.attachments.rows.filter (fun a => attachmentsBefore < a.id ∧
    a.messageId ≤ messagesBefore)).map AttachmentRow.messageId with hgained
  set ids := (((msgMap.map Prod.snd).filter (fun id => messagesBefore < id)) ++ gained).dedup
    with hids
  have hmem : i ∈ gained ↔ ∃ a ∈ db.attachments.rows, attachmentsBefore < a.id ∧
      a.messageId ≤ messagesBefore ∧ a.messageId = i := by
    rw [hgained, List.mem_map]
    simp only [List.mem_filter, decide_eq_true_eq, and_assoc]
  have hmemIds : i ∈ ids ↔ (messagesBefore < i ∧ i ∈ msgMap.map Prod.snd) ∨ i ∈ gained := by
    rw [hids, List.mem_dedup, List.mem_append, List.mem_filter, decide_eq_true_eq, and_comm]
  have hwritten : ((w.order ids).flatMap db.wanted).filter (fun f => decide (f.rowid = i)) =
      if i ∈ ids then db.wanted i else [] := by
    rw [filter_flatMap_wanted ((w.perm ids).nodup_iff.mpr (List.nodup_dedup _))]
    simp only [mem_walk]
  have hentries : (db.messagesFts.filter (fun f => decide (f.rowid ∉ gained))).filter
      (fun f => decide (f.rowid = i)) = if i ∈ gained then [] else db.entries i := by
    rw [List.filter_filter]
    split
    · next hi =>
      refine List.filter_eq_nil_iff.mpr fun f _ => ?_
      by_cases hf : f.rowid = i
      · simp [hf, hi]
      · simp [hf]
    · next hi =>
      refine List.filter_congr fun f _ => ?_
      by_cases hf : f.rowid = i
      · simp [hf, hi]
      · simp [hf]
  unfold Db.entries at hentries ⊢
  rw [List.filter_append, hentries]
  refine (congrArg _ hwritten).trans ?_
  by_cases hi : i ∈ gained
  · rw [if_pos hi, if_pos (hmemIds.mpr (Or.inr hi)), if_pos (hmem.mp hi), List.nil_append]
  · rw [if_neg hi, if_neg fun h => hi (hmem.mpr h)]
    by_cases hnew : messagesBefore < i ∧ i ∈ msgMap.map Prod.snd
    · rw [if_pos (hmemIds.mpr (Or.inl hnew)), if_pos hnew]
    · rw [if_neg fun h => (hmemIds.mp h).elim hnew hi, if_neg hnew, List.append_nil]

/-- A file taken changes no name and no transcription. -/
theorem fillFile_terms (staged : List (AttachmentRow × Int)) (a : AttachmentRow) :
    ((fillFile staged).apply a).messageId = a.messageId ∧
      Db.attachmentTerms ((fillFile staged).apply a) = Db.attachmentTerms a := by
  unfold fillFile
  simp only
  split <;> exact ⟨rfl, rfl⟩

/-- A message the promotion inserted is above the watermark, and the map names it. -/
theorem Promotion.mem_messages (h : Promotion w s accountId msgMap db db' stats) {m : MessageRow}
    (hm : m ∈ db'.messages.rows) :
    m ∈ db.messages.rows ∨ (db.messages.maxId < m.id ∧ m.id ∈ msgMap.map Prod.snd) := by
  obtain ⟨added, hrows, hadded⟩ := insertOrIgnoreAll_spec
    (chunkedMessages (stagedMessages s accountId (s.convMap accountId db'))) db.messages
  rw [← h.messages] at hrows
  have hmem := hm
  rw [hrows] at hmem
  rcases List.mem_append.mp hmem with hmem | hmem
  · exact Or.inl hmem
  · obtain ⟨habove, n, hn, hrow⟩ := hadded m hmem
    obtain ⟨p, hp, rfl⟩ := mem_chunkedMessages.mp hn
    have hkey : m.guidKey = some (p.1.accountId, p.1.source, p.1.guid) := by
      rw [hrow]
      exact (p.1.promoted p.2).key_row _
    have hlookup : msgMap.lookup p.1.id = some m.id := by
      rw [h.lookup_msgMap]
      exact (lookup_msgMap_iff h.held).mpr ⟨p, hp, rfl, m, hm, hkey, rfl⟩
    obtain ⟨front, back, hsplit, -⟩ := List.lookup_eq_some_iff.mp hlookup
    refine Or.inr ⟨habove, List.mem_map.mpr ⟨(p.1.id, m.id), ?_, rfl⟩⟩
    rw [hsplit]
    simp

/-- The rows of a message that was there before are the rows it had. -/
theorem Promotion.filter_messages (h : Promotion w s accountId msgMap db db' stats) {i : Int}
    (hi : i ≤ db.messages.maxId) :
    db'.messages.rows.filter (fun m => m.id = i) = db.messages.rows.filter (fun m => m.id = i) := by
  obtain ⟨added, hrows, hadded⟩ := insertOrIgnoreAll_spec
    (chunkedMessages (stagedMessages s accountId (s.convMap accountId db'))) db.messages
  rw [h.messages, hrows, List.filter_append]
  have hnone : added.filter (fun m => decide (m.id = i)) = [] := by
    refine List.filter_eq_nil_iff.mpr fun m hm => ?_
    have habove : db.messages.maxId < m.id := (hadded m hm).1
    simp only [decide_eq_true_eq]
    omega
  rw [hnone, List.append_nil]

/-- A message that gained no attachment has the names and transcriptions it had. -/
theorem Promotion.attachmentText (h : Promotion w s accountId msgMap db db' stats) {i : Int}
    (hgained : ¬ ∃ a ∈ db'.attachments.rows, db.attachments.maxId < a.id ∧
      a.messageId ≤ db.messages.maxId ∧ a.messageId = i) (hi : i ≤ db.messages.maxId) :
    db'.attachmentText i = db.attachmentText i := by
  refine Db.attachmentText_congr ?_
  obtain ⟨added, hrows, hadded⟩ := insertOrIgnoreAll_spec
    (newAttachments (stagedAttachments w s msgMap)
      (db.attachments.update (fillFile (stagedAttachments w s msgMap))).rows)
    (db.attachments.update (fillFile (stagedAttachments w s msgMap)))
  rw [← h.attachments] at hrows
  have hnone : added.filter (fun a => decide (a.messageId = i)) = [] := by
    refine List.filter_eq_nil_iff.mpr fun a ha => ?_
    have habove : db.attachments.maxId < a.id := by
      rw [← maxId_update (fillFile (stagedAttachments w s msgMap)) db.attachments]
      exact (hadded a ha).1
    simp only [decide_eq_true_eq]
    intro hmsg
    refine hgained ⟨a, ?_, habove, by omega, hmsg⟩
    rw [hrows]
    exact List.mem_append_right _ ha
  rw [hrows, List.filter_append, hnone, List.append_nil]
  exact Db.terms_update fun a _ => ⟨(fillFile_terms _ a).1, fun _ => (fillFile_terms _ a).2⟩

/-- A promotion leaves the index in step: the messages above the watermark and those that
gained an attachment are written, and the index has nothing new to hold of the rest. -/
theorem Promotion.indexedAt (h : Promotion w s accountId msgMap db db' stats) {i : Int}
    (hat : db.IndexedAt i) : db'.IndexedAt i := by
  obtain ⟨paused, hpmsg, hpatt, hpfts, hfts⟩ := h.messagesFts
  have hentries : db'.entries i =
      (indexFts w msgMap db.messages.maxId db.attachments.maxId paused).entries i := by
    unfold Db.entries
    rw [hfts]
  have hwanted : paused.wanted i = db'.wanted i :=
    Db.wanted_congr (by rw [hpmsg]) (Db.attachmentText_congr (by rw [hpatt]))
  have hpentries : paused.entries i = db.entries i := by
    unfold Db.entries
    rw [hpfts]
  -- Above the watermark the index held nothing.
  have hnone : db.messages.maxId < i → db.wanted i = [] := by
    intro hi
    unfold Db.wanted
    rw [Db.filter_id_of_not_mem, List.map_nil]
    intro m hm he
    have hle : m.id ≤ db.messages.maxId := id_le_maxId hm
    omega
  unfold Db.IndexedAt at hat ⊢
  rw [hentries, entries_indexFts, hwanted, hpentries, hpatt, hat]
  split
  · rfl
  · next hgained =>
    split
    · next hnew => rw [hnone hnew.1, List.nil_append]
    · next hnew =>
      by_cases hi : i ≤ db.messages.maxId
      · refine (Db.wanted_congr ?_ (h.attachmentText hgained hi)).symm
        rw [h.filter_messages hi]
      · -- No message of this rowid: one that went in would be named by the map.
        have hi : db.messages.maxId < i := by omega
        rw [hnone hi]
        unfold Db.wanted
        rw [Db.filter_id_of_not_mem, List.map_nil]
        intro m hm hid
        rcases h.mem_messages hm with hold | ⟨-, hmap⟩
        · have hle : m.id ≤ db.messages.maxId := id_le_maxId hold
          omega
        · exact hnew ⟨hi, hid ▸ hmap⟩

end

/-! Transactions. -/

/-- What may commit: an import, a wipe of a source, a deleted conversation, an edit. -/
inductive Txn where
  | promote (handles : Handles) (w : Walk) (mode : ImportMode) (accountId : Int)
      (fillContentKeys : Bool) (wipeSources : List String) (s : Staging)
  | wipeSource (accountId : Int) (source : String)
  | deleteConversation (id : Int)
  | updateMessage (id : Int) (body subject : Option String)
  | updateAttachment (id : Int) (originalName transcription : Option String)

section
variable (sha256Hex : ByteArray → String) (rfc3339Secs : String → Option Int)

/-- The database a transaction is about to commit; `none` when it fails. -/
def Txn.run (db : Db) : Txn → Option Db
  | .promote handles w mode accountId fillContentKeys wipeSources s =>
    (promoteAppend sha256Hex rfc3339Secs handles w mode accountId fillContentKeys wipeSources s
      db).map Prod.fst
  | .wipeSource accountId source => some (db.deleteMessagesForSource accountId source)
  | .deleteConversation id =>
    some ((db.conversations.rows.filter (fun c => c.id = id)).foldl Db.deleteConversation db)
  | .updateMessage id body subject => some (db.updateMessage id body subject)
  | .updateAttachment id originalName transcription =>
    some (db.updateAttachment id originalName transcription)

/-- One transaction after the other. One that fails is rolled back, its trigger drop with it. -/
def commitAll (txns : List Txn) (db : Db) : Db :=
  txns.foldl (fun db t => (t.run sha256Hex rfc3339Secs db).getD db) db

variable {sha256Hex rfc3339Secs}

/-- What every commit keeps. -/
def Db.InStep (db : Db) : Prop := (∀ i, db.IndexedAt i) ∧ db.triggers = true

theorem inStep_foldl {α : Type*} {f : Db → α → Db} (hf : ∀ db x, db.InStep → (f db x).InStep)
    (l : List α) {db : Db} (h : db.InStep) : (l.foldl f db).InStep := by
  induction l generalizing db with
  | nil => exact h
  | cons x l ih => exact ih (hf db x h)

theorem inStep_deleteMessagesForSource {accountId : Int} (db : Db) (source : String)
    (h : db.InStep) :
    (db.deleteMessagesForSource accountId source).InStep :=
  ⟨fun i => (Db.indexedAt_deleteMessagesForSource h.2 accountId source (h.1 i)).1,
    (Db.indexedAt_deleteMessagesForSource h.2 accountId source (h.1 0)).2⟩

theorem inStep_fillMissingContentKeys {handles : Handles} {accountId : Int} {db : Db}
    (h : db.InStep) :
    (fillMissingContentKeys sha256Hex rfc3339Secs handles accountId db).InStep := by
  refine ⟨fun i => Db.indexedAt_congr (by rfl) ?_ (by rfl) (h.1 i), h.2⟩
  refine Db.columns_update fun m _ _ => ?_
  unfold rekey Db.indexedColumns
  simp only
  split <;> rfl

theorem inStep_promoteAppend {handles : Handles} {w : Walk} {mode : ImportMode} {accountId : Int}
    {fillContentKeys : Bool} {wipeSources : List String} {s : Staging} {db db' : Db}
    {stats : PromoteStats} (h : db.InStep)
    (hrun : promoteAppend sha256Hex rfc3339Secs handles w mode accountId fillContentKeys
      wipeSources s db = some (db', stats)) : db'.InStep := by
  unfold promoteAppend at hrun
  obtain ⟨⟨db₁, stats₁⟩, hstaged, hdone⟩ := Option.bind_eq_some_iff.mp hrun
  obtain ⟨msgMap, hp⟩ := promoteStaged_spec hstaged
  have hwiped : (if mode = .replace then db.wipeSources accountId wipeSources else db).InStep := by
    split
    · exact inStep_foldl inStep_deleteMessagesForSource wipeSources h
    · exact h
  have hpromoted : db₁.InStep := ⟨fun i => hp.indexedAt (hwiped.1 i), hp.triggers⟩
  cases hdone
  split
  · exact inStep_fillMissingContentKeys hpromoted
  · exact hpromoted

/-- One transaction keeps the index in step. -/
theorem inStep_run {t : Txn} {db db' : Db} (h : db.InStep)
    (hrun : t.run sha256Hex rfc3339Secs db = some db') : db'.InStep := by
  cases t with
  | promote handles w mode accountId fillContentKeys wipeSources s =>
    obtain ⟨⟨db₁, stats⟩, hp, rfl⟩ := Option.map_eq_some_iff.mp hrun
    exact inStep_promoteAppend h hp
  | wipeSource accountId source =>
    cases hrun
    exact inStep_deleteMessagesForSource db source h
  | deleteConversation id =>
    cases hrun
    refine inStep_foldl (fun db c hdb => ?_) _ h
    exact ⟨fun i => (Db.indexedAt_deleteConversation hdb.2 c (hdb.1 i)).1,
      (Db.indexedAt_deleteConversation hdb.2 c (hdb.1 0)).2⟩
  | updateMessage id body subject =>
    cases hrun
    exact ⟨fun i => (Db.indexedAt_updateMessage h.2 id body subject (h.1 i)).1,
      (Db.indexedAt_updateMessage h.2 id body subject (h.1 0)).2⟩
  | updateAttachment id originalName transcription =>
    cases hrun
    exact ⟨fun i => (Db.indexedAt_updateAttachment h.2 id originalName transcription (h.1 i)).1,
      (Db.indexedAt_updateAttachment h.2 id originalName transcription (h.1 0)).2⟩

/-- **The full-text index stays in step.** After any transactions from the empty database the
index holds one row for every message, of what the tables hold of it, and no other row, and
the triggers are installed. -/
theorem fts_in_step (sha256Hex : ByteArray → String) (rfc3339Secs : String → Option Int)
    (txns : List Txn) :
    (commitAll sha256Hex rfc3339Secs txns Db.empty).Indexed ∧
      (commitAll sha256Hex rfc3339Secs txns Db.empty).triggers = true := by
  have hempty : Db.empty.InStep := ⟨fun _ => rfl, rfl⟩
  have hrun : (commitAll sha256Hex rfc3339Secs txns Db.empty).InStep := by
    refine inStep_foldl (fun db t hdb => ?_) txns hempty
    cases hrun : t.run sha256Hex rfc3339Secs db with
    | none => exact hdb
    | some db' => exact inStep_run hdb hrun
  exact ⟨Db.indexed_iff.mpr hrun.1, hrun.2⟩

end

end MessageCrate

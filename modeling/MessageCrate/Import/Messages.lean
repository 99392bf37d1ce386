import MessageCrate.Import.Again

/- The messages table through wipes, promotions and dedupe runs.

   A statement of an import either keeps a message, inserts it, or wipes it with its source.
   A message that is kept is the same message (`SameBut`): only its content key and its
   duplicate flag may be written.

   What is proved:
     1. `rows_deleteMessagesForSource`: a wipe deletes the source's messages, and clears the
        flags that point at them.
     2. `promoteAppend_origin`: a message after a promotion was there before, or was staged.
     3. `promoteAppend_keeps`: a message a promotion does not wipe is still there.
     4. `promoteAppend_holds`: a staged message is there.
     5. `promoteAppend_owned`: messages keep the account of their conversation. -/
namespace MessageCrate
open Grouping SqlTable Table

/-- The same message, but for its content key and its duplicate flag. -/
def MessageRow.SameBut (m m₀ : MessageRow) : Prop :=
  { m with contentKey := m₀.contentKey, duplicateOf := m₀.duplicateOf } = m₀

namespace MessageRow.SameBut
variable {m m₀ m₁ : MessageRow}

theorem refl (m : MessageRow) : m.SameBut m := rfl

theorem trans (h : m₁.SameBut m) (h' : m.SameBut m₀) : m₁.SameBut m₀ := by
  unfold MessageRow.SameBut at h h' ⊢
  rw [← h', ← h]

theorem id_eq (h : m.SameBut m₀) : m.id = m₀.id := by
  rw [← h]

theorem accountId_eq (h : m.SameBut m₀) : m.accountId = m₀.accountId := by
  rw [← h]

theorem source_eq (h : m.SameBut m₀) : m.source = m₀.source := by
  rw [← h]

theorem guid_eq (h : m.SameBut m₀) : m.guid = m₀.guid := by
  rw [← h]

theorem importId_eq (h : m.SameBut m₀) : m.importId = m₀.importId := by
  rw [← h]

theorem conversationId_eq (h : m.SameBut m₀) : m.conversationId = m₀.conversationId := by
  rw [← h]

end MessageRow.SameBut

theorem sameBut_rekey (keys : List (Int × String)) (m : MessageRow) :
    ((rekey keys).apply m).SameBut m := by
  unfold rekey MessageRow.SameBut
  simp only
  split <;> rfl

theorem sameBut_clearDuplicateOf (ids : Int → Bool) (m : MessageRow) :
    ((Db.clearDuplicateOf ids).apply m).SameBut m := by
  unfold Db.clearDuplicateOf MessageRow.SameBut
  simp only
  split <;> rfl

theorem clearDuplicateOf_contentKey (ids : Int → Bool) (m : MessageRow) :
    ((Db.clearDuplicateOf ids).apply m).contentKey = m.contentKey := by
  unfold Db.clearDuplicateOf
  simp only
  split <;> rfl

theorem clearDuplicateOf_duplicateOf (ids : Int → Bool) (m : MessageRow) :
    ((Db.clearDuplicateOf ids).apply m).duplicateOf = m.duplicateOf ∨
      (((Db.clearDuplicateOf ids).apply m).duplicateOf = none ∧
        ∃ d, m.duplicateOf = some d ∧ ids d = true) := by
  unfold Db.clearDuplicateOf
  simp only
  split
  · next h =>
    cases hd : m.duplicateOf with
    | none => simp [hd] at h
    | some d => exact Or.inr ⟨rfl, d, rfl, by simpa [hd] using h⟩
  · exact Or.inl rfl

theorem rekey_duplicateOf (keys : List (Int × String)) (m : MessageRow) :
    ((rekey keys).apply m).duplicateOf = m.duplicateOf := by
  unfold rekey
  simp only
  split <;> rfl

/-! Wipes. -/

namespace Db
variable {db : Db}

theorem clearDuplicateOf_twice (ids ids' : Int → Bool) (m : MessageRow) :
    (clearDuplicateOf ids').apply ((clearDuplicateOf ids).apply m) =
      (clearDuplicateOf (fun id => ids id || ids' id)).apply m := by
  unfold clearDuplicateOf
  simp only
  cases hd : m.duplicateOf with
  | none => simp [hd]
  | some d =>
    by_cases h : ids d = true
    · simp [h]
    · by_cases h' : ids' d = true <;> simp [h, h', hd]

theorem clearDuplicateOf_congr {ids ids' : Int → Bool} (h : ∀ id, ids id = ids' id) :
    clearDuplicateOf ids = clearDuplicateOf ids' := by
  rw [funext h]

theorem foldl_deleteAttachment (as : List AttachmentRow) (db : Db) :
    (as.foldl deleteAttachment db).messages = db.messages ∧
      (as.foldl deleteAttachment db).conversations = db.conversations := by
  induction as generalizing db with
  | nil => exact ⟨rfl, rfl⟩
  | cons a as ih =>
    obtain ⟨hmsg, hconv⟩ := ih (db.deleteAttachment a)
    have hone : (db.deleteAttachment a).messages = db.messages ∧
        (db.deleteAttachment a).conversations = db.conversations := by
      unfold deleteAttachment
      simp only
      split <;> exact ⟨rfl, rfl⟩
    exact ⟨hmsg.trans hone.1, hconv.trans hone.2⟩

theorem deleteMessage_eq (db : Db) (m : MessageRow) :
    (db.deleteMessage m).messages =
        (db.messages.delete (fun m' : MessageRow => m'.id = m.id)).update
          (clearDuplicateOf (fun id => id = m.id)) ∧
      (db.deleteMessage m).conversations = db.conversations := by
  set db₁ := db.setMessages ((db.messages.delete (fun m' : MessageRow => m'.id = m.id)).update
    (clearDuplicateOf (fun id => id = m.id))) with hdb₁
  obtain ⟨hmsg, hconv⟩ :=
    foldl_deleteAttachment (db₁.attachments.rows.filter (fun a => a.messageId = m.id)) db₁
  unfold deleteMessage
  simp only
  split
  · exact ⟨hmsg, hconv⟩
  · exact ⟨hmsg, hconv⟩

/-- Messages deleted one after the other. -/
theorem rows_foldl_deleteMessage (ms : List MessageRow) (db : Db) :
    (ms.foldl deleteMessage db).messages.rows =
        (db.messages.rows.filter (fun m => m.id ∉ ms.map MessageRow.id)).map
          (clearDuplicateOf (fun id => id ∈ ms.map MessageRow.id)).apply ∧
      (ms.foldl deleteMessage db).conversations = db.conversations := by
  induction ms generalizing db with
  | nil =>
    refine ⟨?_, rfl⟩
    have hid : ∀ m ∈ db.messages.rows, (clearDuplicateOf (fun _ => false)).apply m = m := by
      intro m _
      unfold clearDuplicateOf
      cases hd : m.duplicateOf <;> simp [hd]
    simpa using ((List.map_congr_left hid).trans (List.map_id _)).symm
  | cons m ms ih =>
    obtain ⟨hrows, hconv⟩ := ih (db.deleteMessage m)
    obtain ⟨hone, honeconv⟩ := deleteMessage_eq db m
    refine ⟨?_, hconv.trans honeconv⟩
    have hfilter : (fun m' : MessageRow => decide (m'.id ∉ ms.map MessageRow.id)) ∘
        (clearDuplicateOf (fun id => id = m.id)).apply =
          fun m' => decide (m'.id ∉ ms.map MessageRow.id) := by
      funext m'
      have hid := (sameBut_clearDuplicateOf (fun id => decide (id = m.id)) m').id_eq
      simp only [Function.comp_apply, hid]
    rw [List.foldl_cons, hrows, hone, rows_update, rows_delete, List.filter_map, List.map_map,
      List.filter_filter, hfilter]
    calc _ = ((db.messages.rows.filter (fun m' => m'.id ∉ (m :: ms).map MessageRow.id)).map
          ((clearDuplicateOf (fun id => id ∈ ms.map MessageRow.id)).apply ∘
            (clearDuplicateOf (fun id => id = m.id)).apply)) := by
          congr 1
          refine List.filter_congr fun m' _ => ?_
          by_cases h : m'.id = m.id <;> simp [h]
      _ = _ := by
          refine List.map_congr_left fun m' _ => ?_
          rw [Function.comp_apply, clearDuplicateOf_twice]
          refine congrArg (fun c : Change MessageRow => c.apply m') (clearDuplicateOf_congr ?_)
          intro id
          by_cases h : id = m.id <;> simp [h]

theorem isOfSource_congr {db' : Db} (hconv : db'.conversations = db.conversations)
    {m m₀ : MessageRow} (h : m.SameBut m₀) (accountId : Int) (source : String) :
    db'.isOfSource accountId source m = db.isOfSource accountId source m₀ := by
  unfold isOfSource accountOf
  rw [hconv, h.source_eq, h.conversationId_eq]

theorem messageIdsForSource_iff {accountId : Int} {source : String} {id : Int} :
    db.messageIdsForSource accountId source id = true ↔
      ∃ m ∈ db.messages.rows, m.id = id ∧ db.isOfSource accountId source m = true := by
  unfold messageIdsForSource
  simp

/-- A message is selected by its id exactly when it is the source's. -/
theorem messageIdsForSource_of_mem {accountId : Int} {source : String} {m : MessageRow}
    (hm : m ∈ db.messages.rows) :
    db.messageIdsForSource accountId source m.id = db.isOfSource accountId source m := by
  apply Bool.eq_iff_iff.mpr
  rw [messageIdsForSource_iff]
  constructor
  · rintro ⟨m', hm', hid, hof⟩
    rw [← Table.eq_of_id_eq hm' hm hid]
    exact hof
  · intro hof
    exact ⟨m, hm, rfl, hof⟩

/-- **A wipe.** The source's messages of the account go, and a flag that points at one of
them is cleared. -/
theorem rows_deleteMessagesForSource (accountId : Int) (source : String) (db : Db) :
    (db.deleteMessagesForSource accountId source).messages.rows =
        (db.messages.rows.filter (fun m => !db.isOfSource accountId source m)).map
          (clearDuplicateOf (db.messageIdsForSource accountId source)).apply ∧
      (db.deleteMessagesForSource accountId source).conversations = db.conversations := by
  unfold deleteMessagesForSource
  set ids := db.messageIdsForSource accountId source with hids
  obtain ⟨hmsg, hconv⟩ :=
    foldl_deleteAttachment (db.attachments.rows.filter (fun a => ids a.messageId)) db
  set db₁ := (db.attachments.rows.filter (fun a => ids a.messageId)).foldl deleteAttachment db
    with hdb₁
  set db₂ := (db₁.setTapbacks (db₁.tapbacks.delete (fun t : TapbackRow => ids t.messageId))).setMessages
    (db₁.messages.update (clearDuplicateOf ids)) with hdb₂
  set ms := db₂.messages.rows.filter (db₂.isOfSource accountId source) with hms
  obtain ⟨hrows, hconv₂⟩ := rows_foldl_deleteMessage ms db₂
  refine ⟨hrows.trans ?_, hconv₂.trans hconv⟩
  have hconvs : db₂.conversations = db.conversations := hconv
  have hrows₂ : db₂.messages.rows = db.messages.rows.map (clearDuplicateOf ids).apply := by
    rw [hdb₂, setMessages_messages, rows_update, hmsg]
  have hmem : ∀ id, (decide (id ∈ ms.map MessageRow.id)) = ids id := by
    intro id
    apply Bool.eq_iff_iff.mpr
    rw [decide_eq_true_eq, hids, messageIdsForSource_iff, List.mem_map]
    constructor
    · rintro ⟨m', hm', rfl⟩
      obtain ⟨hm', hof⟩ := List.mem_filter.mp hm'
      rw [hrows₂] at hm'
      obtain ⟨m, hm, rfl⟩ := List.mem_map.mp hm'
      have hsame := sameBut_clearDuplicateOf ids m
      rw [isOfSource_congr hconvs hsame] at hof
      exact ⟨m, hm, hsame.id_eq.symm, hof⟩
    · rintro ⟨m, hm, rfl, hof⟩
      have hsame := sameBut_clearDuplicateOf ids m
      refine ⟨_, List.mem_filter.mpr ⟨?_, ?_⟩, hsame.id_eq⟩
      · rw [hrows₂]
        exact List.mem_map.mpr ⟨m, hm, rfl⟩
      · rw [isOfSource_congr hconvs hsame]
        exact hof
  rw [hrows₂, List.filter_map, List.map_map]
  calc _ = (db.messages.rows.filter (fun m => !db.isOfSource accountId source m)).map
        ((clearDuplicateOf (fun id => id ∈ ms.map MessageRow.id)).apply ∘
          (clearDuplicateOf ids).apply) := by
        congr 1
        refine List.filter_congr fun m hm => ?_
        have hid := (sameBut_clearDuplicateOf ids m).id_eq
        rw [Function.comp_apply, hid, decide_not, hmem, hids, messageIdsForSource_of_mem hm]
    _ = _ := by
        refine List.map_congr_left fun m _ => ?_
        rw [Function.comp_apply, clearDuplicateOf_twice]
        refine congrArg (fun c : Change MessageRow => c.apply m) (clearDuplicateOf_congr ?_)
        intro id
        rw [hmem, Bool.or_self]

end Db

/-! Promotions. -/

section
variable {w : Walk} {s : Staging} {accountId : Int} {msgMap : List (Int × Int)} {db db' : Db}
  {stats : PromoteStats}

/-- What a promotion adds to the messages: rows of staged ones. -/
theorem Promotion.added (h : Promotion w s accountId msgMap db db' stats) :
    ∃ added, db'.messages.rows = db.messages.rows ++ added ∧
      ∀ m ∈ added, db.messages.maxId < m.id ∧
        ∃ p ∈ stagedMessages s accountId (s.convMap accountId db'),
          m = (p.1.promoted p.2).row m.id := by
  obtain ⟨added, hrows, hadded⟩ := insertOrIgnoreAll_spec
    (chunkedMessages (stagedMessages s accountId (s.convMap accountId db'))) db.messages
  rw [← h.messages] at hrows
  refine ⟨added, hrows, fun m hm => ?_⟩
  obtain ⟨habove, n, hn, hrow⟩ := hadded m hm
  obtain ⟨p, hp, rfl⟩ := mem_chunkedMessages.mp hn
  exact ⟨habove, p, hp, hrow⟩

variable {sha256Hex : ByteArray → String} {rfc3339Secs : String → Option Int} {handles : Handles}
  {mode : ImportMode} {fillContentKeys : Bool} {wipeSources : List String}

/-- A promotion's three parts: the wipe, the phases, the content keys, which are the
account's. -/
theorem promoteAppend_parts
    (h : promoteAppend sha256Hex rfc3339Secs handles w mode accountId fillContentKeys wipeSources s
      db = some (db', stats)) :
    ∃ db₁ db₂ msgMap keys,
      db₁ = (if mode = .replace then db.wipeSources accountId wipeSources else db) ∧
      Promotion w s accountId msgMap db₁ db₂ stats ∧ db'.conversations = db₂.conversations ∧
      db'.messages = db₂.messages.update (rekey keys) ∧
      (fillContentKeys = false → keys = []) ∧
      ∀ q ∈ keys, ∃ r ∈ db₂.messages.rows, r.id = q.1 ∧
        db₂.accountOf r.conversationId = some accountId := by
  unfold promoteAppend at h
  obtain ⟨⟨db₂, stats₂⟩, hstaged, hdone⟩ := Option.bind_eq_some_iff.mp h
  obtain ⟨msgMap, hp⟩ := promoteStaged_spec hstaged
  cases hdone
  cases fillContentKeys with
  | false =>
    refine ⟨_, db₂, msgMap, [], rfl, hp, rfl, ?_, fun _ => rfl, by simp⟩
    apply Table.ext
    rw [rows_update]
    exact ((List.map_congr_left fun m _ => rfl).trans (List.map_id _)).symm
  | true =>
    refine ⟨_, db₂, msgMap, _, rfl, hp, rfl, rfl, by simp, fun q hq => ?_⟩
    obtain ⟨m, hm, -, hkey⟩ := mem_missingContentKeys.mp hq
    obtain ⟨r, hr, rfl⟩ := List.mem_map.mp hm
    obtain ⟨hr, hacc⟩ := List.mem_filter.mp hr
    have hid : q.1 = r.id := contentKeyForRow_id hkey
    exact ⟨r, hr, hid.symm, by simpa using hacc⟩

/-- What wipes leave was there before. -/
theorem wipeSources_origin (sources : List String) {m : MessageRow}
    (hm : m ∈ (db.wipeSources accountId sources).messages.rows) :
    ∃ m₀ ∈ db.messages.rows, m.SameBut m₀ ∧
      ∀ source ∈ sources, db.isOfSource accountId source m₀ = false := by
  induction sources generalizing db with
  | nil => exact ⟨m, hm, MessageRow.SameBut.refl m, by simp⟩
  | cons source sources ih =>
    obtain ⟨hrows, hconv⟩ := Db.rows_deleteMessagesForSource accountId source db
    obtain ⟨m₁, hm₁, hsame₁, hnot₁⟩ := ih hm
    rw [hrows] at hm₁
    obtain ⟨m₀, hm₀, rfl⟩ := List.mem_map.mp hm₁
    obtain ⟨hm₀, hnot⟩ := List.mem_filter.mp hm₀
    have hclear := sameBut_clearDuplicateOf (db.messageIdsForSource accountId source) m₀
    refine ⟨m₀, hm₀, hsame₁.trans hclear, fun source' hsource' => ?_⟩
    rcases List.mem_cons.mp hsource' with rfl | hsource'
    · simpa using hnot
    · rw [← Db.isOfSource_congr hconv hclear]
      exact hnot₁ source' hsource'

/-- A message after a promotion was there before and not wiped, or is one of those staged. -/
theorem promoteAppend_origin
    (h : promoteAppend sha256Hex rfc3339Secs handles w mode accountId fillContentKeys wipeSources s
      db = some (db', stats)) {m : MessageRow} (hm : m ∈ db'.messages.rows) :
    (∃ m₀ ∈ db.messages.rows, m.SameBut m₀ ∧ (mode = .replace →
      ∀ source ∈ wipeSources, db.isOfSource accountId source m₀ = false)) ∨
      ∃ sm ∈ s.messages.rows, m.accountId = sm.accountId ∧ m.source = sm.source ∧
        m.guid = some sm.guid ∧ m.importId = sm.importId := by
  obtain ⟨db₁, db₂, msgMap, keys, hdb₁, hp, -, hkeys, -, -⟩ := promoteAppend_parts h
  rw [hkeys] at hm
  obtain ⟨m₂, hm₂, rfl⟩ := List.mem_map.mp hm
  have hsame := sameBut_rekey keys m₂
  obtain ⟨added, hrows, hadded⟩ := hp.added
  rw [hrows] at hm₂
  rcases List.mem_append.mp hm₂ with hm₂ | hm₂
  · left
    rw [hdb₁] at hm₂
    split at hm₂
    · obtain ⟨m₀, hm₀, hsame₀, hnot⟩ := wipeSources_origin wipeSources hm₂
      exact ⟨m₀, hm₀, hsame.trans hsame₀, fun _ => hnot⟩
    · next hmode => exact ⟨m₂, hm₂, hsame, fun he => absurd he hmode⟩
  · right
    obtain ⟨-, p, hp', hrow⟩ := hadded m₂ hm₂
    refine ⟨p.1, (mem_stagedMessages.mp hp').1, ?_, ?_, ?_, ?_⟩
    · rw [hsame.accountId_eq, hrow]; rfl
    · rw [hsame.source_eq, hrow]; rfl
    · rw [hsame.guid_eq, hrow]; rfl
    · rw [hsame.importId_eq, hrow]; rfl

/-! Owners. -/

/-- Every message is denormalized with the account of its conversation. -/
def Db.Owned (db : Db) : Prop := ∀ m ∈ db.messages.rows, ∃ c ∈ db.conversations.rows,
  c.id = m.conversationId ∧ c.accountId = m.accountId

theorem Db.Owned.accountOf (h : db.Owned) {m : MessageRow} (hm : m ∈ db.messages.rows) :
    db.accountOf m.conversationId = some m.accountId := by
  obtain ⟨c, hc, hid, hacc⟩ := h m hm
  unfold Db.accountOf
  cases hfind : db.conversations.rows.find? (fun c => c.id = m.conversationId) with
  | none =>
    have := List.find?_eq_none.mp hfind c hc
    simp [hid] at this
  | some c' =>
    have hid' : c'.id = m.conversationId := by simpa using List.find?_some hfind
    have hsame : c' = c :=
      Table.eq_of_id_eq (List.mem_of_find?_eq_some hfind) hc (hid'.trans hid.symm)
    rw [hsame, Option.map_some, hacc]

theorem Db.Owned.isOfSource_iff (h : db.Owned) {m : MessageRow} (hm : m ∈ db.messages.rows)
    {source : String} :
    db.isOfSource accountId source m = true ↔ m.source = source ∧ m.accountId = accountId := by
  unfold Db.isOfSource
  rw [h.accountOf hm]
  simp

/-- Messages that were there, in conversations that were there, stay owned. -/
theorem Db.Owned.of_origin (h : db.Owned) (hconv : db'.conversations = db.conversations)
    (hmsg : ∀ m ∈ db'.messages.rows, ∃ m₀ ∈ db.messages.rows, m.SameBut m₀) : db'.Owned := by
  intro m hm
  obtain ⟨m₀, hm₀, hsame⟩ := hmsg m hm
  rw [hconv, hsame.conversationId_eq, hsame.accountId_eq]
  exact h m₀ hm₀

theorem wipeSources_conversations (sources : List String) (db : Db) :
    (db.wipeSources accountId sources).conversations = db.conversations := by
  induction sources generalizing db with
  | nil => rfl
  | cons source sources ih =>
    exact (ih (db.deleteMessagesForSource accountId source)).trans
      (Db.rows_deleteMessagesForSource accountId source db).2

theorem Promotion.owned (h : Promotion w s accountId msgMap db db' stats) (ho : db.Owned) :
    db'.Owned := by
  obtain ⟨added, hrows, hadded⟩ := h.added
  intro m hm
  rw [hrows] at hm
  rcases List.mem_append.mp hm with hm | hm
  · -- The conversation is still there, under its key.
    obtain ⟨c, hc, hid, hacc⟩ := ho m hm
    obtain ⟨c', hc', hid', hkey⟩ := exists_mem_upsertAll
      ((w.order (s.conversationsOf accountId)).map ConversationRow.upsert) hc
    rw [← h.conversations] at hc'
    have hkey : some (c'.accountId, c'.chatHandleId) = some (c.accountId, c.chatHandleId) := hkey
    simp only [Option.some.injEq, Prod.mk.injEq] at hkey
    exact ⟨c', hc', Eq.trans hid' hid, hkey.1.trans hacc⟩
  · obtain ⟨-, p, hp, hrow⟩ := hadded m hm
    obtain ⟨-, hacc, hconv⟩ := mem_stagedMessages.mp hp
    obtain ⟨sc, hsc, -, c, hc, hcacc, -, hcid⟩ := lookup_convMap.mp hconv
    have hscacc : sc.accountId = accountId := by simpa using (List.mem_filter.mp hsc).2
    refine ⟨c, hc, ?_, ?_⟩
    · rw [hrow]
      exact hcid
    · rw [hrow, hcacc, hscacc]
      exact hacc.symm

theorem owned_wipeSources (ho : db.Owned) (sources : List String) :
    (db.wipeSources accountId sources).Owned := by
  refine ho.of_origin (wipeSources_conversations sources db) fun m hm => ?_
  obtain ⟨m₀, hm₀, hsame, -⟩ := wipeSources_origin sources hm
  exact ⟨m₀, hm₀, hsame⟩

theorem promoteAppend_owned
    (h : promoteAppend sha256Hex rfc3339Secs handles w mode accountId fillContentKeys wipeSources s
      db = some (db', stats)) (ho : db.Owned) : db'.Owned := by
  obtain ⟨db₁, db₂, msgMap, keys, hdb₁, hp, hconv, hkeys, -, -⟩ := promoteAppend_parts h
  have ho₁ : db₁.Owned := by
    rw [hdb₁]
    split
    · exact owned_wipeSources ho wipeSources
    · exact ho
  refine (hp.owned ho₁).of_origin hconv fun m hm => ?_
  rw [hkeys] at hm
  obtain ⟨m₂, hm₂, rfl⟩ := List.mem_map.mp hm
  exact ⟨m₂, hm₂, sameBut_rekey keys m₂⟩

/-- A staged message of the account, in a conversation staged for it, is there. -/
theorem promoteAppend_holds
    (h : promoteAppend sha256Hex rfc3339Secs handles w mode accountId fillContentKeys wipeSources s
      db = some (db', stats)) {sm : StagingMessageRow} (hsm : sm ∈ s.messages.rows)
    (hacc : sm.accountId = accountId)
    (hconv : ∃ sc ∈ s.conversationsOf accountId, sc.id = sm.conversationId) :
    ∃ m ∈ db'.messages.rows, m.guidKey = some (sm.accountId, sm.source, sm.guid) := by
  obtain ⟨db₁, db₂, msgMap, keys, -, hp, -, hkeys, -, -⟩ := promoteAppend_parts h
  obtain ⟨sc, hsc, hid⟩ := hconv
  obtain ⟨c, hc⟩ := exists_lookup_convMap hsc ((stored_of_promotion hp).conversations sc hsc)
  have hstaged : (sm, c) ∈ stagedMessages s accountId (s.convMap accountId db₂) :=
    mem_stagedMessages.mpr ⟨hsm, hacc, by rw [← hid]; exact hc⟩
  obtain ⟨row, hrow, v, hv, hkey⟩ := holds_iff.mp (hp.held (sm, c) hstaged)
  cases hv
  refine ⟨(rekey keys).apply row, ?_, ?_⟩
  · rw [hkeys]
    exact List.mem_map.mpr ⟨row, hrow, rfl⟩
  · exact (rekey_key keys row).trans hkey

/-! Kept messages. -/

/-- A message of none of the wiped sources stays, and loses its flag only when that points at
a message wiped. -/
theorem wipeSources_keeps (sources : List String) {m : MessageRow} (hm : m ∈ db.messages.rows)
    (hnot : ∀ source ∈ sources, db.isOfSource accountId source m = false) :
    ∃ m' ∈ (db.wipeSources accountId sources).messages.rows, m'.SameBut m ∧
      m'.contentKey = m.contentKey ∧ (m'.duplicateOf = m.duplicateOf ∨ (m'.duplicateOf = none ∧
        ∃ source ∈ sources, ∃ k ∈ db.messages.rows, db.isOfSource accountId source k = true ∧
          m.duplicateOf = some k.id)) := by
  induction sources generalizing db m with
  | nil => exact ⟨m, hm, MessageRow.SameBut.refl m, rfl, Or.inl rfl⟩
  | cons source sources ih =>
    obtain ⟨hrows, hconv⟩ := Db.rows_deleteMessagesForSource accountId source db
    set ids := db.messageIdsForSource accountId source with hids
    have hsame := sameBut_clearDuplicateOf ids m
    have hm₁ : (Db.clearDuplicateOf ids).apply m ∈
        (db.deleteMessagesForSource accountId source).messages.rows := by
      rw [hrows]
      refine List.mem_map.mpr ⟨m, List.mem_filter.mpr ⟨hm, ?_⟩, rfl⟩
      simp [hnot source List.mem_cons_self]
    obtain ⟨m', hm', hsame', hkey, hdup⟩ := ih hm₁ fun source' hsource' => by
      rw [Db.isOfSource_congr hconv hsame]
      exact hnot source' (List.mem_cons_of_mem _ hsource')
    refine ⟨m', hm', hsame'.trans hsame, hkey.trans (clearDuplicateOf_contentKey ids m), ?_⟩
    -- The flag is cleared by this wipe, by a later one, or by none.
    rcases clearDuplicateOf_duplicateOf ids m with hkept | ⟨hcleared, d, hd, hwiped⟩
    · rcases hdup with hdup | ⟨hnone, source', hsource', k, hk, hof, hpoints⟩
      · exact Or.inl (hdup.trans hkept)
      · rw [hrows] at hk
        obtain ⟨k₀, hk₀, rfl⟩ := List.mem_map.mp hk
        have hk₀same := sameBut_clearDuplicateOf ids k₀
        refine Or.inr ⟨hnone, source', List.mem_cons_of_mem _ hsource', k₀,
          (List.mem_filter.mp hk₀).1, ?_, ?_⟩
        · rw [← Db.isOfSource_congr hconv hk₀same]
          exact hof
        · rw [← hkept, hpoints, hk₀same.id_eq]
    · right
      obtain ⟨k, hk, hid, hof⟩ := Db.messageIdsForSource_iff.mp hwiped
      refine ⟨?_, source, List.mem_cons_self, k, hk, hof, by rw [hd, hid]⟩
      rcases hdup with hdup | ⟨hnone, -⟩
      · exact hdup.trans hcleared
      · exact hnone

/-- A message a promotion does not wipe stays. Its flag is cleared when it points at a wiped
message, and its content key is filled only when the promotion fills its account's. -/
theorem promoteAppend_keeps
    (h : promoteAppend sha256Hex rfc3339Secs handles w mode accountId fillContentKeys wipeSources s
      db = some (db', stats)) (ho : db.Owned) {m : MessageRow} (hm : m ∈ db.messages.rows)
    (hnot : mode = .replace → m.accountId = accountId → m.source ∉ wipeSources) :
    ∃ m' ∈ db'.messages.rows, m'.SameBut m ∧
      (m'.duplicateOf = m.duplicateOf ∨ (m'.duplicateOf = none ∧ mode = .replace ∧
        ∃ k ∈ db.messages.rows, k.source ∈ wipeSources ∧ k.accountId = accountId ∧
          m.duplicateOf = some k.id)) ∧
      ((m.accountId = accountId → fillContentKeys = false) → m'.contentKey = m.contentKey) := by
  obtain ⟨db₁, db₂, msgMap, keys, hdb₁, hp, -, hkeys, hfill, hof⟩ := promoteAppend_parts h
  -- The message past the wipe.
  have hwiped : db₁.Owned ∧ ∃ m₁ ∈ db₁.messages.rows, m₁.SameBut m ∧
      m₁.contentKey = m.contentKey ∧ (m₁.duplicateOf = m.duplicateOf ∨
        (m₁.duplicateOf = none ∧ mode = .replace ∧ ∃ k ∈ db.messages.rows,
          k.source ∈ wipeSources ∧ k.accountId = accountId ∧ m.duplicateOf = some k.id)) := by
    rw [hdb₁]
    split
    · next hmode =>
      refine ⟨owned_wipeSources ho wipeSources, ?_⟩
      obtain ⟨m₁, hm₁, hsame, hkey, hdup⟩ := wipeSources_keeps wipeSources hm fun source hsource =>
        Bool.eq_false_iff.mpr fun hof => by
          obtain ⟨hsrc, hacc⟩ := (ho.isOfSource_iff hm).mp hof
          rw [← hsrc] at hsource
          exact hnot hmode hacc hsource
      refine ⟨m₁, hm₁, hsame, hkey, hdup.imp_right ?_⟩
      rintro ⟨hnone, source, hsource, k, hk, hkof, hpoints⟩
      obtain ⟨rfl, hacc⟩ := (ho.isOfSource_iff hk).mp hkof
      exact ⟨hnone, hmode, k, hk, hsource, hacc, hpoints⟩
    · exact ⟨ho, m, hm, MessageRow.SameBut.refl m, rfl, Or.inl rfl⟩
  obtain ⟨ho₁, m₁, hm₁, hsame, hkey, hdup⟩ := hwiped
  obtain ⟨added, hrows, -⟩ := hp.added
  have hm₂ : m₁ ∈ db₂.messages.rows := by
    rw [hrows]
    exact List.mem_append_left _ hm₁
  refine ⟨(rekey keys).apply m₁, ?_, (sameBut_rekey keys m₁).trans hsame, ?_, fun hleft => ?_⟩
  · rw [hkeys]
    exact List.mem_map.mpr ⟨m₁, hm₂, rfl⟩
  · rw [rekey_duplicateOf]
    exact hdup
  · -- A key of the message would be its account's.
    have hnone : keys.lookup m₁.id = none := by
      refine lookup_eq_none_iff.mpr fun hmem => ?_
      obtain ⟨q, hq, hqid⟩ := List.mem_map.mp hmem
      obtain ⟨r, hr, hrid, hracc⟩ := hof q hq
      have hrm : r = m₁ := Table.eq_of_id_eq hr hm₂ (hrid.trans hqid)
      rw [hrm, (hp.owned ho₁).accountOf hm₂, hsame.accountId_eq] at hracc
      rw [hfill (hleft (Option.some.inj hracc))] at hq
      exact absurd hq List.not_mem_nil
    rw [(rekey_apply keys m₁).2.1 hnone]
    exact hkey

end

end MessageCrate

import MessageCrate.Dedupe.Chain
import MessageCrate.Import.Phases

/- A batch promoted again.

   After a promotion in append mode every staged row is in production (`Stored`). Promoting
   the same staged rows then inserts nothing, and the only statement left that can write is
   the one that gives a file to an attachment stored without one.

   What is proved:
     1. `stored_of_promotion`: a promotion stores every staged row.
     2. `Promotion.unchanged`: promoting stored rows only fills files.
     3. `Promotion.found_iff`: files are filled the second time exactly when the batch
        divides an attachment: it stages one attachment twice, with its file and without,
        and production held neither (`Divides`).
     4. `promote_again_iff`: so the batch sent again stores nothing exactly when it divides
        no attachment. -/
namespace MessageCrate
open Grouping SqlTable Table

/-- The rows the foreign keys of the schema point at are there, and a message is denormalized
with the account of its conversation. -/
structure Db.ForeignKeys (db : Db) : Prop where
  participants : ∀ p ∈ db.participants.rows, ∃ c ∈ db.conversations.rows, c.id = p.conversationId
  messages : ∀ m ∈ db.messages.rows, ∃ c ∈ db.conversations.rows,
    c.id = m.conversationId ∧ c.accountId = m.accountId
  attachments : ∀ a ∈ db.attachments.rows, ∃ m ∈ db.messages.rows, m.id = a.messageId
  tapbacks : ∀ t ∈ db.tapbacks.rows, ∃ m ∈ db.messages.rows, m.id = t.messageId

namespace Staging
variable (s : Staging) (accountId : Int) (db : Db)

/-- Every staged row of the account is in production. -/
structure Stored : Prop where
  conversations : ∀ sc ∈ s.conversationsOf accountId, db.conversations.Settled sc.upsert
  participants : ∀ sp ∈ s.participants.rows, ∀ p,
    (s.convMap accountId db).lookup sp.conversationId = some p →
      db.participants.holds (some (p, sp.handleId)) = true
  messages : Held s accountId (s.convMap accountId db) db
  attachments : ∀ sa ∈ s.attachments.rows, ∀ m,
    (s.msgMap accountId db).lookup sa.messageId = some m →
      ∃ a ∈ db.attachments.rows, a.messageId = m ∧ a.Same sa
  tapbacks : ∀ st ∈ s.tapbacks.rows, ∀ m,
    (s.msgMap accountId db).lookup st.messageId = some m →
      ∃ t ∈ db.tapbacks.rows, t.messageId = m ∧ t.Same st

/-- The batch stages an attachment of one message both without its file and with it, and
production holds neither. -/
def Divides : Prop :=
  ∃ sm ∈ s.messages.rows, sm.accountId = accountId ∧
    (∃ sc ∈ s.conversationsOf accountId, sc.id = sm.conversationId) ∧
    ∃ sa ∈ s.attachments.rows, ∃ f ∈ s.attachments.rows,
      sa.messageId = sm.id ∧ f.messageId = sm.id ∧ sa.path ≠ none ∧ sa.SamePath f ∧
      sa.sha256 = none ∧ f.sha256 ≠ none ∧
      ∀ m ∈ db.messages.rows, m.guidKey = some (sm.accountId, sm.source, sm.guid) →
        ∀ a ∈ db.attachments.rows, a.messageId = m.id → ¬ a.SamePath sa

end Staging

/-- The tables an import's rows land in are the same. -/
structure Db.SameTables (db db' : Db) : Prop where
  conversations : db.conversations = db'.conversations
  participants : db.participants = db'.participants
  messages : db.messages = db'.messages
  attachments : db.attachments = db'.attachments
  tapbacks : db.tapbacks = db'.tapbacks

theorem Db.SameTables.trans {db db' db'' : Db} (h : db.SameTables db') (h' : db'.SameTables db'') :
    db.SameTables db'' where
  conversations := h.conversations.trans h'.conversations
  participants := h.participants.trans h'.participants
  messages := h.messages.trans h'.messages
  attachments := h.attachments.trans h'.attachments
  tapbacks := h.tapbacks.trans h'.tapbacks

/-- No new rows, and no attachment that took a file. -/
def PromoteStats.StoredNothing (stats : PromoteStats) : Prop :=
  stats.conversations = 0 ∧ stats.participants = 0 ∧ stats.messages = 0 ∧
    stats.attachments = 0 ∧ stats.tapbacks = 0 ∧ stats.messagesAppended = 0 ∧ stats.found = 0

/-! Filling a file. -/

theorem fileFor_isSome {staged : List (AttachmentRow × Int)} {a : AttachmentRow} :
    (fileFor staged a).isSome = true ↔ a.sha256 = none ∧ ∃ f m, (f, m) ∈ staged ∧
      f.path ≠ none ∧ f.sha256 ≠ none ∧ a.messageId = m ∧ a.SamePath f := by
  unfold fileFor
  by_cases hsha : a.sha256 = none
  · rw [if_pos hsha]
    simp [hsha]
  · rw [if_neg hsha]
    simp [hsha]

/-- A filled row is the attachment it was. -/
theorem fillFile_same (staged : List (AttachmentRow × Int)) (a : AttachmentRow) :
    ((fillFile staged).apply a).messageId = a.messageId ∧
      ∀ sa, ((fillFile staged).apply a).SamePath sa ↔ a.SamePath sa := by
  unfold fillFile AttachmentRow.SamePath
  simp only
  split <;> simp

/-- Without a path a row never takes a file. -/
theorem fileFor_of_no_path {staged : List (AttachmentRow × Int)} {a : AttachmentRow}
    (h : a.path = none) : fileFor staged a = none := by
  apply Option.not_isSome_iff_eq_none.mp
  intro hsome
  obtain ⟨-, f, m, -, hpath, -, -, hsame⟩ := fileFor_isSome.mp hsome
  exact hpath (hsame.1.symm.trans h)

/-- A row that took a file has one. -/
theorem fileFor_of_fillFile {staged : List (AttachmentRow × Int)} {a : AttachmentRow}
    (h : ((fillFile staged).apply a).sha256 = none) : fileFor staged a = none := by
  unfold fillFile at h
  cases hfile : fileFor staged a with
  | none => rfl
  | some f =>
    exfalso
    simp only [hfile] at h
    unfold fileFor at hfile
    split at hfile
    · obtain ⟨p, hp, rfl⟩ := Option.map_eq_some_iff.mp hfile
      have hfits := List.find?_some hp
      simp only [ne_eq, decide_eq_true_eq] at hfits
      exact hfits.2.1 h
    · cases hfile

theorem fillFile_of_none {staged : List (AttachmentRow × Int)} {a : AttachmentRow}
    (h : fileFor staged a = none) : (fillFile staged).apply a = a := by
  unfold fillFile
  simp only [h]

theorem AttachmentRow.Same.fillFile {a sa : AttachmentRow} (h : a.Same sa)
    (staged : List (AttachmentRow × Int)) : ((fillFile staged).apply a).Same sa := by
  obtain ⟨hpath, hrest⟩ := h
  by_cases hnone : a.path = none
  · rw [fillFile_of_none (fileFor_of_no_path hnone)]
    exact ⟨hpath, hrest⟩
  · refine ⟨((fillFile_same staged a).2 sa).mpr hpath, Or.inl ?_⟩
    rw [← hpath.1]
    exact hnone

/-! The maps of one database and of the next. -/

section
variable {sha256Hex : ByteArray → String} {rfc3339Secs : String → Option Int} {handles : Handles}
  {w w' : Walk} {s : Staging} {accountId : Int} {fillContentKeys : Bool}
  {wipeSources : List String} {db db' : Db} {stats stats' : PromoteStats}
  {msgMap : List (Int × Int)}

theorem msgMap_congr (hc : db.conversations = db'.conversations)
    (hm : db.messages = db'.messages) : s.msgMap accountId db = s.msgMap accountId db' := by
  unfold Staging.msgMap writeMessageMap
  rw [convMap_congr hc, hm]

/-- A staged conversation that is settled is mapped. -/
theorem exists_lookup_convMap {sc : ConversationRow} (hsc : sc ∈ s.conversationsOf accountId)
    (h : db.conversations.Settled sc.upsert) :
    ∃ p, (s.convMap accountId db).lookup sc.id = some p := by
  obtain ⟨c, hc, k, hk, hck, -⟩ := h
  have hkey : some (c.accountId, c.chatHandleId) = some (sc.accountId, sc.chatHandleId) :=
    hck.trans hk.symm
  simp only [Option.some.injEq, Prod.mk.injEq] at hkey
  exact ⟨c.id, lookup_convMap.mpr ⟨sc, hsc, rfl, c, hc, hkey.1, hkey.2, rfl⟩⟩

/-! What one promotion stores. -/

/-- The staged conversations of an account have distinct keys. -/
theorem conversationsOf_keys_nodup :
    (((w.order (s.conversationsOf accountId)).map ConversationRow.upsert).map
      (fun u => u.new.key)).Nodup := by
  rw [List.map_map]
  refine ((w.perm _).map _).nodup_iff.mpr ?_
  have hsub : ((s.conversationsOf accountId).filterMap Row.key).Nodup :=
    s.conversations.keys_nodup.sublist (List.filter_sublist.filterMap _)
  have hmap : (s.conversationsOf accountId).filterMap Row.key =
      (s.conversationsOf accountId).map (fun c => (c.accountId, c.chatHandleId)) := by
    rw [← List.filterMap_eq_map]
    rfl
  rw [hmap] at hsub
  have hsome := hsub.map (Option.some_injective _)
  rw [List.map_map] at hsome
  exact hsome

theorem stored_of_promotion (h : Promotion w s accountId msgMap db db' stats) :
    s.Stored accountId db' := by
  refine ⟨?_, ?_, h.held, ?_, ?_⟩
  · intro sc hsc
    rw [h.conversations]
    apply settled_upsertAll
    · intro u hu
      obtain ⟨c, -, rfl⟩ := List.mem_map.mp hu
      exact ⟨(c.accountId, c.chatHandleId), rfl⟩
    · exact conversationsOf_keys_nodup
    · exact List.mem_map.mpr ⟨sc, mem_walk.mpr hsc, rfl⟩
  · intro sp hsp p hp
    rw [h.participants]
    refine holds_insertOrIgnoreAll (n := sp.promoted p) ?_ rfl _
    exact List.mem_filterMap.mpr ⟨sp, mem_walk.mpr hsp, by rw [hp]; rfl⟩
  · intro sa hsa m hm
    rw [← h.lookup_msgMap] at hm
    rw [h.attachments]
    by_cases hany : (db.attachments.update (fillFile (stagedAttachments w s msgMap))).rows.any
        (fun a => a.messageId = m ∧ a.Same sa) = true
    · obtain ⟨a, ha, hsame⟩ := List.any_eq_true.mp hany
      exact ⟨a, subset_insertOrIgnoreAll _ _ a ha, by simpa using hsame⟩
    · have hnew : sa.promoted m ∈ newAttachments (stagedAttachments w s msgMap)
          (db.attachments.update (fillFile (stagedAttachments w s msgMap))).rows := by
        refine List.mem_map.mpr ⟨(sa, m), List.mem_filter.mpr ⟨?_, ?_⟩, rfl⟩
        · exact mem_stagedAttachments.mpr ⟨hsa, hm⟩
        · simpa using hany
      obtain ⟨i, hi⟩ := exists_mem_insertOrIgnoreAll hnew rfl _
      exact ⟨_, hi, rfl, ⟨rfl, rfl, rfl⟩, Or.inr ⟨rfl, rfl, rfl, rfl, rfl, rfl⟩⟩
  · intro st hst m hm
    rw [← h.lookup_msgMap] at hm
    rw [h.tapbacks]
    by_cases hany : db.tapbacks.rows.any (fun t => t.messageId = m ∧ t.Same st) = true
    · obtain ⟨t, ht, hsame⟩ := List.any_eq_true.mp hany
      exact ⟨t, subset_insertOrIgnoreAll _ _ t ht, by simpa using hsame⟩
    · have hnew : st.promoted m ∈ newTapbacks (stagedTapbacks w s msgMap) db.tapbacks.rows := by
        refine List.mem_map.mpr ⟨(st, m), List.mem_filter.mpr ⟨?_, ?_⟩, rfl⟩
        · exact mem_stagedTapbacks.mpr ⟨hst, hm⟩
        · simpa using hany
      obtain ⟨i, hi⟩ := exists_mem_insertOrIgnoreAll hnew rfl _
      exact ⟨_, hi, rfl, rfl, rfl, rfl, rfl, rfl⟩

/-! Promoting stored rows. -/

/-- Promoting stored rows writes no row but the files it fills. -/
theorem Promotion.unchanged (h : Promotion w s accountId msgMap db db' stats)
    (hs : s.Stored accountId db) :
    db'.conversations = db.conversations ∧ db'.participants = db.participants ∧
      db'.messages = db.messages ∧
      db'.attachments = db.attachments.update (fillFile (stagedAttachments w s msgMap)) ∧
      db'.tapbacks = db.tapbacks ∧
      newAttachments (stagedAttachments w s msgMap)
        (db.attachments.update (fillFile (stagedAttachments w s msgMap))).rows = [] ∧
      newTapbacks (stagedTapbacks w s msgMap) db.tapbacks.rows = [] := by
  have hconv : db'.conversations = db.conversations := by
    rw [h.conversations]
    apply upsertAll_of_settled
    intro u hu
    obtain ⟨c, hc, rfl⟩ := List.mem_map.mp hu
    exact hs.conversations c (mem_walk.mp hc)
  have hmap : s.convMap accountId db' = s.convMap accountId db := convMap_congr hconv
  have hpart : db'.participants = db.participants := by
    rw [h.participants, hmap]
    apply insertOrIgnoreAll_of_holds
    intro n hn
    obtain ⟨sp, hsp, hp⟩ := List.mem_filterMap.mp hn
    obtain ⟨p, hlookup, rfl⟩ := Option.map_eq_some_iff.mp hp
    exact hs.participants sp (mem_walk.mp hsp) p hlookup
  have hmsg : db'.messages = db.messages := by
    rw [h.messages, hmap]
    apply insertOrIgnoreAll_of_holds
    intro n hn
    obtain ⟨p, hp, rfl⟩ := mem_chunkedMessages.mp hn
    exact hs.messages p hp
  have hlookup : ∀ i, msgMap.lookup i = (s.msgMap accountId db).lookup i := by
    intro i
    rw [h.lookup_msgMap, msgMap_congr hconv hmsg]
  have hatt : newAttachments (stagedAttachments w s msgMap)
      (db.attachments.update (fillFile (stagedAttachments w s msgMap))).rows = [] := by
    refine List.map_eq_nil_iff.mpr (List.filter_eq_nil_iff.mpr ?_)
    rintro ⟨sa, m⟩ hp
    obtain ⟨hsa, hm⟩ := mem_stagedAttachments.mp hp
    obtain ⟨a, ha, hid, hsame⟩ := hs.attachments sa hsa m (by rw [← hlookup]; exact hm)
    -- The stored row is still the staged one after it took a file.
    have hany : (db.attachments.update (fillFile (stagedAttachments w s msgMap))).rows.any
        (fun a => a.messageId = m ∧ a.Same sa) = true := by
      refine List.any_eq_true.mpr ⟨_, List.mem_map.mpr ⟨a, ha, rfl⟩, ?_⟩
      simpa using ⟨(fillFile_same _ a).1.trans hid, hsame.fillFile _⟩
    simpa using hany
  have htap : newTapbacks (stagedTapbacks w s msgMap) db.tapbacks.rows = [] := by
    refine List.map_eq_nil_iff.mpr (List.filter_eq_nil_iff.mpr ?_)
    rintro ⟨st, m⟩ hp
    obtain ⟨hst, hm⟩ := mem_stagedTapbacks.mp hp
    obtain ⟨t, ht, hid, hsame⟩ := hs.tapbacks st hst m (by rw [← hlookup]; exact hm)
    have hany : db.tapbacks.rows.any (fun t => t.messageId = m ∧ t.Same st) = true :=
      List.any_eq_true.mpr ⟨t, ht, by simpa using ⟨hid, hsame⟩⟩
    simpa using hany
  refine ⟨hconv, hpart, hmsg, ?_, ?_, hatt, htap⟩
  · rw [h.attachments, hatt]
    rfl
  · rw [h.tapbacks, htap]
    rfl

/-- Then the counts of new rows are zero, and what is left of the promotion is the files. -/
theorem Promotion.storedNothing_iff (h : Promotion w s accountId msgMap db db' stats)
    (hs : s.Stored accountId db) : stats.StoredNothing ↔ stats.found = 0 := by
  obtain ⟨hconv, hpart, hmsg, -, -, hatt, htap⟩ := h.unchanged hs
  have hmessages : stats.messages = 0 := by
    rw [h.countMessages, hmsg]
    omega
  have hconversations : stats.conversations = 0 := by
    rw [h.countConversations]
    refine List.countP_eq_zero.mpr fun q hq => ?_
    obtain ⟨sc, -, hjoin⟩ := List.mem_filterMap.mp hq
    obtain ⟨i, hi, rfl⟩ := Option.map_eq_some_iff.mp hjoin
    obtain ⟨c, hc, rfl⟩ := Option.map_eq_some_iff.mp hi
    rw [hconv] at hc
    have hle : c.id ≤ db.conversations.maxId := id_le_maxId (find?_eq_some.mp hc).1
    simpa using hle
  constructor
  · rintro ⟨-, -, -, -, -, -, hfound⟩
    exact hfound
  · intro hfound
    refine ⟨hconversations, ?_, hmessages, ?_, ?_, ?_, hfound⟩
    · rw [h.countParticipants, hpart]
      omega
    · rw [h.countAttachments, hatt]
      rfl
    · rw [h.countTapbacks, htap]
      rfl
    · rw [h.countAppended, hmessages]

/-- Without a file to fill, no table changes. -/
theorem Promotion.sameTables (h : Promotion w s accountId msgMap db db' stats)
    (hs : s.Stored accountId db) (hfound : stats.found = 0) : db'.SameTables db := by
  obtain ⟨hconv, hpart, hmsg, hatt, htap, -, -⟩ := h.unchanged hs
  refine ⟨hconv, hpart, hmsg, ?_, htap⟩
  rw [hatt]
  apply Table.ext
  rw [h.countFound, List.countP_eq_zero] at hfound
  rw [rows_update]
  calc db.attachments.rows.map (fillFile (stagedAttachments w s msgMap)).apply
      = db.attachments.rows.map id := by
        refine List.map_congr_left fun a ha => fillFile_of_none ?_
        exact Option.not_isSome_iff_eq_none.mp (hfound a ha)
    _ = db.attachments.rows := List.map_id _

/-! The content keys. -/

theorem rekey_key (keys : List (Int × String)) (m : MessageRow) :
    Row.key ((rekey keys).apply m) = Row.key m := by
  show ((rekey keys).apply m).guidKey = m.guidKey
  unfold rekey
  simp only
  split <;> rfl

theorem mem_missingContentKeys {a : Account} {p : Int × String} :
    p ∈ a.missingContentKeys sha256Hex rfc3339Secs ↔ ∃ m ∈ a.messages,
      (m.contentKey = none ∨ m.contentKey = some "") ∧
      contentKeyForRow sha256Hex rfc3339Secs (a.contentKeyRow m) a.groupHandles a.shasByMsg =
        some p := by
  unfold Account.missingContentKeys
  simp only [List.mem_filterMap, List.mem_filter, decide_eq_true_eq, and_assoc]

theorem missingContentKeys_nodup (a : Account) :
    ((a.missingContentKeys sha256Hex rfc3339Secs).map Prod.fst).Nodup := by
  refine List.Nodup.sublist (map_filterMap_sublist (h := Message.id) ?_ _)
    (a.ids_nodup.sublist (List.filter_sublist.map _))
  exact fun m p hp => contentKeyForRow_id hp

/-- A key is read off everything but the keys. -/
theorem contentKeyForRow_rekeyed (a : Account) (keys : List (Int × String)) (m : Message) :
    contentKeyForRow sha256Hex rfc3339Secs
        ((a.update (Message.rekeyed keys) (Message.rekeyed_id keys)).contentKeyRow
          (m.rekeyed keys))
        (a.update (Message.rekeyed keys) (Message.rekeyed_id keys)).groupHandles
        (a.update (Message.rekeyed keys) (Message.rekeyed_id keys)).shasByMsg =
      contentKeyForRow sha256Hex rfc3339Secs (a.contentKeyRow m) a.groupHandles a.shasByMsg := by
  have hrow : (a.update (Message.rekeyed keys) (Message.rekeyed_id keys)).contentKeyRow
      (m.rekeyed keys) = a.contentKeyRow m := by
    unfold Message.rekeyed
    split <;> rfl
  have hshas : (a.update (Message.rekeyed keys) (Message.rekeyed_id keys)).shasByMsg =
      a.shasByMsg := by
    funext i
    unfold Account.shasByMsg Account.update
    rw [List.find?_map]
    have hid : (fun m : Message => m.id == i) ∘ Message.rekeyed keys = fun m => m.id == i := by
      funext m
      simp
    rw [hid]
    cases a.messages.find? (fun m => m.id == i) with
    | none => rfl
    | some m =>
      have : (m.rekeyed keys).shas = m.shas := by
        unfold Message.rekeyed
        split <;> rfl
      simp only [Option.map_some, this]
  rw [hrow, hshas]
  rfl

/-- What is still missing once the keys are filled is there already: a hash that reads as no
key. -/
theorem missingContentKeys_rekeyed {a : Account} {p : Int × String}
    (h : p ∈ (a.update (Message.rekeyed (a.missingContentKeys sha256Hex rfc3339Secs))
      (Message.rekeyed_id _)).missingContentKeys sha256Hex rfc3339Secs) :
    ∃ m ∈ a.messages, m.id = p.1 ∧
      (m.rekeyed (a.missingContentKeys sha256Hex rfc3339Secs)).contentKey = some p.2 := by
  obtain ⟨m', hm', hmissing, hkey⟩ := mem_missingContentKeys.mp h
  obtain ⟨m, hm, rfl⟩ := List.mem_map.mp hm'
  rw [contentKeyForRow_rekeyed] at hkey
  have hid : p.1 = m.id := contentKeyForRow_id hkey
  refine ⟨m, hm, hid.symm, ?_⟩
  -- Either the message had a key to fill, or it was not missing one.
  by_cases hold : m.contentKey = none ∨ m.contentKey = some ""
  · have hmem : p ∈ a.missingContentKeys sha256Hex rfc3339Secs :=
      mem_missingContentKeys.mpr ⟨m, hm, hold, hkey⟩
    have hlookup := (lookup_eq_some_of_nodup (missingContentKeys_nodup a)).mpr hmem
    unfold Message.rekeyed
    rw [← hid, hlookup]
  · exfalso
    have hnone : (a.missingContentKeys sha256Hex rfc3339Secs).lookup m.id = none := by
      refine lookup_eq_none_iff.mpr fun hmem => hold ?_
      obtain ⟨q, hq, hqid⟩ := List.mem_map.mp hmem
      obtain ⟨m₁, hm₁, hmissing₁, hkey₁⟩ := mem_missingContentKeys.mp hq
      have hm₁id : q.1 = m₁.id := contentKeyForRow_id hkey₁
      rw [Account.eq_of_id_eq hm hm₁ (hqid.symm.trans hm₁id)]
      exact hmissing₁
    unfold Message.rekeyed at hmissing
    rw [hnone] at hmissing
    exact hold hmissing

theorem rekey_apply (keys : List (Int × String)) (m : MessageRow) :
    ((rekey keys).apply m).conversationId = m.conversationId ∧
      (keys.lookup m.id = none → (rekey keys).apply m = m) ∧
      ∀ key, keys.lookup m.id = some key → m.contentKey = some key →
        (rekey keys).apply m = m := by
  unfold rekey
  cases h : keys.lookup m.id with
  | none => simp [h]
  | some key =>
    refine ⟨by simp [h], by simp [h], ?_⟩
    intro key' hkey' hcontent
    cases hkey'
    simp only [h]
    rw [← hcontent]

/-- A row given a key, as the content keys read it. -/
theorem message_rekey {keys : List (Int × String)} (m : MessageRow)
    (h : db'.attachments = db.attachments) :
    db'.message handles ((rekey keys).apply m) = (db.message handles m).rekeyed keys := by
  unfold Db.message Message.rekeyed rekey
  rw [h]
  cases hkey : keys.lookup m.id <;> simp [hkey]

/-- Filling the keys, as the content keys read the account. -/
theorem account_fillMissingContentKeys (db : Db) :
    (fillMissingContentKeys sha256Hex rfc3339Secs handles accountId db).account handles accountId =
      (db.account handles accountId).update
        (Message.rekeyed ((db.account handles accountId).missingContentKeys sha256Hex rfc3339Secs))
        (Message.rekeyed_id _) := by
  unfold fillMissingContentKeys
  generalize (db.account handles accountId).missingContentKeys sha256Hex rfc3339Secs = keys
  unfold Db.account Account.update
  simp only [Account.mk.injEq, rows_update, List.filter_map, List.map_map]
  refine ⟨trivial, ?_⟩
  have hfilter : ∀ m : MessageRow, ((rekey keys).apply m).conversationId = m.conversationId :=
    fun m => (rekey_apply keys m).1
  simp only [Function.comp_def, hfilter]
  exact List.map_congr_left fun m _ => message_rekey m rfl

/-- Filling the keys a second time changes nothing. -/
theorem fillMissingContentKeys_idem (db : Db) :
    (fillMissingContentKeys sha256Hex rfc3339Secs handles accountId
      (fillMissingContentKeys sha256Hex rfc3339Secs handles accountId db)).messages =
      (fillMissingContentKeys sha256Hex rfc3339Secs handles accountId db).messages := by
  set filled := fillMissingContentKeys sha256Hex rfc3339Secs handles accountId db with hfilled
  have haccount : filled.account handles accountId = _ := account_fillMissingContentKeys db
  apply Table.ext
  show filled.messages.rows.map (rekey ((filled.account handles accountId).missingContentKeys
    sha256Hex rfc3339Secs)).apply = filled.messages.rows
  rw [haccount]
  refine (List.map_congr_left fun r hr => ?_).trans (List.map_id _)
  cases hkey : (((db.account handles accountId).update (Message.rekeyed
      ((db.account handles accountId).missingContentKeys sha256Hex rfc3339Secs))
      (Message.rekeyed_id _)).missingContentKeys sha256Hex rfc3339Secs).lookup r.id with
  | none => exact (rekey_apply _ r).2.1 hkey
  | some key =>
    have hp := (lookup_eq_some_of_nodup (missingContentKeys_nodup _)).mp hkey
    obtain ⟨m, hm, hid, hcontent⟩ := missingContentKeys_rekeyed hp
    -- The row of that id is the message's row, filled.
    obtain ⟨row, hrow, rfl⟩ := List.mem_map.mp hm
    obtain ⟨old, hold, rfl⟩ := List.mem_map.mp hr
    have hsame : old = row := by
      refine Table.eq_of_id_eq hold (List.mem_filter.mp hrow).1 ?_
      exact ((rekey _).id_apply old).symm.trans hid.symm
    subst hsame
    rw [← message_rekey old (rfl : db.attachments = db.attachments)] at hcontent
    exact (rekey_apply _ _).2.2 key hkey hcontent

theorem find?_fillMissingContentKeys (k : Int × String × String) :
    ∃ keys : List (Int × String), (fillMissingContentKeys sha256Hex rfc3339Secs handles accountId db).messages.find? k =
      (db.messages.find? k).map (rekey keys).apply :=
  ⟨_, find?_update (rekey_key _) k db.messages⟩

/-- Filling the keys moves no message. -/
theorem msgMap_fillMissingContentKeys :
    s.msgMap accountId (fillMissingContentKeys sha256Hex rfc3339Secs handles accountId db) =
      s.msgMap accountId db := by
  have hid : ∀ k, ((fillMissingContentKeys sha256Hex rfc3339Secs handles accountId
      db).messages.find? k).map MessageRow.id = (db.messages.find? k).map MessageRow.id := by
    intro k
    obtain ⟨keys, hfind⟩ := find?_fillMissingContentKeys k
    rw [hfind, Option.map_map]
    congr 1
    funext m
    exact (rekey keys).id_apply m
  unfold Staging.msgMap writeMessageMap
  simp only [hid]
  rfl

/-- Filling the keys leaves every staged row stored. -/
theorem Staging.Stored.fillMissingContentKeys (h : s.Stored accountId db) :
    s.Stored accountId (fillMissingContentKeys sha256Hex rfc3339Secs handles accountId db) := by
  have hmsg : s.msgMap accountId (MessageCrate.fillMissingContentKeys sha256Hex rfc3339Secs
      handles accountId db) = s.msgMap accountId db := msgMap_fillMissingContentKeys
  refine ⟨h.conversations, h.participants, ?_, ?_, ?_⟩
  · intro p hp
    obtain ⟨row, hrow, v, hv, hkey⟩ := holds_iff.mp (h.messages p hp)
    refine holds_iff.mpr ⟨_, List.mem_map.mpr ⟨row, hrow, rfl⟩, v, hv, ?_⟩
    rw [rekey_key, hkey]
  · rw [hmsg]
    exact h.attachments
  · rw [hmsg]
    exact h.tapbacks

/-! Filled files. -/

/-- Where an attachment of production comes from: it was there, or it is a staged one that
was not. -/
theorem Promotion.mem_attachments (h : Promotion w s accountId msgMap db db' stats)
    {a : AttachmentRow} (ha : a ∈ db'.attachments.rows) :
    (∃ a₀ ∈ db.attachments.rows, (fillFile (stagedAttachments w s msgMap)).apply a₀ = a) ∨
      ∃ sa ∈ s.attachments.rows, msgMap.lookup sa.messageId = some a.messageId ∧
        a.sha256 = sa.sha256 ∧ (∀ f, a.SamePath f ↔ sa.SamePath f) ∧
        ∀ a₀ ∈ db.attachments.rows, a₀.messageId = a.messageId →
          ¬ ((fillFile (stagedAttachments w s msgMap)).apply a₀).Same sa := by
  rw [h.attachments] at ha
  obtain ⟨added, hrows, hadded⟩ := insertOrIgnoreAll_spec
    (newAttachments (stagedAttachments w s msgMap)
      (db.attachments.update (fillFile (stagedAttachments w s msgMap))).rows)
    (db.attachments.update (fillFile (stagedAttachments w s msgMap)))
  rw [hrows] at ha
  rcases List.mem_append.mp ha with ha | ha
  · exact Or.inl (List.mem_map.mp ha)
  · obtain ⟨-, n, hn, hrow⟩ := hadded a ha
    obtain ⟨⟨sa, m⟩, hp, rfl⟩ := List.mem_map.mp hn
    obtain ⟨hstaged, hnew⟩ := List.mem_filter.mp hp
    obtain ⟨hsa, hm⟩ := mem_stagedAttachments.mp hstaged
    have hid : a.messageId = m := by rw [hrow]; rfl
    refine Or.inr ⟨sa, hsa, by rw [hid]; exact hm, by rw [hrow]; rfl, ?_, ?_⟩
    · intro f
      rw [hrow]
      exact Iff.rfl
    · intro a₀ ha₀ hmsg hsame
      have hany : (db.attachments.update (fillFile (stagedAttachments w s msgMap))).rows.any
          (fun a => a.messageId = m ∧ a.Same sa) = true := by
        refine List.any_eq_true.mpr ⟨_, List.mem_map.mpr ⟨a₀, ha₀, rfl⟩, ?_⟩
        simpa using ⟨(fillFile_same _ a₀).1.trans (hmsg.trans hid), hsame⟩
      rw [hany] at hnew
      cases hnew

/-- The staged message behind a mapped id, and the production message it is mapped to. -/
theorem Promotion.message_of_lookup (h : Promotion w s accountId msgMap db db' stats) {i m : Int}
    (hm : msgMap.lookup i = some m) :
    ∃ sm ∈ s.messages.rows, sm.id = i ∧ sm.accountId = accountId ∧
      (∃ sc ∈ s.conversationsOf accountId, sc.id = sm.conversationId) ∧
      ∃ row ∈ db'.messages.rows,
        row.guidKey = some (sm.accountId, sm.source, sm.guid) ∧ row.id = m := by
  rw [h.lookup_msgMap] at hm
  obtain ⟨⟨sm, c⟩, hp, hid, row, hrow, hkey, hrowid⟩ := (lookup_msgMap_iff h.held).mp hm
  obtain ⟨hsm, hacc, hconv⟩ := mem_stagedMessages.mp hp
  obtain ⟨sc, hsc, hscid, -⟩ := lookup_convMap.mp hconv
  exact ⟨sm, hsm, hid, hacc, ⟨sc, hsc, hscid⟩, row, hrow, hkey, hrowid⟩

/-- A file filled the second time divides the batch. -/
theorem Promotion.divides_of_fileFor (h : Promotion w s accountId msgMap db db' stats)
    {msgMap' : List (Int × Int)} (hlookup : ∀ i, msgMap'.lookup i = msgMap.lookup i)
    {a : AttachmentRow} (ha : a ∈ db'.attachments.rows)
    (hfound : (fileFor (stagedAttachments w' s msgMap') a).isSome = true) :
    s.Divides accountId db := by
  obtain ⟨hsha, f, m, hf, hpath, hfsha, hid, hsame⟩ := fileFor_isSome.mp hfound
  obtain ⟨hfmem, hfm⟩ := mem_stagedAttachments.mp hf
  rw [hlookup] at hfm
  rcases h.mem_attachments ha with ⟨a₀, ha₀, rfl⟩ | ⟨sa, hsa, hsam, hsasha, hsapath, hnew⟩
  · -- A row of before would have taken the file the first time.
    exfalso
    obtain ⟨hmsg, hpaths⟩ := fillFile_same (stagedAttachments w s msgMap) a₀
    have hnone : fileFor (stagedAttachments w s msgMap) a₀ = none := fileFor_of_fillFile hsha
    rw [fillFile_of_none hnone] at hsha hid hsame
    have hsome : (fileFor (stagedAttachments w s msgMap) a₀).isSome = true :=
      fileFor_isSome.mpr ⟨hsha, f, m, mem_stagedAttachments.mpr ⟨hfmem, hfm⟩, hpath, hfsha, hid,
        hsame⟩
    rw [hnone] at hsome
    cases hsome
  · obtain ⟨sm, hsm, hsmid, hacc, hsc, row, hrow, hkey, hrowid⟩ := h.message_of_lookup hfm
    obtain ⟨sm', hsm', hsmid', -, -, row', hrow', hkey', hrowid'⟩ := h.message_of_lookup hsam
    have hrows : row' = row := Table.eq_of_id_eq hrow' hrow (hrowid'.trans (hid.trans hrowid.symm))
    have hsms : sm' = sm := by
      refine eq_of_key_eq hsm' hsm (k := (sm.accountId, sm.source, sm.guid)) ?_ rfl
      rw [← hkey, ← hrows, hkey']
      rfl
    refine ⟨sm, hsm, hacc, hsc, sa, hsa, f, hfmem, ?_, hsmid.symm, ?_, ?_, ?_, hfsha, ?_⟩
    · rw [← hsms, hsmid']
    · rw [((hsapath f).mp hsame).1]
      exact hpath
    · exact (hsapath f).mp hsame
    · rw [← hsasha, hsha]
    · intro m₀ hm₀ hkey₀ a₀ ha₀ hmsg₀ hsame₀
      have hm₀' : m₀ ∈ db'.messages.rows := by
        rw [h.messages]
        exact subset_insertOrIgnoreAll _ _ _ hm₀
      have : m₀ = row := eq_of_key_eq hm₀' hrow hkey₀ hkey
      have hpathsa : sa.path ≠ none := by
        rw [((hsapath f).mp hsame).1]
        exact hpath
      refine hnew a₀ ha₀ ?_ ⟨((fillFile_same _ a₀).2 sa).mpr hsame₀, Or.inl hpathsa⟩
      rw [hmsg₀, this, hrowid, hid]

/-- A divided attachment takes its file the second time. -/
theorem Promotion.exists_fileFor_of_divides (hfk : db.ForeignKeys)
    (h : Promotion w s accountId msgMap db db' stats)
    {msgMap' : List (Int × Int)} (hlookup : ∀ i, msgMap'.lookup i = msgMap.lookup i)
    (hdiv : s.Divides accountId db) :
    ∃ a ∈ db'.attachments.rows, (fileFor (stagedAttachments w' s msgMap') a).isSome = true := by
  obtain ⟨sm, hsm, hacc, ⟨sc, hsc, hscid⟩, sa, hsa, f, hf, hsaid, hfid, hpath, hsame, hsha, hfsha,
    hnew⟩ := hdiv
  obtain ⟨c, hc⟩ := exists_lookup_convMap hsc ((stored_of_promotion h).conversations sc hsc)
  have hp : (sm, c) ∈ stagedMessages s accountId (s.convMap accountId db') :=
    mem_stagedMessages.mpr ⟨hsm, hacc, by rw [← hscid]; exact hc⟩
  obtain ⟨row, hrow, v, hv, hkey⟩ := holds_iff.mp (h.held (sm, c) hp)
  cases hv
  have hm : msgMap.lookup sm.id = some row.id := by
    rw [h.lookup_msgMap]
    exact (lookup_msgMap_iff h.held).mpr ⟨(sm, c), hp, rfl, row, hrow, hkey, rfl⟩
  -- Production has no such attachment, so the staged row without the file went in.
  have hgone : ∀ a₀ ∈ db.attachments.rows, a₀.messageId = row.id → ¬ a₀.SamePath sa := by
    intro a₀ ha₀ hmsg
    obtain ⟨m₀, hm₀, hm₀id⟩ := hfk.attachments a₀ ha₀
    have hm₀' : m₀ ∈ db'.messages.rows := by
      rw [h.messages]
      exact subset_insertOrIgnoreAll _ _ _ hm₀
    have hrow₀ : m₀ = row := Table.eq_of_id_eq hm₀' hrow (hm₀id.trans hmsg)
    exact hnew m₀ hm₀ (by rw [hrow₀]; exact hkey) a₀ ha₀ hm₀id.symm
  have hin : sa.promoted row.id ∈ newAttachments (stagedAttachments w s msgMap)
      (db.attachments.update (fillFile (stagedAttachments w s msgMap))).rows := by
    refine List.mem_map.mpr ⟨(sa, row.id), List.mem_filter.mpr ⟨?_, ?_⟩, rfl⟩
    · exact mem_stagedAttachments.mpr ⟨hsa, by rw [hsaid]; exact hm⟩
    · simp only [Bool.not_eq_true', List.any_eq_false, rows_update, List.mem_map,
        decide_eq_true_eq, not_and]
      rintro a ⟨a₀, ha₀, rfl⟩ hmsg hsame₀
      obtain ⟨hmsg', hpaths⟩ := fillFile_same (stagedAttachments w s msgMap) a₀
      exact hgone a₀ ha₀ (hmsg'.symm.trans hmsg) ((hpaths sa).mp hsame₀.1)
  obtain ⟨i, hi⟩ := exists_mem_insertOrIgnoreAll hin rfl
    (db.attachments.update (fillFile (stagedAttachments w s msgMap)))
  rw [← h.attachments] at hi
  refine ⟨_, hi, fileFor_isSome.mpr ⟨hsha, f, row.id, ?_, ?_, hfsha, rfl, hsame⟩⟩
  · refine mem_stagedAttachments.mpr ⟨hf, ?_⟩
    rw [hlookup, hfid]
    exact hm
  · rw [← hsame.1]
    exact hpath

/-! The two promotions. -/

theorem account_congr (h : db.SameTables db') :
    db.account handles accountId = db'.account handles accountId := by
  unfold Db.account Db.message Db.accountOf
  simp only [h.conversations, h.participants, h.messages, h.attachments]

theorem Db.SameTables.fillMissingContentKeys (h : db.SameTables db') :
    (fillMissingContentKeys sha256Hex rfc3339Secs handles accountId db).SameTables
      (fillMissingContentKeys sha256Hex rfc3339Secs handles accountId db') := by
  refine ⟨h.conversations, h.participants, ?_, h.attachments, h.tapbacks⟩
  unfold MessageCrate.fillMissingContentKeys
  simp only [account_congr h, h.messages]

end

section
variable (sha256Hex : ByteArray → String) (rfc3339Secs : String → Option Int) (handles : Handles)
  (w w' : Walk) (accountId : Int) (fillContentKeys : Bool) (wipeSources : List String)
  (s : Staging) (db : Db)

/-- Append mode wipes nothing and refuses nothing. -/
theorem promoteAppend_append :
    ∃ msgMap db' stats, Promotion w s accountId msgMap db db' stats ∧
      promoteAppend sha256Hex rfc3339Secs handles w .append accountId fillContentKeys wipeSources
          s db =
        some (if fillContentKeys then
          fillMissingContentKeys sha256Hex rfc3339Secs handles accountId db' else db', stats) := by
  obtain ⟨⟨db', stats⟩, hstaged⟩ := promoteStaged_append w s accountId db
  obtain ⟨msgMap, hp⟩ := promoteStaged_spec hstaged
  refine ⟨msgMap, db', stats, hp, ?_⟩
  unfold promoteAppend
  simp only [reduceCtorEq, if_false, hstaged, Option.bind_eq_bind, Option.bind_some]
  rfl

/-- The second promotion is given stored rows, so what it does hangs on the files. -/
theorem promote_twice (hfk : db.ForeignKeys) :
    ∃ db₁ stats₁ db₂ stats₂,
      promoteAppend sha256Hex rfc3339Secs handles w .append accountId fillContentKeys wipeSources
        s db = some (db₁, stats₁) ∧
      promoteAppend sha256Hex rfc3339Secs handles w' .append accountId fillContentKeys wipeSources
        s db₁ = some (db₂, stats₂) ∧
      (stats₂.StoredNothing ↔ stats₂.found = 0) ∧
      (stats₂.found = 0 → db₂.SameTables db₁) ∧
      (stats₂.found = 0 ↔ ¬ s.Divides accountId db) := by
  obtain ⟨msgMap, db', stats, h, hfirst⟩ := promoteAppend_append sha256Hex rfc3339Secs handles w
    accountId fillContentKeys wipeSources s db
  have hstored' := stored_of_promotion h
  set db₁ := if fillContentKeys then
    fillMissingContentKeys sha256Hex rfc3339Secs handles accountId db' else db' with hdb₁
  have hstored : s.Stored accountId db₁ := by
    rw [hdb₁]
    split
    · exact hstored'.fillMissingContentKeys
    · exact hstored'
  have hmap : s.msgMap accountId db₁ = s.msgMap accountId db' := by
    rw [hdb₁]
    split
    · exact msgMap_fillMissingContentKeys
    · rfl
  have hatt : db₁.attachments = db'.attachments := by
    rw [hdb₁]
    split <;> rfl
  obtain ⟨msgMap', db₂, stats', h', hsecond⟩ := promoteAppend_append sha256Hex rfc3339Secs handles
    w' accountId fillContentKeys wipeSources s db₁
  obtain ⟨hconv₂, -, hmsg₂, -, -, -, -⟩ := h'.unchanged hstored
  have hlookup : ∀ i, msgMap'.lookup i = msgMap.lookup i := by
    intro i
    rw [h'.lookup_msgMap, msgMap_congr hconv₂ hmsg₂, hmap, h.lookup_msgMap]
  refine ⟨db₁, stats, _, stats', hfirst, hsecond, h'.storedNothing_iff hstored, ?_, ?_⟩
  · intro hfound
    have hsame := h'.sameTables hstored hfound
    split
    · next hfill =>
      have hfilled : (fillMissingContentKeys sha256Hex rfc3339Secs handles accountId
          db₁).SameTables db₁ := by
        rw [hdb₁, if_pos hfill]
        exact ⟨rfl, rfl, fillMissingContentKeys_idem db', rfl, rfl⟩
      exact hsame.fillMissingContentKeys.trans hfilled
    · exact hsame
  · rw [h'.countFound, List.countP_eq_zero, hatt]
    constructor
    · intro hnone hdiv
      obtain ⟨a, ha, hfound⟩ := h.exists_fileFor_of_divides hfk hlookup hdiv
      exact hnone a ha hfound
    · intro hdiv a ha hfound
      exact hdiv (h.divides_of_fileFor hlookup ha hfound)

/-- **A batch sent again.** Promoting a batch in append mode and then again leaves every
table as the first promotion left it, and stores nothing, exactly when the batch divides no
attachment. -/
theorem promote_again_iff (hfk : db.ForeignKeys) :
    ∃ db₁ stats₁ db₂ stats₂,
      promoteAppend sha256Hex rfc3339Secs handles w .append accountId fillContentKeys wipeSources
        s db = some (db₁, stats₁) ∧
      promoteAppend sha256Hex rfc3339Secs handles w' .append accountId fillContentKeys wipeSources
        s db₁ = some (db₂, stats₂) ∧
      (db₂.SameTables db₁ ∧ stats₂.StoredNothing ↔ ¬ s.Divides accountId db) := by
  obtain ⟨db₁, stats₁, db₂, stats₂, hfirst, hsecond, hnothing, hsame, hdivides⟩ :=
    promote_twice sha256Hex rfc3339Secs handles w w' accountId fillContentKeys wipeSources s db hfk
  refine ⟨db₁, stats₁, db₂, stats₂, hfirst, hsecond, ?_⟩
  rw [← hdivides, hnothing]
  exact ⟨fun h => h.2, fun h => ⟨hsame h, h⟩⟩

end

theorem foreignKeys_empty : Db.empty.ForeignKeys where
  participants _ h := nomatch h
  messages _ h := nomatch h
  attachments _ h := nomatch h
  tapbacks _ h := nomatch h

/-- Two rows of one attachment, the first with its file and the second without. -/
def dividedBatch : Staging where
  conversations := ⟨[⟨1, 1, 7, "individual", none, none, "chat.vcrate"⟩], by decide, by decide⟩
  participants := Table.empty
  messages := ⟨[{
      id := 1
      conversationId := 1
      accountId := 1
      source := "imessage"
      guid := "g-1"
      guid_ne := by decide
      timestamp := "2024-01-01T00:00:00Z"
      isFromMe := 0
      senderHandleId := some 7
      ownerHandleId := none
      service := none
      subject := none
      body := none
      isAnnouncement := 0
      isReply := 0
      threadOriginatorGuid := none
      threadOriginatorPart := none
      numReplies := 0
      sortOrder := 0
      importId := none }], by decide, by decide⟩
  attachments := ⟨[
      ⟨1, 1, some "a/photo.jpg", some "photo.jpg", some "image/jpeg", 0, none, some "d1",
        some "d1.jpg", some 12, none⟩,
      ⟨2, 1, some "a/photo.jpg", some "photo.jpg", some "image/jpeg", 0, none, none, none, none,
        some "file_missing"⟩], by decide, by decide⟩
  tapbacks := Table.empty

theorem dividedBatch_divides : dividedBatch.Divides 1 Db.empty := by
  refine ⟨dividedBatch.messages.rows.head (by decide), by decide, by decide, ?_, ?_⟩
  · exact ⟨dividedBatch.conversations.rows.head (by decide), by decide, by decide⟩
  · refine ⟨dividedBatch.attachments.rows.getLast (by decide), by decide,
      dividedBatch.attachments.rows.head (by decide), by decide, by decide, by decide, by decide,
      by decide, by decide, by decide, ?_⟩
    intro m hm
    cases hm

/-- The divided batch sent to an empty account twice: the second time it changes a row. -/
theorem promote_again_fills_a_file :
    ∃ db₁ stats₁ db₂ stats₂,
      promoteAppend (fun _ => "key") (fun _ => some 0) ⟨fun _ => "+15550001", fun _ _ => false⟩
        Walk.inserted .append 1 true [] dividedBatch Db.empty = some (db₁, stats₁) ∧
      promoteAppend (fun _ => "key") (fun _ => some 0) ⟨fun _ => "+15550001", fun _ _ => false⟩
        Walk.inserted .append 1 true [] dividedBatch db₁ = some (db₂, stats₂) ∧
      ¬ (db₂.SameTables db₁ ∧ stats₂.StoredNothing) := by
  obtain ⟨db₁, stats₁, db₂, stats₂, hfirst, hsecond, hnothing, -, hdivides⟩ :=
    promote_twice (fun _ => "key") (fun _ => some 0) ⟨fun _ => "+15550001", fun _ _ => false⟩
      Walk.inserted Walk.inserted 1 true [] dividedBatch Db.empty foreignKeys_empty
  refine ⟨db₁, stats₁, db₂, stats₂, hfirst, hsecond, fun h => ?_⟩
  exact hdivides.mp (hnothing.mp h.2) dividedBatch_divides

theorem promote_again_empty :
    Db.empty.ForeignKeys ∧ ∃ db₁ stats₁ db₂ stats₂,
      promoteAppend (fun _ => "key") (fun _ => some 0) ⟨fun _ => "+15550001", fun _ _ => false⟩
        Walk.inserted .append 1 true [] dividedBatch Db.empty = some (db₁, stats₁) ∧
      promoteAppend (fun _ => "key") (fun _ => some 0) ⟨fun _ => "+15550001", fun _ _ => false⟩
        Walk.inserted .append 1 true [] dividedBatch db₁ = some (db₂, stats₂) ∧
      (db₂.SameTables db₁ ∧ stats₂.StoredNothing ↔ ¬ dividedBatch.Divides 1 Db.empty) :=
  ⟨foreignKeys_empty, promote_again_iff _ _ _ _ _ _ _ _ _ _ foreignKeys_empty⟩

end MessageCrate

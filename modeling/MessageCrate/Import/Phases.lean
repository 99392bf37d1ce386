import MessageCrate.Import.Promote

/- What each phase of a promotion does to the tables.

   One lemma a phase: the rows it adds are those of the staged rows, under ids above every
   id before, and it leaves the other tables alone. With the triggers paused the index is
   left alone too, and the ranges the messages go in by cover every staged message. -/
namespace MessageCrate
open Grouping SqlTable Table

/-! The ranges. -/

theorem messageChunks_cover (lo maxId : Int) {x : Int} (hlo : lo < x) (hmax : x ≤ maxId) :
    ∃ range ∈ messageChunks lo maxId, range.1 < x ∧ x ≤ range.2 := by
  induction lo using messageChunks.induct maxId with
  | case1 lo h hi ih =>
    rw [messageChunks, if_pos h]
    by_cases hx : x ≤ hi
    · exact ⟨(lo, hi), List.mem_cons_self, hlo, hx⟩
    · obtain ⟨range, hrange, hin⟩ := ih (by omega)
      exact ⟨range, List.mem_cons_of_mem _ hrange, hin⟩
  | case2 lo h => omega

theorem mem_stagedChunks {staged : List (StagingMessageRow × Int)} {p : StagingMessageRow × Int} :
    p ∈ (stagedChunks staged).flatten ↔ p ∈ staged := by
  unfold stagedChunks
  constructor
  · intro h
    obtain ⟨chunk, hchunk, hp⟩ := List.mem_flatten.mp h
    split at hchunk
    · obtain ⟨range, -, rfl⟩ := List.mem_map.mp hchunk
      exact (List.mem_filter.mp hp).1
    · cases hchunk
  · intro h
    have hid : p.1.id ∈ staged.map (fun p => p.1.id) := List.mem_map.mpr ⟨p, h, rfl⟩
    cases hmin : (staged.map (fun p => p.1.id)).min? with
    | none => rw [List.min?_eq_none_iff.mp hmin] at hid; cases hid
    | some minId =>
      cases hmax : (staged.map (fun p => p.1.id)).max? with
      | none => rw [List.max?_eq_none_iff.mp hmax] at hid; cases hid
      | some maxId =>
        have hlo := (List.min?_eq_some_iff.mp hmin).2 _ hid
        have hhi := (List.max?_eq_some_iff.mp hmax).2 _ hid
        obtain ⟨range, hrange, hin⟩ :=
          messageChunks_cover (minId - 1) maxId (x := p.1.id) (by omega) hhi
        refine List.mem_flatten.mpr ⟨inRange staged range, List.mem_map.mpr ⟨range, hrange, rfl⟩, ?_⟩
        exact List.mem_filter.mpr ⟨h, by simpa using hin⟩

namespace Db

@[simp] theorem setMessages_setMessages (db : Db) (t t' : Table MessageRow) :
    (db.setMessages t).setMessages t' = db.setMessages t' := rfl

@[simp] theorem setAttachments_setAttachments (db : Db) (t t' : Table AttachmentRow) :
    (db.setAttachments t).setAttachments t' = db.setAttachments t' := rfl

/-! Inserts with the triggers paused. -/

theorem insertMessage_paused {db : Db} (h : db.triggers = false) (n : New MessageRow) :
    db.insertMessage n = db.setMessages (db.messages.insertOrIgnore n) := by
  unfold insertMessage
  split
  · next hheld =>
    rw [insertOrIgnore_of_holds hheld]
    rfl
  · simp only [h, Bool.false_eq_true, if_false]
    rw [← h]
    rfl

theorem insertMessages_paused {db : Db} (h : db.triggers = false) (ns : List (New MessageRow)) :
    ns.foldl (fun db n => db.insertMessage n) db =
      db.setMessages (db.messages.insertOrIgnoreAll ns) := by
  induction ns generalizing db with
  | nil => rfl
  | cons n ns ih =>
    rw [List.foldl_cons, insertMessage_paused h, ih (by exact h)]
    rfl

theorem insertAttachment_paused {db : Db} (h : db.triggers = false) (n : New AttachmentRow) :
    db.insertAttachment n = db.setAttachments (db.attachments.insertOrIgnore n) := by
  unfold insertAttachment
  simp only [h, Bool.false_eq_true, if_false]
  rw [← h]
  rfl

theorem insertAttachments_paused {db : Db} (h : db.triggers = false)
    (ns : List (New AttachmentRow)) :
    ns.foldl (fun db n => db.insertAttachment n) db =
      db.setAttachments (db.attachments.insertOrIgnoreAll ns) := by
  induction ns generalizing db with
  | nil => rfl
  | cons n ns ih =>
    rw [List.foldl_cons, insertAttachment_paused h, ih (by exact h)]
    rfl

end Db

/-! Messages. -/

/-- The rows a promotion of the staged messages makes, range after range. -/
def chunkedMessages (staged : List (StagingMessageRow × Int)) : List (New MessageRow) :=
  newMessages (stagedChunks staged).flatten

theorem mem_chunkedMessages {staged : List (StagingMessageRow × Int)} {n : New MessageRow} :
    n ∈ chunkedMessages staged ↔ ∃ p ∈ staged, p.1.promoted p.2 = n := by
  unfold chunkedMessages newMessages
  rw [List.mem_map]
  simp only [mem_stagedChunks]

theorem insertMessagesAppend_eq {db : Db} (h : db.triggers = false)
    (staged : List (StagingMessageRow × Int)) :
    insertMessagesAppend staged db =
      db.setMessages (db.messages.insertOrIgnoreAll (chunkedMessages staged)) := by
  unfold insertMessagesAppend chunkedMessages
  generalize stagedChunks staged = chunks
  induction chunks generalizing db with
  | nil => rfl
  | cons chunk chunks ih =>
    rw [List.foldl_cons, Db.insertMessages_paused h, ih (by exact h), List.flatten_cons, newMessages,
      newMessages, newMessages, List.map_append, insertOrIgnoreAll_append]
    rfl

/-- Rows that go in without a refusal go in as they do in append mode. -/
theorem insertRowsReplace_eq {db db' : Db} (h : db.triggers = false) {ns : List (New MessageRow)}
    (hins : ns.foldlM (fun (db : Db) n =>
      if db.messages.holds n.key then none else some (db.insertMessage n)) db = some db') :
    db' = db.setMessages (db.messages.insertOrIgnoreAll ns) := by
  induction ns generalizing db with
  | nil =>
    cases hins
    rfl
  | cons n ns ih =>
    rw [List.foldlM_cons] at hins
    obtain ⟨db₁, h₁, h₂⟩ := Option.bind_eq_some_iff.mp hins
    split at h₁
    · cases h₁
    · cases h₁
      rw [Db.insertMessage_paused h] at h₂
      rw [ih (by exact h) h₂]
      rfl

theorem fst_mem_of_zipNewMessageIds {accountId : Int} {staged : List Int} {maxBefore : Int}
    {db : Db} {zipped : List (Int × Int)}
    (h : zipNewMessageIds accountId staged maxBefore db = some zipped) :
    ∀ q ∈ zipped, q.1 ∈ staged := by
  unfold zipNewMessageIds at h
  simp only at h
  split at h
  · cases h
    exact fun q hq => (List.of_mem_zip hq).1
  · cases h

theorem insertRangeReplace_eq {accountId : Int} {db db' : Db} (h : db.triggers = false)
    {chunk : List (StagingMessageRow × Int)} {pairs pairs' : List (Int × Int)}
    (hins : insertRangeReplace accountId (db, pairs) chunk = some (db', pairs')) :
    db' = db.setMessages (db.messages.insertOrIgnoreAll (newMessages chunk)) ∧
      ∀ q ∈ pairs', q ∈ pairs ∨ ∃ p ∈ chunk, p.1.id = q.1 := by
  obtain ⟨db₁, hrows, hzip⟩ := Option.bind_eq_some_iff.mp hins
  obtain ⟨zipped, hz, hpure⟩ := Option.bind_eq_some_iff.mp hzip
  cases hpure
  refine ⟨insertRowsReplace_eq h hrows, fun q hq => ?_⟩
  rcases List.mem_append.mp hq with hq | hq
  · exact Or.inl hq
  · obtain ⟨p, hp, hid⟩ := List.mem_map.mp (fst_mem_of_zipNewMessageIds hz q hq)
    exact Or.inr ⟨p, hp, hid⟩

theorem insertRangesReplace_eq {accountId : Int} {db db' : Db} (h : db.triggers = false)
    {chunks : List (List (StagingMessageRow × Int))} {pairs pairs' : List (Int × Int)}
    (hins : chunks.foldlM (insertRangeReplace accountId) (db, pairs) = some (db', pairs')) :
    db' = db.setMessages (db.messages.insertOrIgnoreAll (newMessages chunks.flatten)) ∧
      ∀ q ∈ pairs', q ∈ pairs ∨ ∃ p ∈ chunks.flatten, p.1.id = q.1 := by
  induction chunks generalizing db pairs with
  | nil =>
    cases hins
    exact ⟨rfl, fun q hq => Or.inl hq⟩
  | cons chunk chunks ih =>
    rw [List.foldlM_cons] at hins
    obtain ⟨⟨db₁, pairs₁⟩, h₁, h₂⟩ := Option.bind_eq_some_iff.mp hins
    obtain ⟨hdb₁, hpairs₁⟩ := insertRangeReplace_eq h h₁
    obtain ⟨hdb, hpairs⟩ := ih (by rw [hdb₁]; exact h) h₂
    refine ⟨?_, fun q hq => ?_⟩
    · rw [hdb, hdb₁, List.flatten_cons, newMessages, newMessages, newMessages, List.map_append,
        insertOrIgnoreAll_append]
      rfl
    · rw [List.flatten_cons]
      rcases hpairs q hq with hq | ⟨p, hp, hid⟩
      · rcases hpairs₁ q hq with hq | ⟨p, hp, hid⟩
        · exact Or.inl hq
        · exact Or.inr ⟨p, List.mem_append_left _ hp, hid⟩
      · exact Or.inr ⟨p, List.mem_append_right _ hp, hid⟩

theorem insertMessagesReplace_eq {accountId : Int} {db db' : Db} (h : db.triggers = false)
    {staged : List (StagingMessageRow × Int)} {pairs : List (Int × Int)}
    (hins : insertMessagesReplace accountId staged db = some (db', pairs)) :
    db' = db.setMessages (db.messages.insertOrIgnoreAll (chunkedMessages staged)) ∧
      ∀ q ∈ pairs, ∃ p ∈ staged, p.1.id = q.1 := by
  obtain ⟨hdb, hpairs⟩ := insertRangesReplace_eq h hins
  refine ⟨hdb, fun q hq => ?_⟩
  rcases hpairs q hq with hq | ⟨p, hp, hid⟩
  · cases hq
  · exact ⟨p, mem_stagedChunks.mp hp, hid⟩

/-- The messages go in, and nothing else changes but the paused triggers. -/
theorem promoteMessages_eq {s : Staging} {accountId : Int} {mode : ImportMode}
    {convMap : List (Int × Int)} {db db' : Db} {msgMap : List (Int × Int)} {before : Int}
    {count : Nat}
    (h : promoteMessages s accountId mode convMap db = some (db', msgMap, before, count)) :
    db' = db.pauseTriggers.setMessages
        (db.messages.insertOrIgnoreAll (chunkedMessages (stagedMessages s accountId convMap))) ∧
      before = db.messages.maxId ∧
      count = db'.messages.rows.length - db.messages.rows.length ∧
      ∃ pairs, msgMap = writeMessageMap (stagedMessages s accountId convMap) pairs db' ∧
        ∀ q ∈ pairs, ∃ p ∈ stagedMessages s accountId convMap, p.1.id = q.1 := by
  unfold promoteMessages at h
  obtain ⟨⟨db₁, pairs⟩, hins, hrest⟩ := Option.bind_eq_some_iff.mp h
  cases hrest
  cases mode with
  | replace =>
    obtain ⟨hdb, hpairs⟩ := insertMessagesReplace_eq (by rfl) hins
    exact ⟨hdb, rfl, rfl, pairs, rfl, hpairs⟩
  | append =>
    cases hins
    exact ⟨insertMessagesAppend_eq (by rfl) _, rfl, rfl, [], rfl, by simp⟩

/-- Append mode never fails here. -/
theorem promoteMessages_append (s : Staging) (accountId : Int) (convMap : List (Int × Int))
    (db : Db) : ∃ r, promoteMessages s accountId .append convMap db = some r := by
  simp [promoteMessages, insertMessages]

/-! The staged rows a promotion reads. -/

variable {w : Walk} {s : Staging} {accountId : Int} {db : Db} {t : Table MessageRow}

theorem mem_walk {α : Type} {l : List α} {x : α} : x ∈ w.order l ↔ x ∈ l := (w.perm l).mem_iff

theorem lookup_convMap {i p : Int} :
    (s.convMap accountId db).lookup i = some p ↔
      ∃ sc ∈ s.conversationsOf accountId, sc.id = i ∧ ∃ c ∈ db.conversations.rows,
        c.accountId = sc.accountId ∧ c.chatHandleId = sc.chatHandleId ∧ c.id = p := by
  have hnodup : ((s.conversationsOf accountId).map ConversationRow.id).Nodup :=
    s.conversations.ids_nodup.sublist (List.filter_sublist.map _)
  unfold Staging.convMap
  rw [lookup_idMap hnodup]
  refine exists_congr fun sc => and_congr_right fun _ => and_congr_right fun _ => ?_
  constructor
  · intro h
    obtain ⟨c, hc, hid⟩ := Option.map_eq_some_iff.mp h
    obtain ⟨hmem, hkey⟩ := find?_eq_some.mp hc
    have hkey : some (c.accountId, c.chatHandleId) = some (sc.accountId, sc.chatHandleId) := hkey
    simp only [Option.some.injEq, Prod.mk.injEq] at hkey
    exact ⟨c, hmem, hkey.1, hkey.2, hid⟩
  · rintro ⟨c, hmem, hacc, hchat, rfl⟩
    refine Option.map_eq_some_iff.mpr ⟨c, find?_eq_some.mpr ⟨hmem, ?_⟩, rfl⟩
    show some (c.accountId, c.chatHandleId) = _
    rw [hacc, hchat]

theorem mem_stagedMessages {convMap : List (Int × Int)} {sm : StagingMessageRow} {p : Int} :
    (sm, p) ∈ stagedMessages s accountId convMap ↔
      sm ∈ s.messages.rows ∧ sm.accountId = accountId ∧
        convMap.lookup sm.conversationId = some p := by
  unfold stagedMessages
  rw [List.mem_filterMap]
  constructor
  · rintro ⟨m, hm, hmap⟩
    obtain ⟨p', hp', hpair⟩ := Option.map_eq_some_iff.mp hmap
    cases hpair
    rw [List.mem_filter, List.mem_insertionSort] at hm
    exact ⟨hm.1, by simpa using hm.2, hp'⟩
  · rintro ⟨hmem, hacc, hp⟩
    refine ⟨sm, ?_, Option.map_eq_some_iff.mpr ⟨p, hp, rfl⟩⟩
    rw [List.mem_filter, List.mem_insertionSort]
    exact ⟨hmem, by simpa using hacc⟩

theorem stagedMessages_ids_nodup (convMap : List (Int × Int)) :
    ((stagedMessages s accountId convMap).map (fun p => p.1.id)).Nodup := by
  unfold stagedMessages
  refine List.Nodup.sublist (map_filterMap_sublist (h := StagingMessageRow.id) ?_ _) ?_
  · intro m p hp
    obtain ⟨prodId, -, rfl⟩ := Option.map_eq_some_iff.mp hp
    rfl
  · refine (List.filter_sublist.map _).nodup ?_
    exact ((List.perm_insertionSort _ s.messages.rows).map _).nodup_iff.mpr s.messages.ids_nodup

theorem mem_stagedAttachments {msgMap : List (Int × Int)} {sa : AttachmentRow} {m : Int} :
    (sa, m) ∈ stagedAttachments w s msgMap ↔
      sa ∈ s.attachments.rows ∧ msgMap.lookup sa.messageId = some m := by
  unfold stagedAttachments
  rw [List.mem_filterMap]
  constructor
  · rintro ⟨a, ha, hmap⟩
    obtain ⟨m', hm', hpair⟩ := Option.map_eq_some_iff.mp hmap
    cases hpair
    exact ⟨mem_walk.mp ha, hm'⟩
  · rintro ⟨hmem, hm⟩
    exact ⟨sa, mem_walk.mpr hmem, Option.map_eq_some_iff.mpr ⟨m, hm, rfl⟩⟩

theorem mem_stagedTapbacks {msgMap : List (Int × Int)} {st : TapbackRow} {m : Int} :
    (st, m) ∈ stagedTapbacks w s msgMap ↔
      st ∈ s.tapbacks.rows ∧ msgMap.lookup st.messageId = some m := by
  unfold stagedTapbacks
  rw [List.mem_filterMap]
  constructor
  · rintro ⟨t, ht, hmap⟩
    obtain ⟨m', hm', hpair⟩ := Option.map_eq_some_iff.mp hmap
    cases hpair
    exact ⟨mem_walk.mp ht, hm'⟩
  · rintro ⟨hmem, hm⟩
    exact ⟨st, mem_walk.mpr hmem, Option.map_eq_some_iff.mpr ⟨m, hm, rfl⟩⟩

/-- The staged messages are in production, each under its guid. -/
def Held (s : Staging) (accountId : Int) (convMap : List (Int × Int)) (db : Db) : Prop :=
  ∀ p ∈ stagedMessages s accountId convMap,
    db.messages.holds (some (p.1.accountId, p.1.source, p.1.guid)) = true

/-- What the message map holds once every staged message is in production: each staged id
beside the message of its guid. -/
theorem lookup_writeMessageMap {convMap pairs : List (Int × Int)}
    (hheld : Held s accountId convMap db)
    (hpairs : ∀ q ∈ pairs, ∃ p ∈ stagedMessages s accountId convMap, p.1.id = q.1) {i m : Int} :
    (writeMessageMap (stagedMessages s accountId convMap) pairs db).lookup i = some m ↔
      ∃ p ∈ stagedMessages s accountId convMap, p.1.id = i ∧ ∃ row ∈ db.messages.rows,
        row.guidKey = some (p.1.accountId, p.1.source, p.1.guid) ∧ row.id = m := by
  have hjoin : ∀ i m, (idMap (fun p : StagingMessageRow × Int => p.1.id) (fun p =>
      (db.messages.find? (p.1.accountId, p.1.source, p.1.guid)).map MessageRow.id)
      (stagedMessages s accountId convMap)).lookup i = some m ↔
      ∃ p ∈ stagedMessages s accountId convMap, p.1.id = i ∧ ∃ row ∈ db.messages.rows,
        row.guidKey = some (p.1.accountId, p.1.source, p.1.guid) ∧ row.id = m := by
    intro i m
    rw [lookup_idMap (stagedMessages_ids_nodup convMap)]
    simp only [Option.map_eq_some_iff, find?_eq_some, and_assoc]
    rfl
  have hnone : pairs.filter (fun q => ((idMap (fun p : StagingMessageRow × Int => p.1.id) (fun p =>
      (db.messages.find? (p.1.accountId, p.1.source, p.1.guid)).map MessageRow.id)
      (stagedMessages s accountId convMap)).lookup q.1).isNone) = [] := by
    refine List.filter_eq_nil_iff.mpr fun q hq => ?_
    obtain ⟨p, hp, hid⟩ := hpairs q hq
    obtain ⟨row, hrow, v, hv, hkey⟩ := holds_iff.mp (hheld p hp)
    cases hv
    rw [(hjoin q.1 row.id).mpr ⟨p, hp, hid, row, hrow, hkey, rfl⟩]
    simp
  rw [← hjoin i m]
  unfold writeMessageMap
  simp only [hnone, List.append_nil]

/-! The whole promotion. -/

namespace Staging

/-- The message map of staged rows that are all in production. -/
def msgMap (s : Staging) (accountId : Int) (db : Db) : List (Int × Int) :=
  writeMessageMap (stagedMessages s accountId (s.convMap accountId db)) [] db

end Staging

/-- The message map names the production message of each staged one. -/
theorem lookup_msgMap_iff (hheld : Held s accountId (s.convMap accountId db) db) {i m : Int} :
    (s.msgMap accountId db).lookup i = some m ↔
      ∃ p ∈ stagedMessages s accountId (s.convMap accountId db), p.1.id = i ∧
        ∃ row ∈ db.messages.rows,
          row.guidKey = some (p.1.accountId, p.1.source, p.1.guid) ∧ row.id = m := by
  unfold Staging.msgMap
  exact lookup_writeMessageMap hheld (by simp)

theorem convMap_congr {db' : Db} (h : db.conversations = db'.conversations) :
    s.convMap accountId db = s.convMap accountId db' := by
  unfold Staging.convMap
  rw [h]

theorem promoteConversations_eq {db₁ : Db} {convMap : List (Int × Int)} {count : Nat}
    (h : promoteConversations w s accountId db = (db₁, convMap, count)) :
    db₁ = db.setConversations (db.conversations.upsertAll
        ((w.order (s.conversationsOf accountId)).map ConversationRow.upsert)) ∧
      convMap = s.convMap accountId db₁ ∧
      count = convMap.countP (fun p => db.conversations.maxId < p.2) := by
  cases h
  exact ⟨rfl, rfl, rfl⟩

theorem promoteParticipants_eq {db₁ : Db} {convMap : List (Int × Int)} {count : Nat}
    (h : promoteParticipants w s convMap db = (db₁, count)) :
    db₁ = db.setParticipants
        (db.participants.insertOrIgnoreAll (newParticipants w s convMap)) ∧
      count = db₁.participants.rows.length - db.participants.rows.length := by
  cases h
  exact ⟨rfl, rfl⟩

theorem promoteAttachments_eq {db₁ : Db} {msgMap : List (Int × Int)} {found count : Nat}
    (hpaused : db.triggers = false)
    (h : promoteAttachments w s msgMap db = (db₁, found, count)) :
    db₁ = db.setAttachments
        ((db.attachments.update (fillFile (stagedAttachments w s msgMap))).insertOrIgnoreAll
          (newAttachments (stagedAttachments w s msgMap)
            (db.attachments.update (fillFile (stagedAttachments w s msgMap))).rows)) ∧
      found = db.attachments.rows.countP
        (fun a => (fileFor (stagedAttachments w s msgMap) a).isSome) ∧
      count = (newAttachments (stagedAttachments w s msgMap)
        (db.attachments.update (fillFile (stagedAttachments w s msgMap))).rows).length := by
  unfold promoteAttachments at h
  simp only at h
  rw [Db.insertAttachments_paused (by exact hpaused)] at h
  cases h
  exact ⟨rfl, rfl, rfl⟩

theorem promoteTapbacks_eq {db₁ : Db} {msgMap : List (Int × Int)} {count : Nat}
    (h : promoteTapbacks w s msgMap db = (db₁, count)) :
    db₁ = db.setTapbacks (db.tapbacks.insertOrIgnoreAll
        (newTapbacks (stagedTapbacks w s msgMap) db.tapbacks.rows)) ∧
      count = (newTapbacks (stagedTapbacks w s msgMap) db.tapbacks.rows).length := by
  cases h
  exact ⟨rfl, rfl⟩

/-- What a promotion leaves in each table, and what it counts. `msgMap` is its message map. -/
structure Promotion (w : Walk) (s : Staging) (accountId : Int) (msgMap : List (Int × Int))
    (db db' : Db) (stats : PromoteStats) : Prop where
  conversations : db'.conversations =
    db.conversations.upsertAll ((w.order (s.conversationsOf accountId)).map ConversationRow.upsert)
  participants : db'.participants =
    db.participants.insertOrIgnoreAll (newParticipants w s (s.convMap accountId db'))
  messages : db'.messages = db.messages.insertOrIgnoreAll
    (chunkedMessages (stagedMessages s accountId (s.convMap accountId db')))
  attachments : db'.attachments =
    (db.attachments.update (fillFile (stagedAttachments w s msgMap))).insertOrIgnoreAll
      (newAttachments (stagedAttachments w s msgMap)
        (db.attachments.update (fillFile (stagedAttachments w s msgMap))).rows)
  tapbacks : db'.tapbacks = db.tapbacks.insertOrIgnoreAll
    (newTapbacks (stagedTapbacks w s msgMap) db.tapbacks.rows)
  messagesFts : ∃ paused : Db, paused.messages = db'.messages ∧
    paused.attachments = db'.attachments ∧ paused.messagesFts = db.messagesFts ∧
    db'.messagesFts =
      (indexFts w msgMap db.messages.maxId db.attachments.maxId paused).messagesFts
  triggers : db'.triggers = true
  lookup_msgMap : ∀ i, msgMap.lookup i = (s.msgMap accountId db').lookup i
  held : Held s accountId (s.convMap accountId db') db'
  countConversations : stats.conversations =
    (s.convMap accountId db').countP (fun p => db.conversations.maxId < p.2)
  countParticipants : stats.participants =
    db'.participants.rows.length - db.participants.rows.length
  countMessages : stats.messages = db'.messages.rows.length - db.messages.rows.length
  countAppended : stats.messagesAppended = stats.messages
  countFound : stats.found = db.attachments.rows.countP (fun a =>
    (fileFor (stagedAttachments w s msgMap) a).isSome)
  countAttachments : stats.attachments =
    (newAttachments (stagedAttachments w s msgMap)
      (db.attachments.update (fillFile (stagedAttachments w s msgMap))).rows).length
  countTapbacks : stats.tapbacks =
    (newTapbacks (stagedTapbacks w s msgMap) db.tapbacks.rows).length

/-- The messages a promotion inserts hold every staged message. -/
theorem held_of_inserted {convMap : List (Int × Int)}
    (h : db.messages = t.insertOrIgnoreAll (chunkedMessages (stagedMessages s accountId convMap))) :
    Held s accountId convMap db := by
  intro p hp
  rw [h]
  exact holds_insertOrIgnoreAll (n := p.1.promoted p.2) (mem_chunkedMessages.mpr ⟨p, hp, rfl⟩) rfl t

theorem promoteStaged_spec {mode : ImportMode} {db' : Db} {stats : PromoteStats}
    (h : promoteStaged w s accountId mode db = some (db', stats)) :
    ∃ msgMap, Promotion w s accountId msgMap db db' stats := by
  unfold promoteStaged at h
  generalize hconv : promoteConversations w s accountId db = r₁ at h
  obtain ⟨db₁, convMap, conversations⟩ := r₁
  obtain ⟨hdb₁, hmap₁, hcount₁⟩ := promoteConversations_eq hconv
  simp only at h
  generalize hpart : promoteParticipants w s convMap db₁ = r₂ at h
  obtain ⟨db₂, participants⟩ := r₂
  obtain ⟨hdb₂, hcount₂⟩ := promoteParticipants_eq hpart
  obtain ⟨⟨db₃, msgMap, before, messages⟩, hmsgs, hrest⟩ := Option.bind_eq_some_iff.mp h
  obtain ⟨hdb₃, hbefore, hcount₃, pairs, hmap₃, hpairs⟩ := promoteMessages_eq hmsgs
  simp only at hrest
  generalize hatt : promoteAttachments w s msgMap db₃ = r₄ at hrest
  obtain ⟨db₄, found, attachments⟩ := r₄
  obtain ⟨hdb₄, hfound, hcount₄⟩ := promoteAttachments_eq (by rw [hdb₃]; rfl) hatt
  simp only at hrest
  generalize htap : promoteTapbacks w s msgMap db₄ = r₅ at hrest
  obtain ⟨db₅, tapbacks⟩ := r₅
  obtain ⟨hdb₅, hcount₅⟩ := promoteTapbacks_eq htap
  cases hrest
  set out : Db := indexFts w msgMap before db₃.attachments.maxId db₅ with hout
  -- The map is read off the conversations, which the later phases leave alone.
  have hconvs : db₁.conversations = out.conversations := by
    rw [hout, hdb₅, hdb₄, hdb₃, hdb₂]
    rfl
  have hparts : db₂.participants = out.participants := by
    rw [hout, hdb₅, hdb₄, hdb₃]
    rfl
  have hmsgs₃ : db₃.messages = out.messages := by
    rw [hout, hdb₅, hdb₄]
    rfl
  rw [convMap_congr hconvs] at hmap₁
  subst hmap₁
  have hmessages : out.messages = db.messages.insertOrIgnoreAll
      (chunkedMessages (stagedMessages s accountId (s.convMap accountId out))) := by
    rw [← hmsgs₃, hdb₃, hdb₂, hdb₁]
    rfl
  have hheld : Held s accountId (s.convMap accountId out) out := held_of_inserted hmessages
  have hbefore' : before = db.messages.maxId := by
    rw [hbefore, hdb₂, hdb₁]
    rfl
  have hatts : db₃.attachments = db.attachments := by
    rw [hdb₃, hdb₂, hdb₁]
    rfl
  have htaps : db₄.tapbacks = db.tapbacks := by
    rw [hdb₄, hdb₃, hdb₂, hdb₁]
    rfl
  refine ⟨msgMap, {
    conversations := by rw [← hconvs, hdb₁]; rfl
    participants := by rw [← hparts, hdb₂, hdb₁]; rfl
    messages := hmessages
    attachments := by rw [← hatts, hout, hdb₅, hdb₄]; rfl
    tapbacks := by rw [← htaps, hout, hdb₅]; rfl
    messagesFts := ⟨db₅, rfl, rfl, by rw [hdb₅, hdb₄, hdb₃, hdb₂, hdb₁]; rfl, by
      rw [← hbefore', ← hatts]⟩
    triggers := rfl
    lookup_msgMap := fun i => ?_
    held := hheld
    countConversations := hcount₁
    countParticipants := by rw [hcount₂, hparts, hdb₁]; rfl
    countMessages := by rw [hcount₃, hmsgs₃, hdb₂, hdb₁]; rfl
    countAppended := rfl
    countFound := by rw [← hatts]; exact hfound
    countAttachments := by rw [← hatts]; exact hcount₄
    countTapbacks := by rw [← htaps]; exact hcount₅ }⟩
  have hheld₃ : Held s accountId (s.convMap accountId out) db₃ := by
    intro p hp
    rw [hmsgs₃]
    exact hheld p hp
  apply Option.ext
  intro m
  unfold Staging.msgMap
  rw [hmap₃, lookup_writeMessageMap hheld₃ hpairs, lookup_writeMessageMap hheld (by simp), hmsgs₃]

/-- Append mode refuses nothing. -/
theorem promoteStaged_append (w : Walk) (s : Staging) (accountId : Int) (db : Db) :
    ∃ r, promoteStaged w s accountId .append db = some r := by
  unfold promoteStaged
  generalize promoteConversations w s accountId db = r₁
  obtain ⟨db₁, convMap, conversations⟩ := r₁
  simp only
  generalize promoteParticipants w s convMap db₁ = r₂
  obtain ⟨db₂, participants⟩ := r₂
  obtain ⟨⟨db₃, msgMap, before, messages⟩, hmsgs⟩ :=
    promoteMessages_append s accountId convMap db₂
  simp only [hmsgs, Option.bind_eq_bind, Option.bind_some]
  exact ⟨_, rfl⟩

end MessageCrate

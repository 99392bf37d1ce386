import MessageCrate.Import.Messages

/- Where the children of a staged message go.

   Attachments and tapbacks are staged under the id of a staged message and promoted under the id
   of a production one. Which that is, the message map says: in append mode by a join on the
   account, the source and the guid, in replace mode first by the order the rows went in.

   What is proved:
     1. `messageChunks_spec`: the ranges the messages go in by are in order, apart, and of the
        width of a batch at most, and cover the ids from the first to the last.
     2. `zip_agrees`: in replace mode the pairs by order are those of the join.
     3. `landed`: every staged child is under the production message of its own message's
        account, source and guid, and no row that a promotion adds or fills is under another. -/
namespace MessageCrate
open Grouping SqlTable Table

/-! The ranges. -/

/-- The ranges `(lo, hi]` cut the ids from `minId` to `maxId`. -/
structure CutsInto (minId maxId : Int) (ranges : List (Int × Int)) : Prop where
  width : ∀ range ∈ ranges, range.1 < range.2 ∧ range.2 ≤ range.1 + promoteMessageBatch
  ordered : ranges.Pairwise (fun range later => range.2 ≤ later.1)
  covers : ∀ x, minId ≤ x ∧ x ≤ maxId ↔ ∃ range ∈ ranges, range.1 < x ∧ x ≤ range.2

/-- The ranges above `lo` stay above it and below the last id. -/
theorem messageChunks_within (lo maxId : Int) :
    ∀ range ∈ messageChunks lo maxId, lo ≤ range.1 ∧ range.1 < range.2 ∧ range.2 ≤ maxId ∧
      range.2 ≤ range.1 + promoteMessageBatch := by
  induction lo using messageChunks.induct maxId with
  | case1 lo h hi ih =>
    intro range hrange
    rw [messageChunks, if_pos h] at hrange
    have hbatch : promoteMessageBatch = 50000 := rfl
    have hhi : hi = min (lo + promoteMessageBatch) maxId := rfl
    obtain rfl | hrange := List.mem_cons.mp hrange
    · show lo ≤ lo ∧ lo < hi ∧ hi ≤ maxId ∧ hi ≤ lo + promoteMessageBatch
      omega
    · have := ih range hrange
      omega
  | case2 lo h =>
    intro range hrange
    rw [messageChunks, if_neg h] at hrange
    cases hrange

theorem messageChunks_spec (minId maxId : Int) :
    CutsInto minId maxId (messageChunks (minId - 1) maxId) where
  width range hrange := by
    have := messageChunks_within (minId - 1) maxId range hrange
    omega
  ordered := by
    generalize minId - 1 = lo
    induction lo using messageChunks.induct maxId with
    | case1 lo h hi ih =>
      rw [messageChunks, if_pos h]
      exact List.pairwise_cons.mpr ⟨fun later hlater =>
        (messageChunks_within hi maxId later hlater).1, ih⟩
    | case2 lo h =>
      rw [messageChunks, if_neg h]
      exact List.Pairwise.nil
  covers x := by
    constructor
    · rintro ⟨hmin, hmax⟩
      exact messageChunks_cover (minId - 1) maxId (by omega) hmax
    · rintro ⟨range, hrange, hlo, hhi⟩
      have := messageChunks_within (minId - 1) maxId range hrange
      omega

/-! Rows in the order they go in. -/

section
variable {ρ κ : Type} [Row ρ κ]

/-- The rows of inserts, from a first rowid on. -/
def numbered (i : Int) : List (New ρ) → List ρ
  | [] => []
  | n :: ns => n.row i :: numbered (i + 1) ns

theorem le_of_mem_numbered {i : Int} {ns : List (New ρ)} : ∀ r ∈ numbered i ns, i ≤ Row.id r := by
  induction ns generalizing i with
  | nil =>
    intro r hr
    cases hr
  | cons n ns ih =>
    intro r hr
    obtain rfl | hr := List.mem_cons.mp hr
    · rw [n.id_row]
    · have := ih r hr
      omega

theorem numbered_ascending (i : Int) (ns : List (New ρ)) :
    (numbered i ns).Pairwise (fun r r' => Row.id r ≤ Row.id r') := by
  induction ns generalizing i with
  | nil => exact List.Pairwise.nil
  | cons n ns ih =>
    refine List.pairwise_cons.mpr ⟨fun r hr => ?_, ih (i + 1)⟩
    have := le_of_mem_numbered r hr
    rw [n.id_row]
    omega

variable [DecidableEq κ]

theorem maxId_insertOrIgnore {n : New ρ} {t : Table ρ} (h : t.holds n.key = false) :
    (t.insertOrIgnore n).maxId = t.maxId + 1 := by
  have hrows : (t.insertOrIgnore n).rows = t.rows ++ [n.row t.nextId] := by
    rw [rows_insertOrIgnore, if_neg (by rw [h]; decide)]
  have hnew : Row.id (n.row t.nextId) = t.maxId + 1 := n.id_row _
  have hmem : n.row t.nextId ∈ (t.insertOrIgnore n).rows := by
    rw [hrows]
    exact List.mem_append_right _ List.mem_cons_self
  have hle := id_le_maxId hmem
  have hge : (t.insertOrIgnore n).maxId ≤ t.maxId + 1 := by
    cases hmax : ((t.insertOrIgnore n).rows.map Row.id).max? with
    | none => exact absurd (List.max?_eq_none_iff.mp hmax) (List.ne_nil_of_mem (List.mem_map_of_mem hmem))
    | some m =>
      have hm := (List.max?_eq_some_iff.mp hmax).1
      rw [maxId, hmax, Option.getD_some]
      obtain ⟨r, hr, rfl⟩ := List.mem_map.mp hm
      rw [hrows] at hr
      obtain hr | hr := List.mem_append.mp hr
      · have := id_le_maxId hr
        omega
      · obtain rfl := List.mem_singleton.mp hr
        omega
  omega

end

/-- In replace mode every row goes in, one id after another. -/
theorem rows_insertRowsReplace {db db' : Db} (h : db.triggers = false) {ns : List (New MessageRow)}
    (hins : ns.foldlM (fun (db : Db) n =>
      if db.messages.holds n.key then none else some (db.insertMessage n)) db = some db') :
    db'.messages.rows = db.messages.rows ++ numbered db.messages.nextId ns := by
  induction ns generalizing db with
  | nil =>
    obtain rfl := Option.some.inj hins
    exact (List.append_nil _).symm
  | cons n ns ih =>
    rw [List.foldlM_cons] at hins
    obtain ⟨db₁, hone, hrest⟩ := Option.bind_eq_some_iff.mp hins
    split at hone
    · cases hone
    · next hfree =>
      obtain rfl := Option.some.inj hone
      rw [Db.insertMessage_paused h] at hrest
      have hpaused : (db.setMessages (db.messages.insertOrIgnore n)).triggers = false := h
      have hrows := ih hpaused hrest
      rw [Db.setMessages_messages, rows_insertOrIgnore, if_neg hfree, List.append_assoc] at hrows
      have hnext : (db.messages.insertOrIgnore n).nextId = db.messages.nextId + 1 := by
        rw [nextId, maxId_insertOrIgnore (Bool.not_eq_true _ ▸ hfree), nextId]
      rw [hnext] at hrows
      exact hrows

/-- Each staged message beside the id of its row. -/
def pairsFrom (i : Int) : List (StagingMessageRow × Int) → List (Int × Int)
  | [] => []
  | p :: chunk => (p.1.id, i) :: pairsFrom (i + 1) chunk

theorem zip_numbered (i : Int) (chunk : List (StagingMessageRow × Int)) :
    (chunk.map (fun p => p.1.id)).zip ((numbered i (newMessages chunk)).map MessageRow.id) =
      pairsFrom i chunk := by
  induction chunk generalizing i with
  | nil => rfl
  | cons p chunk ih =>
    rw [pairsFrom, ← ih (i + 1)]
    rfl

/-- A pair is a staged message and the id of its row. -/
theorem mem_pairsFrom {i : Int} {chunk : List (StagingMessageRow × Int)} {q : Int × Int}
    (hq : q ∈ pairsFrom i chunk) : ∃ p ∈ chunk, q.1 = p.1.id ∧
      (p.1.promoted p.2).row q.2 ∈ numbered i (newMessages chunk) := by
  induction chunk generalizing i with
  | nil => cases hq
  | cons p chunk ih =>
    obtain rfl | hq := List.mem_cons.mp hq
    · exact ⟨p, List.mem_cons_self, rfl, List.mem_cons_self⟩
    · obtain ⟨p', hp', hid, hrow⟩ := ih hq
      exact ⟨p', List.mem_cons_of_mem _ hp', hid, List.mem_cons_of_mem _ hrow⟩

theorem exists_pairsFrom {i : Int} {chunk : List (StagingMessageRow × Int)}
    {p : StagingMessageRow × Int} (hp : p ∈ chunk) : ∃ q ∈ pairsFrom i chunk, q.1 = p.1.id := by
  induction chunk generalizing i with
  | nil => cases hp
  | cons p' chunk ih =>
    obtain rfl | hp := List.mem_cons.mp hp
    · exact ⟨(p.1.id, i), List.mem_cons_self, rfl⟩
    · obtain ⟨q, hq, hid⟩ := ih hp
      exact ⟨q, List.mem_cons_of_mem _ hq, hid⟩

theorem mem_numbered {i : Int} {chunk : List (StagingMessageRow × Int)} {m : MessageRow}
    (hm : m ∈ numbered i (newMessages chunk)) : ∃ p ∈ chunk, m.accountId = p.1.accountId := by
  induction chunk generalizing i with
  | nil => cases hm
  | cons p chunk ih =>
    obtain rfl | hm := List.mem_cons.mp hm
    · exact ⟨p, List.mem_cons_self, rfl⟩
    · obtain ⟨p', hp', hacc⟩ := ih hm
      exact ⟨p', List.mem_cons_of_mem _ hp', hacc⟩

/-- The production ids of one range are those of its rows, in order. -/
theorem zipNewMessageIds_numbered {accountId : Int} {db db' : Db}
    {chunk : List (StagingMessageRow × Int)} (hacc : ∀ p ∈ chunk, p.1.accountId = accountId)
    (hrows : db'.messages.rows =
      db.messages.rows ++ numbered db.messages.nextId (newMessages chunk)) :
    zipNewMessageIds accountId (chunk.map (fun p => p.1.id)) db.messages.maxId db' =
      some (pairsFrom db.messages.nextId chunk) := by
  have hold : db.messages.rows.filter
      (fun m => db.messages.maxId < m.id ∧ m.accountId = accountId) = [] := by
    rw [List.filter_eq_nil_iff]
    intro m hm
    have hle : m.id ≤ db.messages.maxId := id_le_maxId hm
    rw [decide_eq_true_eq]
    omega
  have hnew : (numbered db.messages.nextId (newMessages chunk)).filter
      (fun m => db.messages.maxId < m.id ∧ m.accountId = accountId) =
        numbered db.messages.nextId (newMessages chunk) := by
    rw [List.filter_eq_self]
    intro m hm
    have hle : db.messages.nextId ≤ m.id := le_of_mem_numbered m hm
    obtain ⟨p, hp, hmacc⟩ := mem_numbered hm
    rw [decide_eq_true_eq, hmacc, hacc p hp]
    rw [nextId] at hle
    omega
  have hsorted : ((numbered db.messages.nextId (newMessages chunk)).map MessageRow.id).insertionSort
      (· ≤ ·) = (numbered db.messages.nextId (newMessages chunk)).map MessageRow.id :=
    (List.pairwise_map.mpr (numbered_ascending _ _)).insertionSort_eq
  unfold zipNewMessageIds
  simp only [hrows, List.filter_append, hold, hnew, List.nil_append, hsorted]
  have hlength : ∀ i (chunk : List (StagingMessageRow × Int)),
      chunk.length = (numbered i (newMessages chunk)).length := by
    intro i chunk
    induction chunk generalizing i with
    | nil => rfl
    | cons p chunk ih => exact congrArg Nat.succ (ih (i + 1))
  rw [if_pos, zip_numbered]
  rw [List.length_map, List.length_map]
  exact hlength _ chunk

/-! The pairs of replace mode. -/

/-- Each of `seen` has a pair, and a pair names the row of one of them. -/
structure Paired (seen : List (StagingMessageRow × Int)) (db : Db) (pairs : List (Int × Int)) :
    Prop where
  row : ∀ q ∈ pairs, ∃ p ∈ seen, q.1 = p.1.id ∧ (p.1.promoted p.2).row q.2 ∈ db.messages.rows
  pair : ∀ p ∈ seen, ∃ q ∈ pairs, q.1 = p.1.id

theorem Paired.step {accountId : Int} {db db' : Db} {seen chunk : List (StagingMessageRow × Int)}
    {pairs pairs' : List (Int × Int)} (h : Paired seen db pairs) (hpaused : db.triggers = false)
    (hacc : ∀ p ∈ chunk, p.1.accountId = accountId)
    (hins : insertRangeReplace accountId (db, pairs) chunk = some (db', pairs')) :
    Paired (seen ++ chunk) db' pairs' := by
  obtain ⟨db₁, hrows, hzip⟩ := Option.bind_eq_some_iff.mp hins
  obtain ⟨zipped, hz, hpure⟩ := Option.bind_eq_some_iff.mp hzip
  cases hpure
  have hrows' := rows_insertRowsReplace hpaused hrows
  have hzipped : zipped = pairsFrom db.messages.nextId chunk :=
    Option.some.inj (hz.symm.trans (zipNewMessageIds_numbered hacc hrows'))
  refine ⟨fun q hq => ?_, fun p hp => ?_⟩
  · obtain hq | hq := List.mem_append.mp hq
    · obtain ⟨p, hp, hid, hrow⟩ := h.row q hq
      exact ⟨p, List.mem_append_left _ hp, hid, hrows' ▸ List.mem_append_left _ hrow⟩
    · rw [hzipped] at hq
      obtain ⟨p, hp, hid, hrow⟩ := mem_pairsFrom hq
      exact ⟨p, List.mem_append_right _ hp, hid, hrows' ▸ List.mem_append_right _ hrow⟩
  · obtain hp | hp := List.mem_append.mp hp
    · obtain ⟨q, hq, hid⟩ := h.pair p hp
      exact ⟨q, List.mem_append_left _ hq, hid⟩
    · obtain ⟨q, hq, hid⟩ := exists_pairsFrom (i := db.messages.nextId) hp
      exact ⟨q, List.mem_append_right _ (hzipped ▸ hq), hid⟩

theorem Paired.run {accountId : Int} {db db' : Db} {seen : List (StagingMessageRow × Int)}
    {chunks : List (List (StagingMessageRow × Int))} {pairs pairs' : List (Int × Int)}
    (h : Paired seen db pairs) (hpaused : db.triggers = false)
    (hacc : ∀ chunk ∈ chunks, ∀ p ∈ chunk, p.1.accountId = accountId)
    (hins : chunks.foldlM (insertRangeReplace accountId) (db, pairs) = some (db', pairs')) :
    Paired (seen ++ chunks.flatten) db' pairs' := by
  induction chunks generalizing db seen pairs with
  | nil =>
    cases hins
    rw [List.flatten_nil, List.append_nil]
    exact h
  | cons chunk chunks ih =>
    rw [List.foldlM_cons] at hins
    obtain ⟨⟨db₁, pairs₁⟩, hone, hrest⟩ := Option.bind_eq_some_iff.mp hins
    have hstep := h.step hpaused (hacc chunk List.mem_cons_self) hone
    have hpaused₁ : db₁.triggers = false := by
      rw [(insertRangeReplace_eq hpaused hone).1]
      exact hpaused
    have hrun := ih hstep hpaused₁ (fun c hc => hacc c (List.mem_cons_of_mem _ hc)) hrest
    rw [List.flatten_cons, ← List.append_assoc]
    exact hrun

/-- The pairs of the map agree with the join on the guid, staged row by staged row. -/
def PairsAgree (staged : List (StagingMessageRow × Int)) (db : Db) (pairs : List (Int × Int)) :
    Prop :=
  ∀ p ∈ staged, ∀ m, (p.1.id, m) ∈ pairs ↔
    ∃ row ∈ db.messages.rows, row.guidKey = some (p.1.accountId, p.1.source, p.1.guid) ∧ row.id = m

/-- **The map by order is the map by guid.** -/
theorem zip_agrees {s : Staging} {accountId : Int} {convMap : List (Int × Int)} {db db' : Db}
    {pairs : List (Int × Int)} (hpaused : db.triggers = false)
    (hins : insertMessagesReplace accountId (stagedMessages s accountId convMap) db =
      some (db', pairs)) :
    PairsAgree (stagedMessages s accountId convMap) db' pairs := by
  have hpaired : Paired ([] ++ (stagedChunks (stagedMessages s accountId convMap)).flatten) db' pairs := by
    refine Paired.run ⟨(fun q hq => by cases hq), (fun p hp => by cases hp)⟩ hpaused ?_ hins
    intro chunk hchunk p hp
    have hstaged := mem_stagedChunks.mp (List.mem_flatten.mpr ⟨chunk, hchunk, hp⟩)
    exact (mem_stagedMessages.mp hstaged).2.1
  have hkey : ∀ {p : StagingMessageRow × Int} {m : Int}, ((p.1.promoted p.2).row m).guidKey =
      some (p.1.accountId, p.1.source, p.1.guid) := fun {p m} => (p.1.promoted p.2).key_row m
  intro p hp m
  constructor
  · intro hpair
    obtain ⟨p', hp', hid, hrow⟩ := hpaired.row _ hpair
    have hsame : p = p' :=
      List.inj_on_of_nodup_map (stagedMessages_ids_nodup convMap) hp (mem_stagedChunks.mp hp') hid
    exact ⟨_, hrow, hsame ▸ hkey, (p'.1.promoted p'.2).id_row m⟩
  · rintro ⟨row, hrow, hrowkey, rfl⟩
    obtain ⟨q, hq, hid⟩ := hpaired.pair p (mem_stagedChunks.mpr hp)
    obtain ⟨p', hp', hid', hrow'⟩ := hpaired.row q hq
    have hsame : p = p' := List.inj_on_of_nodup_map (stagedMessages_ids_nodup convMap) hp
      (mem_stagedChunks.mp hp') (hid.symm.trans hid')
    have hone := eq_of_key_eq hrow hrow' hrowkey (hsame ▸ hkey)
    have hmid : row.id = q.2 := by
      rw [hone]
      exact (p'.1.promoted p'.2).id_row q.2
    rw [hmid, ← hid]
    exact hq

/-! Where children land. -/

/-- The rows that the foreign keys of the staging tables point at are there, and a message is
staged for the account of its conversation. -/
structure Staging.ForeignKeys (s : Staging) : Prop where
  messages : ∀ sm ∈ s.messages.rows, ∃ sc ∈ s.conversations.rows,
    sc.id = sm.conversationId ∧ sc.accountId = sm.accountId
  attachments : ∀ sa ∈ s.attachments.rows, ∃ sm ∈ s.messages.rows, sm.id = sa.messageId
  tapbacks : ∀ st ∈ s.tapbacks.rows, ∃ sm ∈ s.messages.rows, sm.id = st.messageId

/-- `id` is the production message of a staged message's account, source and guid. -/
def Db.Names (db : Db) (sm : StagingMessageRow) (id : Int) : Prop :=
  ∃ m ∈ db.messages.rows, m.accountId = sm.accountId ∧ m.source = sm.source ∧
    m.guid = some sm.guid ∧ m.id = id

/-- `id` is the production message of a staged child's own message. -/
def Db.Holds (db : Db) (s : Staging) (messageId id : Int) : Prop :=
  ∃ sm ∈ s.messages.rows, sm.id = messageId ∧ db.Names sm id

/-- Every staged child of the account is in production, and every row that is new or filled is
a staged child's, each under the production message of its own message. -/
structure Landed (s : Staging) (accountId : Int) (db db' : Db) : Prop where
  message : ∀ sm ∈ s.messages.rows, sm.accountId = accountId →
    ∃ id, db'.Names sm id ∧ ∀ id', db'.Names sm id' → id' = id
  attachment : ∀ sa ∈ s.attachments.rows, ∀ sm ∈ s.messages.rows, sm.id = sa.messageId →
    sm.accountId = accountId → ∃ a ∈ db'.attachments.rows, a.Same sa ∧ db'.Names sm a.messageId
  tapback : ∀ st ∈ s.tapbacks.rows, ∀ sm ∈ s.messages.rows, sm.id = st.messageId →
    sm.accountId = accountId → ∃ t ∈ db'.tapbacks.rows, t.Same st ∧ db'.Names sm t.messageId
  attachmentOf : ∀ a ∈ db'.attachments.rows,
    (∃ a₀ ∈ db.attachments.rows, a₀.id = a.id ∧ a₀.messageId = a.messageId ∧ (a = a₀ ∨
      ∃ f ∈ s.attachments.rows, a.sha256 = f.sha256 ∧ a.assetsPath = f.assetsPath ∧
        a.SamePath f ∧ db'.Holds s f.messageId a.messageId)) ∨
    ∃ sa ∈ s.attachments.rows, a = { sa with id := a.id, messageId := a.messageId } ∧
      db'.Holds s sa.messageId a.messageId
  tapbackOf : ∀ t ∈ db'.tapbacks.rows, t ∈ db.tapbacks.rows ∨
    ∃ st ∈ s.tapbacks.rows, t = { st with id := t.id, messageId := t.messageId } ∧
      db'.Holds s st.messageId t.messageId

section
variable {w : Walk} {s : Staging} {accountId : Int} {msgMap : List (Int × Int)} {db db' : Db}
  {stats : PromoteStats}

theorem names_iff {sm : StagingMessageRow} {id : Int} : db.Names sm id ↔
    ∃ m ∈ db.messages.rows, m.guidKey = some (sm.accountId, sm.source, sm.guid) ∧ m.id = id := by
  apply exists_congr
  intro m
  refine and_congr_right fun _ => ?_
  constructor
  · rintro ⟨hacc, hsrc, hguid, hid⟩
    refine ⟨?_, hid⟩
    rw [MessageRow.guidKey, hguid]
    simp only [if_pos sm.guid_ne, hacc, hsrc]
  · rintro ⟨hkey, hid⟩
    rw [MessageRow.guidKey] at hkey
    split at hkey
    · next guid hguid =>
      split at hkey
      · have hkey := Option.some.inj hkey
        simp only [Prod.mk.injEq] at hkey
        exact ⟨hkey.1, hkey.2.1, hguid.trans (congrArg some hkey.2.2), hid⟩
      · cases hkey
    · cases hkey

theorem Db.Names.unique {sm : StagingMessageRow} {id id' : Int} (h : db.Names sm id)
    (h' : db.Names sm id') : id' = id := by
  obtain ⟨m, hm, hkey, rfl⟩ := names_iff.mp h
  obtain ⟨m', hm', hkey', rfl⟩ := names_iff.mp h'
  exact congrArg MessageRow.id (eq_of_key_eq hm' hm hkey' hkey)

/-- The map names the message of every promoted message. -/
theorem Promotion.lookup_iff (h : Promotion w s accountId msgMap db db' stats) (hfk : s.ForeignKeys)
    {sm : StagingMessageRow} (hsm : sm ∈ s.messages.rows) (hacc : sm.accountId = accountId) {id : Int} :
    msgMap.lookup sm.id = some id ↔ db'.Names sm id := by
  rw [h.lookup_msgMap, lookup_msgMap_iff h.held, names_iff]
  constructor
  · rintro ⟨⟨sm', c⟩, hp, hid, hrow⟩
    have hsame : sm' = sm := Table.eq_of_id_eq (mem_stagedMessages.mp hp).1 hsm hid
    exact hsame ▸ hrow
  · intro hrow
    obtain ⟨sc, hsc, hscid, hscacc⟩ := hfk.messages sm hsm
    have hmine : sc ∈ s.conversationsOf accountId :=
      List.mem_filter.mpr ⟨hsc, by simpa using hscacc.trans hacc⟩
    obtain ⟨c, hc⟩ := exists_lookup_convMap hmine ((stored_of_promotion h).conversations sc hmine)
    exact ⟨(sm, c), mem_stagedMessages.mpr ⟨hsm, hacc, hscid ▸ hc⟩, rfl, hrow⟩

/-- A place in the map is the message of a staged one. -/
theorem Promotion.holds_of_lookup (h : Promotion w s accountId msgMap db db' stats) {i m : Int}
    (hm : msgMap.lookup i = some m) : db'.Holds s i m := by
  obtain ⟨sm, hsm, hid, -, -, row, hrow, hkey, hrowid⟩ := h.message_of_lookup hm
  exact ⟨sm, hsm, hid, names_iff.mpr ⟨row, hrow, hkey, hrowid⟩⟩

theorem mem_of_fileFor {staged : List (AttachmentRow × Int)} {a f : AttachmentRow}
    (h : fileFor staged a = some f) : (f, a.messageId) ∈ staged ∧ a.SamePath f := by
  unfold fileFor at h
  split at h
  · obtain ⟨p, hp, rfl⟩ := Option.map_eq_some_iff.mp h
    have hfits := List.find?_some hp
    simp only [ne_eq, decide_eq_true_eq] at hfits
    refine ⟨?_, hfits.2.2.2⟩
    rw [hfits.2.2.1]
    exact List.mem_of_find?_eq_some hp
  · cases h

/-- Every staged message of the account is in production. -/
theorem Promotion.exists_names (h : Promotion w s accountId msgMap db db' stats) (hfk : s.ForeignKeys)
    {sm : StagingMessageRow} (hsm : sm ∈ s.messages.rows) (hacc : sm.accountId = accountId) :
    ∃ id, db'.Names sm id := by
  obtain ⟨sc, hsc, hscid, hscacc⟩ := hfk.messages sm hsm
  have hmine : sc ∈ s.conversationsOf accountId :=
    List.mem_filter.mpr ⟨hsc, by simpa using hscacc.trans hacc⟩
  obtain ⟨c, hc⟩ := exists_lookup_convMap hmine ((stored_of_promotion h).conversations sc hmine)
  have hheld := h.held (sm, c) (mem_stagedMessages.mpr ⟨hsm, hacc, hscid ▸ hc⟩)
  obtain ⟨row, hrow, v, hv, hkey⟩ := holds_iff.mp hheld
  cases hv
  exact ⟨row.id, names_iff.mpr ⟨row, hrow, hkey, rfl⟩⟩

theorem Promotion.landed (h : Promotion w s accountId msgMap db db' stats) (hfk : s.ForeignKeys) :
    Landed s accountId db db' where
  message sm hsm hacc := by
    obtain ⟨id, hid⟩ := h.exists_names hfk hsm hacc
    exact ⟨id, hid, fun id' hid' => hid.unique hid'⟩
  attachment sa hsa sm hsm hid hacc := by
    obtain ⟨m, hm⟩ := h.exists_names hfk hsm hacc
    have hlookup := (h.lookup_iff hfk hsm hacc).mpr hm
    rw [h.lookup_msgMap, hid] at hlookup
    obtain ⟨a, ha, rfl, hsame⟩ := (stored_of_promotion h).attachments sa hsa m hlookup
    exact ⟨a, ha, hsame, hm⟩
  tapback st hst sm hsm hid hacc := by
    obtain ⟨m, hm⟩ := h.exists_names hfk hsm hacc
    have hlookup := (h.lookup_iff hfk hsm hacc).mpr hm
    rw [h.lookup_msgMap, hid] at hlookup
    obtain ⟨t, ht, rfl, hsame⟩ := (stored_of_promotion h).tapbacks st hst m hlookup
    exact ⟨t, ht, hsame, hm⟩
  attachmentOf a ha := by
    rw [h.attachments] at ha
    obtain ⟨added, hrows, hadded⟩ := insertOrIgnoreAll_spec
      (newAttachments (stagedAttachments w s msgMap)
        (db.attachments.update (fillFile (stagedAttachments w s msgMap))).rows)
      (db.attachments.update (fillFile (stagedAttachments w s msgMap)))
    rw [hrows] at ha
    obtain ha | ha := List.mem_append.mp ha
    · left
      obtain ⟨a₀, ha₀, rfl⟩ := List.mem_map.mp ha
      obtain ⟨hmsg, hpath⟩ := fillFile_same (stagedAttachments w s msgMap) a₀
      refine ⟨a₀, ha₀, ((fillFile (stagedAttachments w s msgMap)).id_apply a₀).symm, hmsg.symm, ?_⟩
      cases hfile : fileFor (stagedAttachments w s msgMap) a₀ with
      | none => exact .inl (fillFile_of_none hfile)
      | some f =>
        right
        obtain ⟨hstaged, hsame⟩ := mem_of_fileFor hfile
        obtain ⟨hf, hlookup⟩ := mem_stagedAttachments.mp hstaged
        have hfilled : ((fillFile (stagedAttachments w s msgMap)).apply a₀).sha256 = f.sha256 ∧
            ((fillFile (stagedAttachments w s msgMap)).apply a₀).assetsPath = f.assetsPath := by
          simp only [fillFile, hfile, and_self]
        refine ⟨f, hf, hfilled.1, hfilled.2, (hpath f).mpr hsame, ?_⟩
        rw [hmsg]
        exact h.holds_of_lookup hlookup
    · right
      obtain ⟨-, n, hn, hrow⟩ := hadded a ha
      obtain ⟨⟨sa, m⟩, hp, rfl⟩ := List.mem_map.mp hn
      obtain ⟨hsa, hlookup⟩ := mem_stagedAttachments.mp (List.mem_filter.mp hp).1
      have hmsg : a.messageId = m := by rw [hrow]; rfl
      refine ⟨sa, hsa, ?_, hmsg ▸ h.holds_of_lookup hlookup⟩
      rw [hmsg]
      exact hrow
  tapbackOf t ht := by
    rw [h.tapbacks] at ht
    obtain ⟨added, hrows, hadded⟩ := insertOrIgnoreAll_spec
      (newTapbacks (stagedTapbacks w s msgMap) db.tapbacks.rows) db.tapbacks
    rw [hrows] at ht
    obtain ht | ht := List.mem_append.mp ht
    · exact .inl ht
    · right
      obtain ⟨-, n, hn, hrow⟩ := hadded t ht
      obtain ⟨⟨st, m⟩, hp, rfl⟩ := List.mem_map.mp hn
      obtain ⟨hst, hlookup⟩ := mem_stagedTapbacks.mp (List.mem_filter.mp hp).1
      have hmsg : t.messageId = m := by rw [hrow]; rfl
      refine ⟨st, hst, ?_, hmsg ▸ h.holds_of_lookup hlookup⟩
      rw [hmsg]
      exact hrow

variable {sha256Hex : ByteArray → String} {rfc3339Secs : String → Option Int} {handles : Handles}
  {mode : ImportMode} {fillContentKeys : Bool} {wipeSources : List String}

theorem names_update {keys : List (Int × String)} {t : Table MessageRow}
    (ht : db'.messages = t.update (rekey keys)) (ht' : db.messages = t)
    {sm : StagingMessageRow} {id : Int} : db'.Names sm id ↔ db.Names sm id := by
  unfold Db.Names
  rw [ht, ht', rows_update]
  constructor
  · rintro ⟨m, hm, hacc, hsrc, hguid, hid⟩
    obtain ⟨m₀, hm₀, rfl⟩ := List.mem_map.mp hm
    have hsame := sameBut_rekey keys m₀
    exact ⟨m₀, hm₀, hsame.accountId_eq ▸ hacc, hsame.source_eq ▸ hsrc, hsame.guid_eq ▸ hguid,
      hsame.id_eq ▸ hid⟩
  · rintro ⟨m₀, hm₀, hacc, hsrc, hguid, hid⟩
    have hsame := sameBut_rekey keys m₀
    exact ⟨_, List.mem_map_of_mem hm₀, hsame.accountId_eq.trans hacc, hsame.source_eq.trans hsrc,
      hsame.guid_eq.trans hguid, hsame.id_eq.trans hid⟩

/-- Content keys move no child. -/
theorem Landed.congr {db₁ : Db} (h : Landed s accountId db db₁)
    (hnames : ∀ sm id, db'.Names sm id ↔ db₁.Names sm id)
    (hatt : db'.attachments = db₁.attachments) (htap : db'.tapbacks = db₁.tapbacks) :
    Landed s accountId db db' := by
  have hholds : ∀ i id, db'.Holds s i id ↔ db₁.Holds s i id := fun i id =>
    exists_congr fun sm => and_congr_right fun _ => and_congr_right fun _ => hnames sm id
  constructor
  · simpa only [hnames] using h.message
  · simpa only [hnames, hatt] using h.attachment
  · simpa only [hnames, htap] using h.tapback
  · simpa only [hholds, hatt] using h.attachmentOf
  · simpa only [hholds, htap] using h.tapbackOf

/-- **A promotion leaves every staged child with its own message.** -/
theorem landed (hfk : s.ForeignKeys)
    (h : promoteAppend sha256Hex rfc3339Secs handles w mode accountId fillContentKeys wipeSources s
      db = some (db', stats)) :
    Landed s accountId (if mode = .replace then db.wipeSources accountId wipeSources else db) db' := by
  unfold promoteAppend at h
  obtain ⟨⟨db₂, stats₂⟩, hstaged, hdone⟩ := Option.bind_eq_some_iff.mp h
  obtain ⟨msgMap, hp⟩ := promoteStaged_spec hstaged
  have hlanded := hp.landed hfk
  cases hdone
  cases fillContentKeys with
  | false => exact hlanded
  | true => exact hlanded.congr (fun sm id => names_update rfl rfl) rfl rfl

/-- **Staged children land on their own messages**, in either mode; the ranges that their messages
go in by cut the staged ids; and what replace mode pairs by order is what the guids say. -/
theorem staged_children_land (hfk : s.ForeignKeys)
    (h : promoteAppend sha256Hex rfc3339Secs handles w mode accountId fillContentKeys wipeSources s
      db = some (db', stats)) :
    Landed s accountId (if mode = .replace then db.wipeSources accountId wipeSources else db) db' ∧
      (∀ minId maxId, CutsInto minId maxId (messageChunks (minId - 1) maxId)) ∧
      ∀ convMap db₁ db₂ pairs, db₁.triggers = false →
        insertMessagesReplace accountId (stagedMessages s accountId convMap) db₁ = some (db₂, pairs) →
          PairsAgree (stagedMessages s accountId convMap) db₂ pairs :=
  ⟨landed hfk h, messageChunks_spec, fun _ _ _ _ hpaused hins => zip_agrees hpaused hins⟩

end

theorem dividedBatch_foreignKeys : dividedBatch.ForeignKeys where
  messages := by decide
  attachments := by decide
  tapbacks st hst := by cases hst

theorem staged_children_land_dividedBatch :
    ∃ db' stats, promoteAppend (fun _ => "key") (fun _ => some 0)
        ⟨fun _ => "+15550001", fun _ _ => false⟩ Walk.inserted .append 1 true [] dividedBatch
        Db.empty = some (db', stats) ∧
      Landed dividedBatch 1 Db.empty db' ∧
      (∀ minId maxId, CutsInto minId maxId (messageChunks (minId - 1) maxId)) ∧
      ∀ convMap db₁ db₂ pairs, db₁.triggers = false →
        insertMessagesReplace 1 (stagedMessages dividedBatch 1 convMap) db₁ = some (db₂, pairs) →
          PairsAgree (stagedMessages dividedBatch 1 convMap) db₂ pairs := by
  obtain ⟨db', stats, -, -, hfirst, -⟩ := promote_twice (fun _ => "key") (fun _ => some 0)
    ⟨fun _ => "+15550001", fun _ _ => false⟩ Walk.inserted Walk.inserted 1 true [] dividedBatch
    Db.empty foreignKeys_empty
  exact ⟨db', stats, hfirst, staged_children_land dividedBatch_foreignKeys hfirst⟩

end MessageCrate

import MessageCrate.Server.MessagePages

/- A page beside a message is a slice of the conversation.

   1. `map_row_messagesFrom`: the joins keep each message of a conversation that is there once.
   2. `load_precedes`, `load_follows`: the rows on either side of a message, read outward, are what
      stands before and after its place in the whole.
   3. `windowSides_…`: how many of them a page takes.
   4. `page_is_a_slice`: the page is the part of the conversation that its offset says, and the
      pages before it and after it are the rest. -/
namespace MessageCrate.MessagePages
open Keyset

/-! The joins. -/

section joins
variable {db : Db} {m : MessageRow} {filter : Where}

theorem leftJoin_eq {handles : List HandleRow} (hids : (handles.map HandleRow.id).Nodup)
    (id : Option Int) : ∃ raw, leftJoin handles id = [raw] := by
  rw [leftJoin]
  cases hfound : handles.filter fun h => some h.id = id with
  | nil => exact ⟨none, rfl⟩
  | cons h rest =>
    have hmem : h ∈ handles.filter fun h => some h.id = id := by
      rw [hfound]
      exact List.mem_cons_self
    obtain ⟨hhandle, hid⟩ := List.mem_filter.mp hmem
    have hone := filter_key_eq hids hhandle
    have hid' : some h.id = id := by simpa using hid
    rw [← hid'] at hfound
    simp only [Option.some.injEq] at hfound
    rw [hone] at hfound
    cases hfound
    exact ⟨_, rfl⟩

/-- The joins make one row of a message whose conversation is there. -/
theorem joinRow_eq (h : ∃ c ∈ db.conversations, c.id = m.conversationId) :
    ∃ r, joinRow db m = [r] ∧ r.row = m := by
  obtain ⟨c, hc, hcid⟩ := h
  obtain ⟨hc', hhandle, hid⟩ := db.chatHandles c hc
  obtain ⟨sender, hsender⟩ := leftJoin_eq db.handleIds m.senderHandleId
  obtain ⟨owner, howner⟩ := leftJoin_eq db.handleIds m.ownerHandleId
  have hconversation := filter_key_eq db.conversationIds hc
  have hchat := filter_key_eq db.handleIds hhandle
  rw [hcid] at hconversation
  rw [hid] at hchat
  refine ⟨⟨m, hc'.raw, sender, owner⟩, ?_, rfl⟩
  rw [joinRow, hconversation]
  simp only [List.flatMap_cons, List.flatMap_nil, List.append_nil, hchat, hsender, howner,
    List.map_cons, List.map_nil]

theorem row_of_mem_joinRow {r : Message} (h : r ∈ joinRow db m) : r.row = m := by
  simp only [joinRow, List.mem_flatMap, List.mem_map] at h
  obtain ⟨c, -, hc, -, hs, -, ho, -, rfl⟩ := h
  rfl

/-- **The joined rows of a conversation are its messages.** -/
theorem map_row_messagesFrom (h : ∀ m, filter m = true →
    ∃ c ∈ db.conversations, c.id = m.conversationId) :
    ((messagesFrom db).filter fun r => filter r.row).map Message.row = db.messages.filter filter := by
  rw [messagesFrom]
  induction db.messages with
  | nil => rfl
  | cons m ms ih =>
    rw [List.flatMap_cons, List.filter_append, List.map_append, ih]
    by_cases hm : filter m = true
    · obtain ⟨r, hjoin, hrow⟩ := joinRow_eq (h m hm)
      rw [hjoin, List.filter_cons_of_pos hm, List.filter_cons_of_pos (by rw [hrow]; exact hm)]
      simp [hrow]
    · rw [List.filter_cons_of_neg hm, List.filter_eq_nil_iff.mpr]
      · rfl
      · intro r hr
        rw [row_of_mem_joinRow hr]
        exact hm

end joins

/-- The joined rows of a condition. -/
def rowsOf (db : Db) (filter : Where) : List Message :=
  (messagesFrom db).filter fun r => filter r.row

/-! One conversation. -/

section conversation
variable {db : Db} {accountId conversationId : Int} {d : Direction}

theorem exists_conversation (hown : ownsConversation db accountId conversationId = true)
    (m : MessageRow) (hm : conversationMessagesWhere conversationId accountId m = true) :
    ∃ c ∈ db.conversations, c.id = m.conversationId := by
  obtain ⟨c, hc, hid⟩ := List.any_eq_true.mp hown
  simp only [decide_eq_true_eq] at hid
  simp only [conversationMessagesWhere, decide_eq_true_eq] at hm
  exact ⟨c, hc, by rw [hid.1, hm.1]⟩

/-- The rows of a condition on a conversation's own messages. -/
structure Within (db : Db) (filter : Where) : Prop where
  joined : ∀ m, filter m = true → ∃ c ∈ db.conversations, c.id = m.conversationId

theorem Within.rows {filter : Where} (h : Within db filter) :
    (rowsOf db filter).map Message.row = db.messages.filter filter :=
  map_row_messagesFrom h.joined

theorem Within.ids {filter : Where} (h : Within db filter) : ((rowsOf db filter).map Message.id).Nodup := by
  have hmap : (rowsOf db filter).map Message.id = (db.messages.filter filter).map MessageRow.id := by
    rw [← h.rows, List.map_map]
    rfl
  rw [hmap]
  exact db.messageIds.sublist (List.filter_sublist.map _)

theorem Within.places {filter : Where} (h : Within db filter) :
    ((rowsOf db filter).map fun r => place r.row).Nodup := by
  refine List.Nodup.of_map (fun p : Place => (ofLex (ofLex p).2).2) ?_
  rw [List.map_map]
  exact h.ids

theorem Within.length_lt {filter : Where} (h : Within db filter) :
    (rowsOf db filter).length < 2 ^ 63 := by
  have hlength : (rowsOf db filter).length = (db.messages.filter filter).length := by
    rw [← h.rows, List.length_map]
  rw [hlength]
  exact lt_of_le_of_lt (List.length_filter_le _ _) db.counted

/-! Statements over the ordered rows. -/

theorem length_orderBy' {rows : List Message} : (orderBy d rows).length = rows.length := by
  cases d with
  | asc => exact length_orderBy
  | desc => exact length_orderBy

theorem take_sqlInt {l : List Message} (h : l.length < 2 ^ 63) (n : Nat) :
    l.take (sqlInt n) = l.take n := by
  rw [sqlInt]
  rcases Nat.le_total n (2 ^ 63 - 1) with hle | hge
  · rw [Nat.min_eq_left hle]
  · rw [Nat.min_eq_right hge, List.take_of_length_le (by omega), List.take_of_length_le (by omega)]

theorem drop_sqlInt {l : List Message} (h : l.length < 2 ^ 63) (n : Nat) :
    l.drop (sqlInt n) = l.drop n := by
  rw [sqlInt]
  rcases Nat.le_total n (2 ^ 63 - 1) with hle | hge
  · rw [Nat.min_eq_left hle]
  · rw [Nat.min_eq_right hge, List.drop_eq_nil_of_le (by omega), List.drop_eq_nil_of_le (by omega)]

theorem Within.load {filter : Where} (h : Within db filter) (d : Direction) (limit offset : Nat) :
    loadMessagesFrom db filter d limit offset =
      ((orderBy d (rowsOf db filter)).drop offset).take limit := by
  have hlength : (orderBy d (rowsOf db filter)).length < 2 ^ 63 := by
    rw [length_orderBy']
    exact h.length_lt
  rw [loadMessagesFrom, ← rowsOf, drop_sqlInt hlength, take_sqlInt]
  rw [List.length_drop]
  omega

theorem reverse_reverse (d : Direction) : d.reverse.reverse = d := by
  cases d <;> rfl

theorem orderBy_reverse {rows : List Message} (h : (rows.map fun r => place r.row).Nodup) :
    orderBy d.reverse rows = (orderBy d rows).reverse := by
  cases d with
  | asc => exact orderBy_toDual h
  | desc =>
    show Keyset.orderBy (fun r => place r.row) rows =
      (Keyset.orderBy (fun r => OrderDual.toDual (place r.row)) rows).reverse
    rw [orderBy_toDual h, List.reverse_reverse]

variable {filter : Where} {before after : List Message} {a : Message}

theorem rowsOf_and (filter : Where) (p : MessageRow → Bool) :
    rowsOf db (fun m => filter m && p m) = (rowsOf db filter).filter fun r => p r.row := by
  rw [rowsOf, rowsOf, List.filter_filter]
  congr 1
  funext r
  exact Bool.and_comm _ _

/-- The rows that come before a row in a direction. -/
theorem orderBy_precedes (h : Within db filter)
    (hplace : orderBy d (rowsOf db filter) = before ++ a :: after) :
    orderBy d (rowsOf db (precedes filter (place a.row) d)) = before := by
  cases d with
  | asc =>
    rw [precedes, rowsOf_and]
    exact orderBy_before h.places hplace
  | desc =>
    rw [precedes, rowsOf_and]
    have hdual : ((rowsOf db filter).map fun r => OrderDual.toDual (place r.row)).Nodup := h.places
    exact orderBy_before hdual hplace

theorem Within.precedes (h : Within db filter) (at_ : Place) (d : Direction) :
    Within db (precedes filter at_ d) where
  joined := by
    intro m hm
    refine h.joined m ?_
    cases d with
    | asc => exact (Bool.and_eq_true_iff.mp hm).1
    | desc => exact (Bool.and_eq_true_iff.mp hm).1

/-- **The nearest rows before a row**, read outward from it. -/
theorem load_precedes (h : Within db filter)
    (hplace : orderBy d (rowsOf db filter) = before ++ a :: after) (n : Nat) :
    loadMessagesFrom db (MessagePages.precedes filter (place a.row) d) d.reverse n 0 =
      before.reverse.take n := by
  have hw := h.precedes (place a.row) d
  rw [hw.load, List.drop_zero, orderBy_reverse hw.places, orderBy_precedes h hplace]

/-- **The nearest rows after a row.** -/
theorem load_follows (h : Within db filter)
    (hplace : orderBy d (rowsOf db filter) = before ++ a :: after) (n : Nat) :
    loadMessagesFrom db (follows filter (place a.row) d) d n 0 = after.take n := by
  have hw := h.precedes (place a.row) d.reverse
  have hback : orderBy d.reverse (rowsOf db filter) = after.reverse ++ a :: before.reverse := by
    rw [orderBy_reverse h.places, hplace]
    simp
  have hrows := orderBy_precedes h hback
  rw [follows, hw.load, List.drop_zero]
  have hturn := orderBy_reverse (d := d.reverse) hw.places
  rw [reverse_reverse] at hturn
  rw [hturn, hrows, List.reverse_reverse]

theorem count_precedes (h : Within db filter)
    (hplace : orderBy d (rowsOf db filter) = before ++ a :: after) :
    count db (MessagePages.precedes filter (place a.row) d) = before.length := by
  have hw := h.precedes (place a.row) d
  rw [count, ← hw.rows, List.length_map, ← length_orderBy' (d := d),
    orderBy_precedes h hplace]

theorem count_eq (h : Within db filter) (d : Direction) :
    count db filter = (orderBy d (rowsOf db filter)).length := by
  rw [count, ← h.rows, List.length_map, length_orderBy']

/-- The row of a message that is shown. -/
theorem load_own (h : Within db filter) (ha : a ∈ rowsOf db filter) :
    loadMessagesFrom db (fun m => filter m && m.id == a.id) d 1 0 = [a] := by
  have hw : Within db (fun m => filter m && m.id == a.id) :=
    ⟨fun m hm => h.joined m (Bool.and_eq_true_iff.mp hm).1⟩
  have hids := h.ids
  have hone : rowsOf db (fun m => filter m && m.id == a.id) = [a] := by
    rw [rowsOf_and, ← filter_key_eq hids ha]
    rfl
  rw [hw.load, hone]
  cases d <;> rfl

/-! The page. -/

/-- The anchor's row, where the conversation shows it. -/
theorem find?_anchor (h : Within db filter) (ha : a ∈ rowsOf db filter) :
    db.messages.find? (fun m => filter m && m.id == a.id) = some a.row := by
  have hmem : a.row ∈ db.messages.filter filter := by
    rw [← h.rows]
    exact List.mem_map_of_mem ha
  obtain ⟨hrow, hfilter⟩ := List.mem_filter.mp hmem
  cases hfind : db.messages.find? (fun m => filter m && m.id == a.id) with
  | none =>
    have hno := List.find?_eq_none.mp hfind a.row hrow
    simp [hfilter, Message.id] at hno
  | some m =>
    have hm := List.mem_of_find?_eq_some hfind
    have hid : m.id = a.row.id := by
      have := List.find?_some hfind
      simp only [Bool.and_eq_true, beq_iff_eq] at this
      exact this.2
    rw [List.inj_on_of_nodup_map db.messageIds hm hrow hid]

theorem within_conversation (hown : ownsConversation db accountId conversationId = true) :
    Within db (conversationMessagesWhere conversationId accountId) :=
  ⟨fun m hm => exists_conversation hown m hm⟩

theorem take_of_pos (l : List Message) (n : Nat) : (if 0 < n then l.take n else []) = l.take n := by
  split
  · rfl
  · next hzero =>
    obtain rfl : n = 0 := by omega
    rfl

theorem reverse_take_of_pos (l : List Message) (n : Nat) :
    (if 0 < n then (l.take n).reverse else []) = (l.take n).reverse := by
  split
  · rfl
  · next hzero =>
    obtain rfl : n = 0 := by omega
    rfl

/-- What a page beside a message is, from what stands before and after it. -/
theorem getConversationMessages_beside (hown : ownsConversation db accountId conversationId = true)
    {order : List SortKey} (limit : Nat) {window : MessageWindow} {parameter : String}
    (hwindow : window.anchor = some (parameter, a.id))
    (hplace : shown db accountId conversationId (directionOf order) = before ++ a :: after) :
    getConversationMessages db accountId conversationId order limit window =
      let total := before.length + (after.length + 1)
      let sides := windowSides window before.length total limit
      .ok (some ⟨(before.reverse.take sides.1).reverse ++ (if sides.2.1 then [a] else []) ++
        after.take sides.2.2, total, limit, pageOffset window before.length sides.1⟩) := by
  have hw := within_conversation hown
  have hplace' : orderBy (directionOf order)
      (rowsOf db (conversationMessagesWhere conversationId accountId)) = before ++ a :: after := hplace
  have ha : a ∈ rowsOf db (conversationMessagesWhere conversationId accountId) := by
    have hmem : a ∈ orderBy (directionOf order)
        (rowsOf db (conversationMessagesWhere conversationId accountId)) := by
      rw [hplace']
      simp
    cases hd : directionOf order with
    | asc => rw [hd] at hmem; exact mem_orderBy.mp hmem
    | desc => rw [hd] at hmem; exact mem_orderBy.mp hmem
  have hat : (toLex (a.row.timestamp, toLex (a.row.sortOrder, a.id)) : Place) = place a.row := rfl
  have htotal : count db (conversationMessagesWhere conversationId accountId) =
      before.length + (after.length + 1) := by
    rw [count_eq hw (directionOf order), hplace']
    simp
  rw [getConversationMessages, hown]
  simp only [Bool.true_eq_false, if_false, hwindow, find?_anchor hw ha, hat, htotal,
    count_precedes hw hplace', load_precedes hw hplace', load_follows hw hplace', load_own hw ha]
  rw [take_of_pos, reverse_take_of_pos]

/-! Slices. -/

/-- How many messages the page holds and where it lies, for a message at place `p` of `total`. -/
def Beside (window : MessageWindow) (p total limit : Nat) (page : Page) : Prop :=
  match window with
  | .offset _ => True
  | .before _ => page.items.length = min limit p ∧ page.offset + page.items.length = p
  | .after _ => page.items.length = min limit (total - (p + 1)) ∧ page.offset = p + 1
  | .around _ =>
    page.items.length = min limit total ∧ page.offset ≤ p ∧ p < page.offset + page.items.length ∧
    ((limit - 1) / 2 ≤ p → limit - 1 - (limit - 1) / 2 ≤ total - (p + 1) →
      p = page.offset + (limit - 1) / 2) ∧
    (p < (limit - 1) / 2 → page.offset = 0) ∧
    (total - (p + 1) < limit - 1 - (limit - 1) / 2 → page.offset + page.items.length = total)

/-- The page is the part of the whole from its offset on. -/
structure Slice (whole : List Message) (page : Page) : Prop where
  total : page.total = whole.length
  items : page.items = (whole.drop page.offset).take page.items.length
  fits : page.offset + page.items.length ≤ whole.length

theorem slice_of_parts {whole : List Message} (page : Page) {k : Nat} (htotal : page.total = whole.length)
    (hitems : page.items = (whole.drop page.offset).take k) (hfits : page.offset + k ≤ whole.length) :
    Slice whole page ∧ page.items.length = k := by
  have hlength : page.items.length = k := by
    rw [hitems, List.length_take, List.length_drop]
    omega
  refine ⟨⟨htotal, ?_, ?_⟩, hlength⟩
  · rw [hlength]
    exact hitems
  · rw [hlength]
    exact hfits

/-- The last `b` of what stands before a message. -/
theorem before_eq (before after : List Message) (a : Message) {b : Nat} (hb : b ≤ before.length) :
    (before.reverse.take b).reverse = ((before ++ a :: after).drop (before.length - b)).take b := by
  have hlength : (before.drop (before.length - b)).length = b := by
    rw [List.length_drop]
    omega
  rw [List.reverse_take, List.reverse_reverse, List.length_reverse,
    List.drop_append_of_le_length (Nat.sub_le _ _), List.take_append_of_le_length (by omega),
    List.take_of_length_le (by omega)]

/-- With the message and the first `c` after it. -/
theorem middle_eq (before after : List Message) (a : Message) {b : Nat} (c : Nat)
    (hb : b ≤ before.length) : (before.reverse.take b).reverse ++ [a] ++ after.take c =
      ((before ++ a :: after).drop (before.length - b)).take (b + (1 + c)) := by
  have hdrop : ((before ++ a :: after).drop (before.length - b)).drop b = a :: after := by
    rw [List.drop_drop, show before.length - b + b = before.length by omega, List.drop_left]
  rw [before_eq before after a hb, List.take_add, hdrop, Nat.add_comm 1 c, List.take_succ_cons,
    List.append_assoc, List.singleton_append]

theorem windowSides_around {p total limit : Nat} (hlimit : 1 ≤ limit) (hp : p < total) (id : Int) :
    ∃ b c, windowSides (.around id) p total limit = (b, true, c) ∧ b ≤ p ∧ c ≤ total - (p + 1) ∧
      b + (1 + c) = min limit total ∧
      ((limit - 1) / 2 ≤ p → limit - 1 - (limit - 1) / 2 ≤ total - (p + 1) → b = (limit - 1) / 2) ∧
      (p < (limit - 1) / 2 → b = p) ∧
      (total - (p + 1) < limit - 1 - (limit - 1) / 2 → c = total - (p + 1)) := by
  refine ⟨_, _, rfl, ?_, ?_, ?_, ?_, ?_, ?_⟩ <;> omega

/-- A place in a list cuts it in two. -/
theorem exists_split {whole : List Message} {id : Int} {p : Nat} (hp : (whole.map Message.id)[p]? = some id) :
    ∃ before a after, whole = before ++ a :: after ∧ before.length = p ∧ a.id = id := by
  rw [List.getElem?_map, Option.map_eq_some_iff] at hp
  obtain ⟨a, ha, hid⟩ := hp
  obtain ⟨hlt, hget⟩ := List.getElem?_eq_some_iff.mp ha
  refine ⟨whole.take p, a, whole.drop (p + 1), ?_, List.length_take_of_le (Nat.le_of_lt hlt), hid⟩
  rw [← hget, ← List.drop_eq_getElem_cons hlt, List.take_append_drop]

/-- **A page beside a message that is shown.** -/
theorem page_beside (hown : ownsConversation db accountId conversationId = true) {order : List SortKey}
    {limit : Nat} (hlimit : 1 ≤ limit) (window : MessageWindow) {parameter : String} {id : Int} {p : Nat}
    (hwindow : window.anchor = some (parameter, id))
    (hp : ((shown db accountId conversationId (directionOf order)).map Message.id)[p]? = some id) :
    ∃ page, getConversationMessages db accountId conversationId order limit window = .ok (some page) ∧
      Slice (shown db accountId conversationId (directionOf order)) page ∧
      Beside window p (shown db accountId conversationId (directionOf order)).length limit page := by
  obtain ⟨before, a, after, hwhole, rfl, rfl⟩ := exists_split hp
  have hpage := getConversationMessages_beside hown limit hwindow hwhole
  rw [hwhole, hpage]
  have htotal : (before ++ a :: after).length = before.length + (after.length + 1) := by simp
  have hwholeDrop : (before ++ a :: after).drop (before.length + 1) = after := by
    rw [← List.drop_drop, List.drop_left]
    rfl
  refine ⟨_, rfl, ?_⟩
  cases window with
  | offset n => cases hwindow
  | before _ =>
    have hsides : windowSides (.before a.id) before.length (before.length + (after.length + 1)) limit =
        (min limit before.length, false, 0) := rfl
    have hb : min limit before.length ≤ before.length := Nat.min_le_right _ _
    cases hwindow
    simp only [hsides, Bool.false_eq_true, if_false, List.append_nil, List.take_zero, pageOffset]
    obtain ⟨hslice, hlength⟩ := slice_of_parts (k := min limit before.length)
      ⟨(before.reverse.take (min limit before.length)).reverse, _, limit, _⟩
      htotal.symm (before_eq before after a hb) (by rw [htotal]; show _ - _ + _ ≤ _; omega)
    exact ⟨hslice, hlength, by rw [hlength]; show _ - _ + _ = _; omega⟩
  | after _ =>
    have hsides : windowSides (.after a.id) before.length (before.length + (after.length + 1)) limit =
        (0, false, min limit (before.length + (after.length + 1) - (before.length + 1))) := rfl
    cases hwindow
    simp only [hsides, Bool.false_eq_true, if_false, List.append_nil, List.take_zero, List.reverse_nil,
      List.nil_append, pageOffset]
    obtain ⟨hslice, hlength⟩ := slice_of_parts
      (k := min limit (before.length + (after.length + 1) - (before.length + 1)))
      ⟨after.take (min limit (before.length + (after.length + 1) - (before.length + 1))), _, limit,
        before.length + 1⟩
      htotal.symm (by rw [hwholeDrop]) (by rw [htotal]; show _ + 1 + _ ≤ _; omega)
    exact ⟨hslice, by rw [htotal]; exact hlength, rfl⟩
  | around _ =>
    cases hwindow
    obtain ⟨b, c, hsides, hb, hc, hsum, hmiddle, hleft, hright⟩ :=
      windowSides_around hlimit
        (show before.length < before.length + (after.length + 1) by omega) a.id
    simp only [hsides, if_true, pageOffset]
    obtain ⟨hslice, hlength⟩ := slice_of_parts (k := b + (1 + c))
      ⟨(before.reverse.take b).reverse ++ [a] ++ after.take c, _, limit, before.length - b⟩
      htotal.symm (middle_eq before after a c hb) (by rw [htotal]; show _ - _ + _ ≤ _; omega)
    refine ⟨hslice, ?_⟩
    rw [Beside, hlength, htotal]
    refine ⟨hsum, ?_, ?_, ?_, ?_, ?_⟩
    · exact Nat.sub_le _ _
    · show before.length < before.length - b + _
      omega
    · intro hp hafter
      have := hmiddle hp hafter
      show before.length = before.length - b + _
      omega
    · intro hp
      have := hleft hp
      show before.length - b = 0
      omega
    · intro hafter
      have := hright hafter
      show before.length - b + _ = _
      omega

/-! Reading on from a page. -/

/-- The messages of a page, or none where there is no page. -/
def itemsAt (db : Db) (accountId conversationId : Int) (order : List SortKey) (limit : Nat)
    (window : MessageWindow) : List Message :=
  match getConversationMessages db accountId conversationId order limit window with
  | .ok (some page) => page.items
  | _ => []

/-- Page after page before a message, until one is empty. -/
def readBefore (db : Db) (accountId conversationId : Int) (order : List SortKey) (limit : Nat) :
    Nat → Int → List Message
  | 0, _ => []
  | fuel + 1, id =>
    match itemsAt db accountId conversationId order limit (.before id) with
    | [] => []
    | first :: rest =>
      readBefore db accountId conversationId order limit fuel first.id ++ first :: rest

/-- Page after page after a message, until one is empty. -/
def readAfter (db : Db) (accountId conversationId : Int) (order : List SortKey) (limit : Nat) :
    Nat → Int → List Message
  | 0, _ => []
  | fuel + 1, id =>
    let items := itemsAt db accountId conversationId order limit (.after id)
    match items.getLast? with
    | none => []
    | some last => items ++ readAfter db accountId conversationId order limit fuel last.id

theorem getElem?_of_slice {whole : List Message} {page : Page} (h : Slice whole page) (i : Nat)
    (hi : i < page.items.length) : whole[page.offset + i]? = page.items[i]? := by
  conv_rhs => rw [h.items]
  rw [List.getElem?_take_of_lt hi, List.getElem?_drop]

theorem readBefore_eq (hown : ownsConversation db accountId conversationId = true)
    {order : List SortKey} {limit : Nat} (hlimit : 1 ≤ limit) : ∀ (fuel : Nat) {id : Int} {p : Nat},
    ((shown db accountId conversationId (directionOf order)).map Message.id)[p]? = some id → p < fuel →
    readBefore db accountId conversationId order limit fuel id =
      (shown db accountId conversationId (directionOf order)).take p
  | fuel + 1, id, p, hp, hfuel => by
    obtain ⟨page, hpage, hslice, hlength, hend⟩ := page_beside hown hlimit (.before id) rfl hp
    have hitems : itemsAt db accountId conversationId order limit (.before id) = page.items := by
      rw [itemsAt, hpage]
    rw [readBefore, hitems]
    cases hfirst : page.items with
    | nil =>
      rw [hfirst, List.length_nil] at hlength
      have hzero : p = 0 := by omega
      rw [hzero, List.take_zero]
    | cons first rest =>
      have hpos : 0 < page.items.length := by
        rw [hfirst]
        exact Nat.succ_pos _
      have hfirstAt : ((shown db accountId conversationId (directionOf order)).map
          Message.id)[page.offset]? = some first.id := by
        have hget := getElem?_of_slice hslice 0 hpos
        rw [Nat.add_zero, hfirst, List.getElem?_cons_zero] at hget
        rw [List.getElem?_map, hget, Option.map_some]
      show readBefore db accountId conversationId order limit fuel first.id ++ first :: rest = _
      rw [readBefore_eq hown hlimit fuel hfirstAt (by omega), ← hfirst, ← hend, List.take_add,
        ← hslice.items]

theorem readAfter_eq (hown : ownsConversation db accountId conversationId = true)
    {order : List SortKey} {limit : Nat} (hlimit : 1 ≤ limit) : ∀ (fuel : Nat) {id : Int} {p : Nat},
    ((shown db accountId conversationId (directionOf order)).map Message.id)[p]? = some id →
    (shown db accountId conversationId (directionOf order)).length < p + 1 + fuel →
    readAfter db accountId conversationId order limit fuel id =
      (shown db accountId conversationId (directionOf order)).drop (p + 1)
  | 0, id, p, hp, hfuel => by
    rw [readAfter, List.drop_eq_nil_of_le (by omega)]
  | fuel + 1, id, p, hp, hfuel => by
    obtain ⟨page, hpage, hslice, hlength, hstart⟩ := page_beside hown hlimit (.after id) rfl hp
    have hitems : itemsAt db accountId conversationId order limit (.after id) = page.items := by
      rw [itemsAt, hpage]
    rw [readAfter]
    simp only [hitems]
    cases hlast : page.items.getLast? with
    | none =>
      rw [List.getLast?_eq_none_iff] at hlast
      rw [hlast, List.length_nil] at hlength
      rw [List.drop_eq_nil_of_le (by omega)]
    | some last =>
      have hne : page.items ≠ [] := by
        rintro hnil
        rw [hnil] at hlast
        cases hlast
      have hpos := List.length_pos_iff.mpr hne
      have hlastAt : ((shown db accountId conversationId (directionOf order)).map
          Message.id)[p + page.items.length]? = some last.id := by
        have hget := getElem?_of_slice hslice (page.items.length - 1) (by omega)
        rw [← List.getLast?_eq_getElem?, hlast, hstart,
          show p + 1 + (page.items.length - 1) = p + page.items.length by omega] at hget
        rw [List.getElem?_map, hget, Option.map_some]
      have hfits := hslice.fits
      show page.items ++ readAfter db accountId conversationId order limit fuel last.id = _
      rw [readAfter_eq hown hlimit fuel hlastAt (by omega)]
      have hpart := hslice.items
      rw [hstart] at hpart
      calc page.items ++ (shown db accountId conversationId (directionOf order)).drop
              (p + page.items.length + 1)
          = ((shown db accountId conversationId (directionOf order)).drop (p + 1)).take
                page.items.length ++
              ((shown db accountId conversationId (directionOf order)).drop (p + 1)).drop
                page.items.length := by
            rw [← hpart, List.drop_drop, show p + 1 + page.items.length = p + page.items.length + 1 by omega]
        _ = _ := List.take_append_drop _ _

/-- **A page beside a message is a slice of the conversation**, and reading on from its first and
its last message shows the rest, each message once. -/
theorem page_is_a_slice (db : Db) (accountId conversationId : Int) (order : List SortKey)
    {limit : Nat} (hown : ownsConversation db accountId conversationId = true) (hlimit : 1 ≤ limit) :
    ((shown db accountId conversationId (directionOf order)).map Message.id).Nodup ∧
    ∀ window parameter id p, window.anchor = some (parameter, id) →
      ((shown db accountId conversationId (directionOf order)).map Message.id)[p]? = some id →
      ∃ page, getConversationMessages db accountId conversationId order limit window = .ok (some page) ∧
        Slice (shown db accountId conversationId (directionOf order)) page ∧
        Beside window p (shown db accountId conversationId (directionOf order)).length limit page ∧
        ∀ first last, page.items.head? = some first → page.items.getLast? = some last →
          ∀ fuel, (shown db accountId conversationId (directionOf order)).length < fuel →
            readBefore db accountId conversationId order limit fuel first.id ++ page.items ++
              readAfter db accountId conversationId order limit fuel last.id =
                shown db accountId conversationId (directionOf order) := by
  have hw := within_conversation hown
  refine ⟨?_, ?_⟩
  · have hperm : (shown db accountId conversationId (directionOf order)).Perm
        (rowsOf db (conversationMessagesWhere conversationId accountId)) := by
      rw [shown]
      cases directionOf order with
      | asc => exact perm_orderBy
      | desc => exact perm_orderBy
    rw [(hperm.map Message.id).nodup_iff]
    exact hw.ids
  · intro window parameter id p hwindow hp
    obtain ⟨page, hpage, hslice, hbeside⟩ := page_beside hown hlimit window hwindow hp
    refine ⟨page, hpage, hslice, hbeside, ?_⟩
    intro first last hfirst hlast fuel hfuel
    have hfits := hslice.fits
    have hne : page.items ≠ [] := by
      rintro hnil
      rw [hnil] at hlast
      cases hlast
    have hpos := List.length_pos_iff.mpr hne
    have hfirstAt : ((shown db accountId conversationId (directionOf order)).map
        Message.id)[page.offset]? = some first.id := by
      have hget := getElem?_of_slice hslice 0 hpos
      rw [Nat.add_zero, ← List.head?_eq_getElem?, hfirst] at hget
      rw [List.getElem?_map, hget, Option.map_some]
    have hlastAt : ((shown db accountId conversationId (directionOf order)).map
        Message.id)[page.offset + (page.items.length - 1)]? = some last.id := by
      have hget := getElem?_of_slice hslice (page.items.length - 1) (by omega)
      rw [← List.getLast?_eq_getElem?, hlast] at hget
      rw [List.getElem?_map, hget, Option.map_some]
    rw [readBefore_eq hown hlimit fuel hfirstAt (by omega),
      readAfter_eq hown hlimit fuel hlastAt (by omega)]
    have hjoined : (shown db accountId conversationId (directionOf order)).take page.offset ++
        page.items =
          (shown db accountId conversationId (directionOf order)).take
            (page.offset + page.items.length) := by
      rw [List.take_add, ← hslice.items]
    rw [hjoined, show page.offset + (page.items.length - 1) + 1 = page.offset + page.items.length by
      omega, List.take_append_drop]

end conversation

/-- One conversation of three messages at one time, read newest first. -/
def threeMessages : Db where
  handles := [⟨1, "+15555550100"⟩]
  conversations := [⟨7, 1, 1⟩]
  messages := [⟨10, 7, 1, "2024-01-01T00:00:00Z", 2, none, none, none⟩,
    ⟨11, 7, 1, "2024-01-01T00:00:00Z", 1, some 1, none, none⟩,
    ⟨12, 7, 1, "2024-01-01T00:00:00Z", 1, some 1, none, none⟩]
  handleIds := by decide
  conversationIds := by decide
  messageIds := by decide
  chatHandles := by decide
  counted := by decide

theorem page_is_a_slice_threeMessages :
    ((shown threeMessages 1 7 .desc).map Message.id).Nodup ∧
      ∃ page, getConversationMessages threeMessages 1 7 [⟨.date, .desc⟩] 2 (.around 12) = .ok (some page) ∧
        Slice (shown threeMessages 1 7 .desc) page := by
  obtain ⟨hnodup, hpages⟩ := page_is_a_slice threeMessages 1 7 [⟨.date, .desc⟩]
    (by decide) (show 1 ≤ 2 by decide)
  obtain ⟨page, hpage, hslice, -⟩ := hpages (.around 12) "around" 12 1 rfl (by decide +kernel)
  exact ⟨hnodup, page, hpage, hslice⟩

end MessageCrate.MessagePages

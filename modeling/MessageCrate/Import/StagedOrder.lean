import MessageCrate.Import.Children
import MessageCrate.Import.Stage
import MessageCrate.Lib.Packing
import MessageCrate.Lib.Runs

/- The order of a conversation that arrives in batches.

   A conversation is read back by timestamp and then by `sort_order`. A message takes its number
   when it is staged: the numbers of one header's messages follow one another, from one past the
   largest that the conversation holds, in production or in staging. A message that is there
   already uses its number up and is skipped.

   What is proved:
     1. `Numbering.insertMessageRow`: one row staged. The row is numbered above every row of its
        conversation, or it was staged before.
     2. `staged_inOrder`: the files of a batch, staged. Of two staged messages of one conversation
        the one that the files carry first has the smaller number, and every number is above
        those in production.
     3. `InOrder.append`: a batch promoted. `sourceOrder_appendBatches`: any number of them. -/
namespace MessageCrate
open Grouping SqlTable Table

/-! What the files carry. -/

/-- A message's source and guid, which name it within an account. -/
abbrev MessageName := String × String

/-- The messages of one header. -/
def namesOf (source : String) (messages : List MessageRecord) : List MessageName :=
  messages.map (fun msg => (source, msg.guid))

/-- The messages of one file, in its order. -/
def carriedBy (records : List ExportRecord) : List MessageName :=
  (groupRecords none records).flatMap (fun p => namesOf p.1.source p.2)

/-! What is in order. -/

/-- A stored message is in the account's conversation on a handle. -/
def Db.InChat (db : Db) (accountId chatHandleId : Int) (m : MessageRow) : Prop :=
  ∃ c ∈ db.conversations.rows, c.id = m.conversationId ∧ c.accountId = accountId ∧
    c.chatHandleId = chatHandleId

/-- What is staged, over the database it was numbered in: every message of `names` is there, and
those of one conversation are numbered as `names` first has them, above the stored ones. -/
structure Staging.InOrder (accountId : Int) (db : Db) (names : List MessageName) (s : Staging) :
    Prop where
  conversation : ∀ r ∈ s.messages.rows, ∃ c ∈ s.conversations.rows, c.id = r.conversationId ∧
    c.accountId = accountId
  held : ∀ name ∈ names, s.messages.holds (some (accountId, name)) = true
  named : ∀ r ∈ s.messages.rows, r.accountId = accountId ∧ (r.source, r.guid) ∈ names
  ascending : ∀ r ∈ s.messages.rows, ∀ r' ∈ s.messages.rows, r.conversationId = r'.conversationId →
    names.idxOf (r.source, r.guid) < names.idxOf (r'.source, r'.guid) → r.sortOrder < r'.sortOrder
  above : ∀ r ∈ s.messages.rows, ∀ c ∈ s.conversations.rows, c.id = r.conversationId →
    ∀ m ∈ db.messages.rows, db.InChat accountId c.chatHandleId m → m.sortOrder < r.sortOrder

/-- The numbers from `next` on are free in the conversation being staged. -/
structure Numbering (accountId : Int) (db : Db) (cur : Current) (names : List MessageName)
    (next : Int) (s : Staging) : Prop where
  inOrder : s.InOrder accountId db names
  conversation : ∃ c ∈ s.conversations.rows, c.id = cur.conversationId ∧ c.accountId = accountId
  staged : ∀ r ∈ s.messages.rows, r.conversationId = cur.conversationId → r.sortOrder < next
  stored : ∀ c ∈ s.conversations.rows, c.id = cur.conversationId → ∀ m ∈ db.messages.rows,
    db.InChat accountId c.chatHandleId m → m.sortOrder < next

section
variable {accountId chatHandleId : Int} {db : Db} {names : List MessageName} {s s' : Staging}
  {cur : Current} {next : Int}

theorem inOrder_empty : Staging.empty.InOrder accountId db [] where
  conversation r hr := by cases hr
  held name hname := by cases hname
  named r hr := by cases hr
  ascending r hr := by cases hr
  above r hr := by cases hr

theorem Staging.InOrder.congr (h : s.InOrder accountId db names)
    (hconv : s'.conversations = s.conversations) (hmsg : s'.messages = s.messages) :
    s'.InOrder accountId db names := by
  constructor
  · rw [hconv, hmsg]
    exact h.conversation
  · rw [hmsg]
    exact h.held
  · rw [hmsg]
    exact h.named
  · rw [hmsg]
    exact h.ascending
  · rw [hconv, hmsg]
    exact h.above

theorem Numbering.congr (h : Numbering accountId db cur names next s)
    (hconv : s'.conversations = s.conversations) (hmsg : s'.messages = s.messages) :
    Numbering accountId db cur names next s' := by
  constructor
  · exact h.inOrder.congr hconv hmsg
  · rw [hconv]
    exact h.conversation
  · rw [hmsg]
    exact h.staged
  · rw [hconv]
    exact h.stored

/-! One row. -/

/-- A message that was staged before is skipped, and its number with it. -/
theorem Numbering.skip (h : Numbering accountId db cur names next s) {name : MessageName}
    (hheld : s.messages.holds (some (accountId, name)) = true) :
    Numbering accountId db cur (names ++ [name]) (next + 1) s where
  inOrder := {
    conversation := h.inOrder.conversation
    held := fun name' hname' => by
      obtain hname' | hname' := List.mem_append.mp hname'
      · exact h.inOrder.held name' hname'
      · rw [List.mem_singleton.mp hname']
        exact hheld
    named := fun r hr => by
      obtain ⟨hacc, hname⟩ := h.inOrder.named r hr
      exact ⟨hacc, List.mem_append_left _ hname⟩
    ascending := fun r hr r' hr' hsame hlt => by
      rw [List.idxOf_append_of_mem (h.inOrder.named r hr).2,
        List.idxOf_append_of_mem (h.inOrder.named r' hr').2] at hlt
      exact h.inOrder.ascending r hr r' hr' hsame hlt
    above := h.inOrder.above }
  conversation := h.conversation
  staged r hr hcur := by
    have := h.staged r hr hcur
    omega
  stored c hc hcur m hm hin := by
    have := h.stored c hc hcur m hm hin
    omega

/-- A message that was not goes in, after every message of its conversation. -/
theorem Numbering.add (h : Numbering accountId db cur names next s) {new : StagingMessageRow}
    {t : Table StagingMessageRow} (hrows : t.rows = s.messages.rows ++ [new])
    (hfree : s.messages.holds (some (accountId, new.source, new.guid)) = false)
    (hacc : new.accountId = accountId) (hconv : new.conversationId = cur.conversationId)
    (hnext : new.sortOrder = next) :
    Numbering accountId db cur (names ++ [(new.source, new.guid)]) (next + 1)
      { s with messages := t } := by
  have hmem : ∀ {r}, r ∈ t.rows → r ∈ s.messages.rows ∨ r = new := by
    intro r hr
    rw [hrows] at hr
    obtain hr | hr := List.mem_append.mp hr
    · exact .inl hr
    · exact .inr (List.mem_singleton.mp hr)
  have hold : ∀ {k}, s.messages.holds k = true → t.holds k = true := by
    intro k hk
    refine holds_mono (fun r hr => ?_) hk
    rw [hrows]
    exact List.mem_append_left _ hr
  have hnew : new ∈ t.rows := by
    rw [hrows]
    exact List.mem_append_right _ List.mem_cons_self
  -- Nothing staged before has the new row's name.
  have hunnamed : (new.source, new.guid) ∉ names := fun hname => by
    rw [h.inOrder.held _ hname] at hfree
    cases hfree
  constructor
  · constructor
    · intro r hr
      obtain hr | rfl := hmem hr
      · exact h.inOrder.conversation r hr
      · rw [hconv]
        exact h.conversation
    · intro name hname
      obtain hname | hname := List.mem_append.mp hname
      · exact hold (h.inOrder.held name hname)
      · rw [List.mem_singleton.mp hname]
        exact holds_iff.mpr ⟨new, hnew, _, rfl, congrArg some (congrArg (·, _, _) hacc)⟩
    · intro r hr
      obtain hr | rfl := hmem hr
      · obtain ⟨hracc, hname⟩ := h.inOrder.named r hr
        exact ⟨hracc, List.mem_append_left _ hname⟩
      · exact ⟨hacc, List.mem_append_right _ List.mem_cons_self⟩
    · intro r hr r' hr' hsame hlt
      obtain hr | rfl := hmem hr
      · have hname := (h.inOrder.named r hr).2
        obtain hr' | rfl := hmem hr'
        · rw [List.idxOf_append_of_mem hname,
            List.idxOf_append_of_mem (h.inOrder.named r' hr').2] at hlt
          exact h.inOrder.ascending r hr r' hr' hsame hlt
        · have := h.staged r hr (hsame.trans hconv)
          omega
      · obtain hr' | rfl := hmem hr'
        · have hname := (h.inOrder.named r' hr').2
          rw [List.idxOf_append_of_mem hname, List.idxOf_append_of_notMem hunnamed] at hlt
          have := List.idxOf_lt_length_iff.mpr hname
          omega
        · omega
    · intro r hr c hc hid m hm hin
      obtain hr | rfl := hmem hr
      · exact h.inOrder.above r hr c hc hid m hm hin
      · have := h.stored c hc (hid.trans hconv) m hm hin
        omega
  · exact h.conversation
  · intro r hr hcur
    obtain hr | rfl := hmem hr
    · have := h.staged r hr hcur
      omega
    · omega
  · intro c hc hcur m hm hin
    have := h.stored c hc hcur m hm hin
    omega

end

/-! A chunk of rows. -/

/-- Numbers that follow one another from `next` on. -/
def Numbered : Int → List PendingStagingMessage → Prop
  | _, [] => True
  | next, p :: ps => p.sortOrder = next ∧ Numbered (next + 1) ps

theorem numbered_append {next : Int} {ps qs : List PendingStagingMessage} :
    Numbered next (ps ++ qs) ↔ Numbered next ps ∧ Numbered (next + ps.length) qs := by
  induction ps generalizing next with
  | nil =>
    show Numbered next qs ↔ True ∧ Numbered (next + 0) qs
    rw [Int.add_zero, true_and]
  | cons p ps ih =>
    have hlength : next + 1 + (ps.length : Int) = next + ((p :: ps).length : Int) := by
      rw [List.length_cons]
      omega
    show p.sortOrder = next ∧ Numbered (next + 1) (ps ++ qs) ↔ (p.sortOrder = next ∧ _) ∧ _
    rw [ih, hlength, and_assoc]

namespace Stage
variable {ctx : ImportContext} {st st' : Stage} {cur : Current} {names : List MessageName}
  {next : Int}

/-- The name a pending message is staged under. -/
def nameOf (cur : Current) (p : PendingStagingMessage) : MessageName := (cur.source, p.msg.guid)

/-- One row of a chunk: the next number is used, whether the row goes in or not. -/
theorem insertMessageRow_numbers {p : PendingStagingMessage}
    (hnum : Numbering ctx.accountId ctx.db cur names p.sortOrder st.staging)
    (h : insertMessageRow ctx cur p st = some st') :
    Numbering ctx.accountId ctx.db cur (names ++ [nameOf cur p]) (p.sortOrder + 1) st'.staging ∧
      st'.pending = st.pending ∧ st'.current = st.current := by
  unfold insertMessageRow at h
  split at h
  · next hguid =>
    split at h
    · next messages hins =>
      obtain rfl := Option.some.inj h
      obtain ⟨hfree, hrows⟩ := insert_eq_some hins
      exact ⟨hnum.add hrows hfree rfl rfl rfl, rfl, rfl⟩
    · next hins =>
      obtain rfl := Option.some.inj h
      exact ⟨hnum.skip (insert_eq_none.mp hins), rfl, rfl⟩
  · cases h

theorem insertRows_numbers {ps : List PendingStagingMessage} (hps : Numbered next ps)
    (hnum : Numbering ctx.accountId ctx.db cur names next st.staging)
    (h : ps.foldlM (fun st p => insertMessageRow ctx cur p st) st = some st') :
    Numbering ctx.accountId ctx.db cur (names ++ ps.map (nameOf cur)) (next + ps.length)
        st'.staging ∧
      st'.pending = st.pending ∧ st'.current = st.current := by
  induction ps generalizing st names next with
  | nil =>
    obtain rfl := Option.some.inj h
    refine ⟨?_, rfl, rfl⟩
    show Numbering _ _ _ (names ++ []) (next + 0) _
    rw [List.append_nil, Int.add_zero]
    exact hnum
  | cons p ps ih =>
    rw [List.foldlM_cons] at h
    obtain ⟨st₁, hone, hrest⟩ := Option.bind_eq_some_iff.mp h
    obtain ⟨rfl, hps⟩ := hps
    obtain ⟨hnum₁, hpend₁, hcur₁⟩ := insertMessageRow_numbers hnum hone
    obtain ⟨hnum', hpend, hcur⟩ := ih hps hnum₁ hrest
    refine ⟨?_, hpend.trans hpend₁, hcur.trans hcur₁⟩
    have hlength : p.sortOrder + ((p :: ps).length : Int) = p.sortOrder + 1 + ps.length := by
      rw [List.length_cons]
      omega
    rw [List.map_cons, List.append_cons, hlength]
    exact hnum'

/-- The rest of a conversation's messages, waiting to be written. -/
structure Waiting (ctx : ImportContext) (cur : Current) (names : List MessageName)
    (messages : List MessageRecord) (st : Stage) : Prop where
  current : st.current = some cur
  pending : st.pending.map PendingStagingMessage.msg = messages
  numbers : ∃ next, Numbering ctx.accountId ctx.db cur names next st.staging ∧
    Numbered next st.pending

theorem Waiting.inOrder {messages : List MessageRecord} (h : Waiting ctx cur names messages st) :
    st.staging.InOrder ctx.accountId ctx.db names := by
  obtain ⟨next, hnum, -⟩ := h.numbers
  exact hnum.inOrder

theorem rows_waiting {messages : List MessageRecord} {count : Nat}
    (hwait : Waiting ctx cur names messages st) (h : st.rows ctx count = some st') :
    Waiting ctx cur (names ++ namesOf cur.source (messages.take count)) (messages.drop count) st' := by
  obtain ⟨next, hnum, hnext⟩ := hwait.numbers
  unfold rows at h
  obtain ⟨current, hcurrent, h⟩ := Option.bind_eq_some_iff.mp h
  obtain rfl : cur = current := Option.some.inj (hwait.current.symm.trans hcurrent)
  rw [← List.take_append_drop count st.pending, numbered_append] at hnext
  have hnum₀ : Numbering ctx.accountId ctx.db cur names next
      ({ st with pending := st.pending.drop count, inserted := [] } : Stage).staging := hnum
  obtain ⟨hnum', hpend, hcur⟩ := insertRows_numbers hnext.1 hnum₀ h
  refine ⟨hcur.trans hwait.current, ?_, next + (st.pending.take count).length, ?_, ?_⟩
  · rw [hpend, List.map_drop, hwait.pending]
  · have hnames : (st.pending.take count).map (nameOf cur) =
        namesOf cur.source (messages.take count) := by
      rw [namesOf, ← hwait.pending, ← List.map_take, List.map_map]
      rfl
    rw [← hnames]
    exact hnum'
  · rw [hpend]
    exact hnext.2

/-! What the other moves leave alone. -/

/-- The staged conversations and messages, the conversation being staged and the messages that
wait are as they were. -/
structure Frame (st st' : Stage) : Prop where
  conversations : st'.staging.conversations = st.staging.conversations
  messages : st'.staging.messages = st.staging.messages
  current : st'.current = st.current
  pending : st'.pending = st.pending

theorem Frame.refl (st : Stage) : Frame st st := ⟨rfl, rfl, rfl, rfl⟩

theorem Frame.trans {st₁ : Stage} (h : Frame st st₁) (h' : Frame st₁ st') : Frame st st' :=
  ⟨h'.conversations.trans h.conversations, h'.messages.trans h.messages,
    h'.current.trans h.current, h'.pending.trans h.pending⟩

theorem Waiting.frame {messages : List MessageRecord} (h : Waiting ctx cur names messages st)
    (hframe : Frame st st') : Waiting ctx cur names messages st' where
  current := hframe.current.trans h.current
  pending := by
    rw [hframe.pending]
    exact h.pending
  numbers := by
    obtain ⟨next, hnum, hnext⟩ := h.numbers
    refine ⟨next, hnum.congr hframe.conversations hframe.messages, ?_⟩
    rw [hframe.pending]
    exact hnext

/-- Only the identities differ. -/
def SameRows (st st' : Stage) : Prop := ∃ book handles owners resolved,
  st' = { st with book := book, handles := handles, owners := owners, resolved := resolved }

theorem SameRows.refl (st : Stage) : SameRows st st :=
  ⟨st.book, st.handles, st.owners, st.resolved, rfl⟩

theorem SameRows.trans {st₁ : Stage} (h : SameRows st st₁) (h' : SameRows st₁ st') :
    SameRows st st' := by
  obtain ⟨book₁, handles₁, owners₁, resolved₁, rfl⟩ := h
  obtain ⟨book, handles, owners, resolved, rfl⟩ := h'
  exact ⟨book, handles, owners, resolved, rfl⟩

theorem SameRows.frame (h : SameRows st st') : Frame st st' := by
  obtain ⟨book, handles, owners, resolved, rfl⟩ := h
  exact ⟨rfl, rfl, rfl, rfl⟩

theorem sameRows_resolve {raw : String} {handleType : HandleType} {service : String} {id : Int}
    {cached : Bool} (h : st.resolve ctx raw handleType service = some (st', id, cached)) :
    SameRows st st' := by
  unfold resolve at h
  obtain ⟨⟨book, handles, id', flagged, cached'⟩, -, hdone⟩ := Option.bind_eq_some_iff.mp h
  cases hdone
  exact ⟨book, handles, st.owners, _, rfl⟩

theorem sameRows_ensureContact {handleId : Int} {backupName : Option String}
    (h : st.ensureContact ctx handleId backupName = some st') : SameRows st st' := by
  unfold ensureContact at h
  obtain ⟨book, -, hdone⟩ := Option.bind_eq_some_iff.mp h
  cases hdone
  exact ⟨book, st.handles, st.owners, st.resolved, rfl⟩

theorem sameRows_resolveSender {isFromMe : Bool} {address : Option String}
    {handleType : Option HandleType} {platform : String} {id : Option Int}
    (h : st.resolveSender ctx isFromMe address handleType platform = some (st', id)) :
    SameRows st st' := by
  unfold resolveSender at h
  split at h
  · cases h
    exact SameRows.refl st
  · split at h
    · cases h
      exact SameRows.refl st
    · obtain ⟨⟨st₁, handleId, cached⟩, hres, hrest⟩ := Option.bind_eq_some_iff.mp h
      simp only at hrest
      split at hrest
      · obtain ⟨st₂, hcontact, hdone⟩ := Option.bind_eq_some_iff.mp hrest
        cases hdone
        exact (sameRows_resolve hres).trans (sameRows_ensureContact hcontact)
      · cases hrest
        exact sameRows_resolve hres

theorem sameRows_resolveOwner {address : Option String} {platform : String} {id : Option Int}
    (h : st.resolveOwner ctx address platform = some (st', id)) : SameRows st st' := by
  unfold resolveOwner at h
  split at h
  · cases h
    exact SameRows.refl st
  · split at h
    · cases h
      exact SameRows.refl st
    · obtain ⟨⟨book, handleId, flagged⟩, -, hdone⟩ := Option.bind_eq_some_iff.mp h
      cases hdone
      exact ⟨book, st.handles, _, _, rfl⟩

theorem frame_participant {p : StagedParticipant} (h : st.participant ctx p = some st') :
    Frame st st' := by
  unfold participant at h
  obtain ⟨current, -, hrest⟩ := Option.bind_eq_some_iff.mp h
  simp only at hrest
  split at hrest
  · cases hrest
    exact Frame.refl st
  · obtain ⟨⟨st₁, handleId, cached⟩, hres, hrest⟩ := Option.bind_eq_some_iff.mp hrest
    obtain ⟨st₂, hcontact, hdone⟩ := Option.bind_eq_some_iff.mp hrest
    cases hdone
    have hframe := ((sameRows_resolve hres).trans (sameRows_ensureContact hcontact)).frame
    exact ⟨hframe.conversations, hframe.messages, hframe.current, hframe.pending⟩

theorem frame_tapback {index : Nat} {tap : TapbackRecord} (h : st.tapback ctx index tap = some st') :
    Frame st st' := by
  unfold tapback at h
  obtain ⟨current, -, hrest⟩ := Option.bind_eq_some_iff.mp h
  split at hrest
  · cases hrest
    exact Frame.refl st
  · obtain ⟨⟨st₁, id⟩, hres, hdone⟩ := Option.bind_eq_some_iff.mp hrest
    cases hdone
    have hframe := (sameRows_resolveSender hres).frame
    exact ⟨hframe.conversations, hframe.messages, hframe.current, hframe.pending⟩

/-- A move that stages no conversation, resolves no message and writes no message row. -/
def Aside : Move → Prop
  | .participant _ | .tapback _ _ | .insertTapbacks => True
  | .conversation _ _ | .message _ | .rows _ => False

theorem frame_step {move : Move} (haside : Aside move) (h : st.step ctx move = some st') :
    Frame st st' := by
  cases move with
  | conversation sourceFile c => cases haside
  | participant p => exact frame_participant h
  | message msg => cases haside
  | rows count => cases haside
  | tapback index tap => exact frame_tapback h
  | insertTapbacks =>
    obtain rfl := Option.some.inj h
    exact ⟨rfl, rfl, rfl, rfl⟩

theorem frame_run {moves : List Move} (haside : ∀ move ∈ moves, Aside move)
    (h : st.run ctx moves = some st') : Frame st st' := by
  induction moves generalizing st with
  | nil =>
    obtain rfl := Option.some.inj h
    exact Frame.refl _
  | cons move moves ih =>
    obtain ⟨st₁, hone, hrest⟩ := Option.bind_eq_some_iff.mp h
    exact (frame_step (haside move List.mem_cons_self) hone).trans
      (ih (fun move' hmove' => haside move' (List.mem_cons_of_mem _ hmove')) hrest)

theorem run_append {moves moves' : List Move} :
    st.run ctx (moves ++ moves') = (st.run ctx moves).bind (fun st => st.run ctx moves') :=
  List.foldlM_append

/-! One conversation. -/

/-- A chunk flushed. -/
theorem flush_waiting {chunk : List (MessageRecord × Nat)} {messages : List MessageRecord}
    (hwait : Waiting ctx cur names (chunk.map Prod.fst ++ messages) st)
    (h : st.run ctx (flushMoves chunk) = some st') :
    Waiting ctx cur (names ++ namesOf cur.source (chunk.map Prod.fst)) messages st' := by
  obtain ⟨st₁, hrows, hrest⟩ := Option.bind_eq_some_iff.mp h
  have haside : ∀ move ∈ chunk.flatMap (fun row => row.1.tapbacks.map (Move.tapback row.2)) ++
      [Move.insertTapbacks], Aside move := by
    intro move hmove
    obtain hmove | hmove := List.mem_append.mp hmove
    · obtain ⟨row, -, hmove⟩ := List.mem_flatMap.mp hmove
      obtain ⟨tap, -, rfl⟩ := List.mem_map.mp hmove
      trivial
    · obtain rfl := List.mem_singleton.mp hmove
      trivial
  have hwritten := rows_waiting hwait hrows
  have hlength : chunk.length = (chunk.map Prod.fst).length := (List.length_map _).symm
  rw [hlength, List.take_left, List.drop_left] at hwritten
  exact hwritten.frame (frame_run haside hrest)

/-- Every chunk flushed. -/
theorem flushes_waiting {chunks : List (List (MessageRecord × Nat))}
    (hwait : Waiting ctx cur names (chunks.flatten.map Prod.fst) st)
    (h : st.run ctx (chunks.flatMap flushMoves) = some st') :
    Waiting ctx cur (names ++ namesOf cur.source (chunks.flatten.map Prod.fst)) [] st' := by
  induction chunks generalizing st names with
  | nil =>
    obtain rfl := Option.some.inj h
    show Waiting ctx cur (names ++ []) [] _
    rw [List.append_nil]
    exact hwait
  | cons chunk chunks ih =>
    rw [List.flatMap_cons, run_append] at h
    obtain ⟨st₁, hone, hrest⟩ := Option.bind_eq_some_iff.mp h
    rw [List.flatten_cons, List.map_append] at hwait
    have hdone := ih (flush_waiting hwait hone) hrest
    rw [List.append_assoc] at hdone
    rw [List.flatten_cons, List.map_append, namesOf, List.map_append]
    exact hdone

/-- A conversation's messages resolved so far, numbered from its first number on. -/
structure Resolving (ctx : ImportContext) (cur : Current) (names : List MessageName)
    (messages : List MessageRecord) (st : Stage) : Prop where
  current : st.current = some cur
  pending : st.pending.map PendingStagingMessage.msg = messages
  numbering : Numbering ctx.accountId ctx.db cur names cur.firstSortOrder st.staging
  numbered : Numbered cur.firstSortOrder st.pending

theorem Resolving.waiting {messages : List MessageRecord} (h : Resolving ctx cur names messages st) :
    Waiting ctx cur names messages st :=
  ⟨h.current, h.pending, cur.firstSortOrder, h.numbering, h.numbered⟩

theorem message_eq_some {msg : MessageRecord} (h : st.message ctx msg = some st') :
    ∃ current st₂ p, st.current = some current ∧ Frame st st₂ ∧ p.msg = msg ∧
      p.sortOrder = current.firstSortOrder + st₂.pending.length ∧
      st' = { st₂ with pending := st₂.pending ++ [p] } := by
  unfold message at h
  obtain ⟨current, hcurrent, h⟩ := Option.bind_eq_some_iff.mp h
  obtain ⟨⟨st₁, sender⟩, hsender, hrest⟩ := Option.bind_eq_some_iff.mp h
  obtain ⟨⟨st₂, owner⟩, howner, hdone⟩ := Option.bind_eq_some_iff.mp hrest
  cases hdone
  have hframe := ((sameRows_resolveSender hsender).trans (sameRows_resolveOwner howner)).frame
  exact ⟨current, st₂, _, hcurrent, hframe, rfl, rfl, rfl⟩

theorem message_resolving {messages : List MessageRecord} {msg : MessageRecord}
    (hres : Resolving ctx cur names messages st) (h : st.message ctx msg = some st') :
    Resolving ctx cur names (messages ++ [msg]) st' := by
  obtain ⟨current, st₂, p, hcurrent, hframe, hmsg, hnumber, rfl⟩ := message_eq_some h
  obtain rfl : cur = current := Option.some.inj (hres.current.symm.trans hcurrent)
  refine ⟨hframe.current.trans hres.current, ?_, ?_, ?_⟩
  · rw [List.map_append, hframe.pending, hres.pending, List.map_singleton, hmsg]
  · exact hres.numbering.congr hframe.conversations hframe.messages
  · rw [hframe.pending] at hnumber ⊢
    exact numbered_append.mpr ⟨hres.numbered, hnumber, trivial⟩

/-- Every message resolved. -/
theorem messages_resolving {done messages : List MessageRecord}
    (hres : Resolving ctx cur names done st)
    (h : st.run ctx (messages.map .message) = some st') :
    Resolving ctx cur names (done ++ messages) st' := by
  unfold Stage.run at h
  rw [List.foldlM_map] at h
  exact Runs.foldlM_keeps (I := fun done st => Resolving ctx cur names done st)
    (fun _ _ _ _ hres hone => message_resolving hres hone) hres h

end Stage

/-! The start of a numbering. -/

theorem le_max?_of_mem {l : List Int} {x : Int} (h : x ∈ l) : ∃ m, l.max? = some m ∧ x ≤ m := by
  cases hmax : l.max? with
  | none => exact absurd (List.max?_eq_none_iff.mp hmax) (List.ne_nil_of_mem h)
  | some m => exact ⟨m, rfl, (List.max?_eq_some_iff.mp hmax).2 x h⟩

section
variable {accountId chatHandleId : Int} {db : Db} {names : List MessageName} {s : Staging}

theorem lt_firstSortOrder_stored {m : MessageRow} (hm : m ∈ db.messages.rows)
    (hin : db.InChat accountId chatHandleId m) :
    m.sortOrder < firstSortOrder accountId chatHandleId db s := by
  have hmem : m.sortOrder ∈ (db.messages.rows.filter (fun m => db.conversations.rows.any (fun c =>
      c.id = m.conversationId ∧ c.accountId = accountId ∧ c.chatHandleId = chatHandleId))).map
        MessageRow.sortOrder := by
    refine List.mem_map_of_mem (List.mem_filter.mpr ⟨hm, ?_⟩)
    obtain ⟨c, hc, hkey⟩ := hin
    exact List.any_eq_true.mpr ⟨c, hc, decide_eq_true hkey⟩
  obtain ⟨last, hlast, hle⟩ := le_max?_of_mem (List.mem_append_left
    ((s.messages.rows.filter (fun m => s.conversations.rows.any (fun c =>
      c.id = m.conversationId ∧ c.accountId = accountId ∧ c.chatHandleId = chatHandleId))).map
        StagingMessageRow.sortOrder) hmem)
  unfold firstSortOrder
  simp only [hlast]
  omega

theorem lt_firstSortOrder_staged {r : StagingMessageRow} (hr : r ∈ s.messages.rows)
    {c : ConversationRow} (hc : c ∈ s.conversations.rows) (hid : c.id = r.conversationId)
    (hacc : c.accountId = accountId) (hchat : c.chatHandleId = chatHandleId) :
    r.sortOrder < firstSortOrder accountId chatHandleId db s := by
  have hmem : r.sortOrder ∈ (s.messages.rows.filter (fun m => s.conversations.rows.any (fun c =>
      c.id = m.conversationId ∧ c.accountId = accountId ∧ c.chatHandleId = chatHandleId))).map
        StagingMessageRow.sortOrder := by
    refine List.mem_map_of_mem (List.mem_filter.mpr ⟨hr, ?_⟩)
    exact List.any_eq_true.mpr ⟨c, hc, decide_eq_true ⟨hid, hacc, hchat⟩⟩
  obtain ⟨last, hlast, hle⟩ := le_max?_of_mem (List.mem_append_right
    ((db.messages.rows.filter (fun m => db.conversations.rows.any (fun c =>
      c.id = m.conversationId ∧ c.accountId = accountId ∧ c.chatHandleId = chatHandleId))).map
        MessageRow.sortOrder) hmem)
  unfold firstSortOrder
  simp only [hlast]
  omega

/-- A conversation row after an upsert was there, under its key, or has a fresh rowid. -/
theorem upsert_origin {u : Upsert ConversationRow} {t : Table ConversationRow} {c : ConversationRow}
    (hc : c ∈ (t.upsert u).rows) :
    (∃ c₀ ∈ t.rows, c₀.id = c.id ∧ c₀.accountId = c.accountId ∧ c₀.chatHandleId = c.chatHandleId) ∨
      c.id = t.nextId := by
  rw [rows_upsert] at hc
  split at hc
  · left
    obtain ⟨c₀, hc₀, rfl⟩ := List.mem_map.mp hc
    have hid : (u.onKey.apply c₀).id = c₀.id := u.onKey.id_apply c₀
    have hkey : some ((u.onKey.apply c₀).accountId, (u.onKey.apply c₀).chatHandleId) =
        some (c₀.accountId, c₀.chatHandleId) := by
      show Row.key (if Row.key c₀ = u.new.key then u.change.apply c₀ else c₀) = Row.key c₀
      split
      · exact u.keeps c₀
      · rfl
    simp only [Option.some.injEq, Prod.mk.injEq] at hkey
    exact ⟨c₀, hc₀, hid.symm, hkey.1.symm, hkey.2.symm⟩
  · obtain hc | hc := List.mem_append.mp hc
    · exact .inl ⟨c, hc, rfl, rfl, rfl⟩
    · right
      obtain rfl := List.mem_singleton.mp hc
      exact u.new.id_row t.nextId

theorem exists_mem_upsert (u : Upsert ConversationRow) {t : Table ConversationRow}
    {c : ConversationRow} (hc : c ∈ t.rows) : ∃ c' ∈ (t.upsert u).rows, c'.id = c.id ∧
      c'.accountId = c.accountId ∧ c'.chatHandleId = c.chatHandleId := by
  obtain ⟨c', hc', hid, hkey⟩ := exists_mem_upsertAll [u] hc
  have hkey : some (c'.accountId, c'.chatHandleId) = some (c.accountId, c.chatHandleId) := hkey
  simp only [Option.some.injEq, Prod.mk.injEq] at hkey
  exact ⟨c', hc', hid, hkey.1, hkey.2⟩

/-- Another header's conversation changes no message's place. -/
theorem Staging.InOrder.upsert (h : s.InOrder accountId db names) (u : Upsert ConversationRow) :
    ({ s with conversations := s.conversations.upsert u } : Staging).InOrder accountId db names where
  conversation r hr := by
    obtain ⟨c, hc, hid, hacc⟩ := h.conversation r hr
    obtain ⟨c', hc', hid', hacc', -⟩ := exists_mem_upsert u hc
    exact ⟨c', hc', hid'.trans hid, hacc'.trans hacc⟩
  held := h.held
  named := h.named
  ascending := h.ascending
  above r hr c hc hid m hm hin := by
    obtain ⟨c₁, hc₁, hid₁, -⟩ := h.conversation r hr
    obtain ⟨c₀, hc₀, hid₀, -, hchat⟩ | hfresh := upsert_origin hc
    · rw [← hchat] at hin
      exact h.above r hr c₀ hc₀ (hid₀.trans hid) m hm hin
    · exact absurd (hid₁.trans (hid.symm.trans hfresh)) (id_ne_nextId hc₁)

end

namespace Stage
variable {ctx : ImportContext} {st st' : Stage} {names : List MessageName}

/-- A header is staged on its handle, and the messages written so far stay. -/
theorem conversation_eq_some {sourceFile : String} {c : StagedConversation}
    (h : st.conversation ctx sourceFile c = some st') :
    ∃ st₂ chatHandleId row, Frame st st₂ ∧
      (st₂.staging.conversations.upsert (stagedConversation ctx.accountId chatHandleId sourceFile
        c)).find? (ctx.accountId, chatHandleId) = some row ∧
      st' = { st₂ with
        staging := { st₂.staging with
          conversations := st₂.staging.conversations.upsert
            (stagedConversation ctx.accountId chatHandleId sourceFile c) }
        current := some {
          conversationId := row.id
          source := c.source
          platform := c.platform
          headerTypes := headerHandleTypes c.participants
          firstSortOrder := firstSortOrder ctx.accountId chatHandleId ctx.db
            { st₂.staging with
              conversations := st₂.staging.conversations.upsert
                (stagedConversation ctx.accountId chatHandleId sourceFile c) } }
        pending := []
        inserted := []
        taps := [] } := by
  unfold conversation at h
  obtain ⟨⟨st₁, chatHandleId, cached⟩, hres, hrest⟩ := Option.bind_eq_some_iff.mp h
  obtain ⟨st₂, hframe, row, hrow, hdone⟩ : ∃ st₂, Frame st st₂ ∧ ∃ row,
      (st₂.staging.conversations.upsert (stagedConversation ctx.accountId chatHandleId sourceFile
        c)).find? (ctx.accountId, chatHandleId) = some row ∧ _ := by
    simp only at hrest
    split at hrest
    · obtain ⟨st₂, hcontact, hrest⟩ := Option.bind_eq_some_iff.mp hrest
      exact ⟨st₂, ((sameRows_resolve hres).trans (sameRows_ensureContact hcontact)).frame,
        Option.bind_eq_some_iff.mp hrest⟩
    · exact ⟨st₁, (sameRows_resolve hres).frame, Option.bind_eq_some_iff.mp hrest⟩
  exact ⟨st₂, chatHandleId, row, hframe, hrow, (Option.some.inj hdone).symm⟩

/-- A header: nothing is resolved yet, and the numbers start where they are free. -/
theorem conversation_resolving {sourceFile : String} {c : StagedConversation}
    (hin : st.staging.InOrder ctx.accountId ctx.db names)
    (h : st.conversation ctx sourceFile c = some st') :
    ∃ cur, cur.source = c.source ∧ Resolving ctx cur names [] st' := by
  obtain ⟨st₂, chatHandleId, row, hframe, hrow, rfl⟩ := conversation_eq_some h
  obtain ⟨hmem, hkey⟩ := find?_eq_some.mp hrow
  have hkey : some (row.accountId, row.chatHandleId) = some (ctx.accountId, chatHandleId) := hkey
  simp only [Option.some.injEq, Prod.mk.injEq] at hkey
  have hin₂ := (hin.congr hframe.conversations hframe.messages).upsert
    (stagedConversation ctx.accountId chatHandleId sourceFile c)
  refine ⟨_, rfl, rfl, rfl, ⟨hin₂, ⟨row, hmem, rfl, hkey.1⟩, ?_, ?_⟩, trivial⟩
  · intro r hr hcur
    exact lt_firstSortOrder_staged hr hmem hcur.symm hkey.1 hkey.2
  · intro c' hc' hcur m hm hin'
    have hsame : c' = row := Table.eq_of_id_eq hc' hmem hcur
    rw [hsame, hkey.2] at hin'
    exact lt_firstSortOrder_stored hm hin'

/-- **One header and its messages.** -/
theorem stageMoves_inOrder {sourceFile : String} {c : StagedConversation}
    {messages : List MessageRecord} (hin : st.staging.InOrder ctx.accountId ctx.db names)
    (h : st.run ctx (stageMoves sourceFile c messages) = some st') :
    st'.staging.InOrder ctx.accountId ctx.db (names ++ namesOf c.source messages) := by
  unfold stageMoves at h
  rw [List.append_assoc] at h
  obtain ⟨st₁, hconv, hrest⟩ := Option.bind_eq_some_iff.mp h
  obtain ⟨cur, hsource, hres⟩ := conversation_resolving hin hconv
  have hrest : st₁.run ctx (c.participants.map .participant ++ (messages.map .message ++
    (messages.zipIdx.toChunks messageChunkRows).flatMap flushMoves)) = some st' := hrest
  rw [run_append] at hrest
  obtain ⟨st₂, hpart, hrest⟩ := Option.bind_eq_some_iff.mp hrest
  rw [run_append] at hrest
  obtain ⟨st₃, hmsgs, hflush⟩ := Option.bind_eq_some_iff.mp hrest
  have hframe : Frame st₁ st₂ := by
    refine frame_run (fun move hmove => ?_) hpart
    obtain ⟨p, -, rfl⟩ := List.mem_map.mp hmove
    trivial
  have hres₂ : Resolving ctx cur names [] st₂ := by
    refine ⟨hframe.current.trans hres.current, ?_,
      hres.numbering.congr hframe.conversations hframe.messages, ?_⟩
    · rw [hframe.pending]
      exact hres.pending
    · rw [hframe.pending]
      exact hres.numbered
  have hwait := (messages_resolving hres₂ hmsgs).waiting
  have hwhole : ((messages.zipIdx.toChunks messageChunkRows).flatten).map Prod.fst = messages := by
    rw [Packing.flatten_toChunks, List.zipIdx_map_fst]
  rw [List.nil_append, ← hwhole] at hwait
  have hdone := flushes_waiting hwait hflush
  rw [hwhole, hsource] at hdone
  exact hdone.inOrder

/-- One file. -/
theorem importFileMoves_inOrder {sourceFile : String} {records : List ExportRecord}
    (hin : st.staging.InOrder ctx.accountId ctx.db names)
    (h : st.run ctx (importFileMoves sourceFile records) = some st') :
    st'.staging.InOrder ctx.accountId ctx.db (names ++ carriedBy records) := by
  unfold importFileMoves Stage.run at h
  rw [Runs.foldlM_flatMap] at h
  have hstart : st.staging.InOrder ctx.accountId ctx.db (names ++
      ([] : List (StagedConversation × List MessageRecord)).flatMap
        (fun p => namesOf p.1.source p.2)) := by
    rw [List.flatMap_nil, List.append_nil]
    exact hin
  refine Runs.foldlM_keeps (I := fun done st => st.staging.InOrder ctx.accountId ctx.db
    (names ++ done.flatMap (fun p => namesOf p.1.source p.2))) ?_ hstart h
  intro done st p st' hin hone
  rw [List.flatMap_append, List.flatMap_singleton, ← List.append_assoc]
  exact stageMoves_inOrder hin hone

/-- **Every file of a batch.** -/
theorem staged_inOrder {book : Book} {files : List (String × List ExportRecord)}
    (h : (Stage.start book).run ctx (stageAllFiles files) = some st') :
    st'.staging.InOrder ctx.accountId ctx.db (files.flatMap (fun file => carriedBy file.2)) := by
  unfold stageAllFiles Stage.run at h
  rw [Runs.foldlM_flatMap] at h
  have hstart : (Stage.start book).staging.InOrder ctx.accountId ctx.db
      (([] : List (String × List ExportRecord)).flatMap (fun file => carriedBy file.2)) :=
    inOrder_empty
  refine Runs.foldlM_keeps (I := fun done st => st.staging.InOrder ctx.accountId ctx.db
    (done.flatMap (fun file => carriedBy file.2))) ?_ hstart h
  intro done st file st' hin hone
  rw [List.flatMap_append, List.flatMap_singleton]
  exact importFileMoves_inOrder hin hone

end Stage

/-! A batch promoted. -/

/-- What is stored of an account's conversation on a handle, after the messages of `names` were
appended: they are stored, and those of the conversation are numbered as `names` first has them. -/
structure Db.InOrder (accountId chatHandleId : Int) (names : List MessageName) (db : Db) : Prop where
  owned : db.Owned
  held : ∀ name ∈ names, db.messages.holds (some (accountId, name)) = true
  named : ∀ m ∈ db.messages.rows, db.InChat accountId chatHandleId m →
    ∃ name ∈ names, m.guidKey = some (accountId, name)
  ascending : ∀ m ∈ db.messages.rows, ∀ m' ∈ db.messages.rows,
    db.InChat accountId chatHandleId m → db.InChat accountId chatHandleId m' →
    ∀ name name', m.guidKey = some (accountId, name) → m'.guidKey = some (accountId, name') →
      names.idxOf name < names.idxOf name' → m.sortOrder < m'.sortOrder

theorem MessageRow.SameBut.sortOrder_eq {m m₀ : MessageRow} (h : m.SameBut m₀) :
    m.sortOrder = m₀.sortOrder := by
  rw [← h]

theorem MessageRow.SameBut.guidKey_eq {m m₀ : MessageRow} (h : m.SameBut m₀) :
    m.guidKey = m₀.guidKey := by
  rw [← h]
  rfl

section
variable {sha256Hex : ByteArray → String} {rfc3339Secs : String → Option Int} {handles : Handles}
  {w : Walk} {fillContentKeys : Bool} {accountId chatHandleId : Int} {s : Staging} {db db' : Db}
  {stats : PromoteStats} {names batch : List MessageName}

/-- Where a stored message of a conversation comes from: it was stored before, in the same
conversation, or it is a staged one that was not. -/
theorem promoteAppend_inChat
    (h : promoteAppend sha256Hex rfc3339Secs handles w .append accountId fillContentKeys [] s db =
      some (db', stats)) (ho : db.Owned) {m : MessageRow} (hm : m ∈ db'.messages.rows)
    (hin : db'.InChat accountId chatHandleId m) :
    (∃ m₀ ∈ db.messages.rows, m.SameBut m₀ ∧ db.InChat accountId chatHandleId m₀) ∨
      ∃ r ∈ s.messages.rows, ∃ c ∈ s.conversations.rows, c.id = r.conversationId ∧
        c.accountId = accountId ∧ c.chatHandleId = chatHandleId ∧
        m.guidKey = some (accountId, r.source, r.guid) ∧ m.sortOrder = r.sortOrder ∧
        db.messages.holds (some (accountId, r.source, r.guid)) = false := by
  obtain ⟨db₁, db₂, msgMap, keys, hdb₁, hp, hconv, hkeys, -, -⟩ := promoteAppend_parts h
  obtain rfl : db₁ = db := hdb₁
  obtain ⟨c', hc', hcid, hcacc, hchat⟩ := hin
  rw [hconv] at hc'
  rw [hkeys] at hm
  obtain ⟨m₂, hm₂, rfl⟩ := List.mem_map.mp hm
  have hsame := sameBut_rekey keys m₂
  rw [hsame.conversationId_eq] at hcid
  obtain ⟨added, hrows, hadded⟩ := hp.added
  have hm₂' := hm₂
  rw [hrows] at hm₂'
  obtain hold | hnew := List.mem_append.mp hm₂'
  · left
    refine ⟨m₂, hold, hsame, ?_⟩
    obtain ⟨c, hc, hid, -⟩ := ho m₂ hold
    obtain ⟨c₁, hc₁, hid₁, hkey⟩ := exists_mem_upsertAll
      ((w.order (s.conversationsOf accountId)).map ConversationRow.upsert) hc
    rw [← hp.conversations] at hc₁
    have hsameconv : c₁ = c' := Table.eq_of_id_eq hc₁ hc' (Eq.trans hid₁ (hid.trans hcid.symm))
    have hkey : some (c₁.accountId, c₁.chatHandleId) = some (c.accountId, c.chatHandleId) := hkey
    simp only [Option.some.injEq, Prod.mk.injEq] at hkey
    rw [hsameconv] at hkey
    exact ⟨c, hc, hid, hkey.1.symm.trans hcacc, hkey.2.symm.trans hchat⟩
  · right
    obtain ⟨habove, ⟨r, prodId⟩, hstaged, hrow⟩ := hadded m₂ hnew
    obtain ⟨hr, hracc, hlookup⟩ := mem_stagedMessages.mp hstaged
    obtain ⟨sc, hsc, hscid, c, hc, hscacc, hscchat, hprod⟩ := lookup_convMap.mp hlookup
    have hmconv : m₂.conversationId = prodId := by
      rw [hrow]
      rfl
    have hsameconv : c = c' :=
      Table.eq_of_id_eq hc hc' (Eq.trans hprod (hmconv.symm.trans hcid.symm))
    have hkey : m₂.guidKey = some (accountId, r.source, r.guid) := by
      rw [hrow, ← hracc]
      exact (r.promoted prodId).key_row m₂.id
    refine ⟨r, hr, sc, (List.mem_filter.mp hsc).1, hscid, ?_, ?_, ?_, ?_, ?_⟩
    · rw [← hscacc, hsameconv]
      exact hcacc
    · rw [← hscchat, hsameconv]
      exact hchat
    · exact hsame.guidKey_eq.trans hkey
    · rw [hsame.sortOrder_eq, hrow]
      rfl
    · -- A row of that name would be the new one, and its rowid is fresh.
      apply Bool.eq_false_iff.mpr
      intro hheld
      obtain ⟨m₀, hm₀, v, hv, hkey₀⟩ := holds_iff.mp hheld
      obtain rfl := Option.some.inj hv
      have hm₀' : m₀ ∈ db₂.messages.rows := by
        rw [hrows]
        exact List.mem_append_left _ hm₀
      have hone := eq_of_key_eq hm₀' hm₂ hkey₀ hkey
      have hle : m₀.id ≤ db₁.messages.maxId := id_le_maxId hm₀
      rw [hone] at hle
      omega

/-- **One batch.** -/
theorem Db.InOrder.append (hdb : db.InOrder accountId chatHandleId names)
    (hs : s.InOrder accountId db batch)
    (h : promoteAppend sha256Hex rfc3339Secs handles w .append accountId fillContentKeys [] s db =
      some (db', stats)) : db'.InOrder accountId chatHandleId (names ++ batch) := by
  have horigin : ∀ m ∈ db'.messages.rows, db'.InChat accountId chatHandleId m →
      (∃ m₀ ∈ db.messages.rows, m.SameBut m₀ ∧ db.InChat accountId chatHandleId m₀) ∨ _ :=
    fun m hm hin => promoteAppend_inChat h hdb.owned hm hin
  -- A message that was stored before has its name among the old ones, a new one has not.
  have hold : ∀ {m₀ : MessageRow} {name : MessageName}, m₀ ∈ db.messages.rows →
      db.InChat accountId chatHandleId m₀ → m₀.guidKey = some (accountId, name) →
        name ∈ names := by
    intro m₀ name hm₀ hin hkey
    obtain ⟨name', hname', hkey'⟩ := hdb.named m₀ hm₀ hin
    obtain rfl : name = name' := congrArg Prod.snd (Option.some.inj (hkey.symm.trans hkey'))
    exact hname'
  have hnew : ∀ {name : MessageName}, db.messages.holds (some (accountId, name)) = false →
      name ∉ names := by
    intro name hfree hname
    rw [hdb.held name hname] at hfree
    cases hfree
  constructor
  · exact promoteAppend_owned h hdb.owned
  · intro name hname
    obtain hname | hname := List.mem_append.mp hname
    · obtain ⟨m, hm, v, hv, hkey⟩ := holds_iff.mp (hdb.held name hname)
      obtain ⟨m', hm', hsame, -⟩ := promoteAppend_keeps h hdb.owned hm fun _ _ => List.not_mem_nil
      exact holds_iff.mpr ⟨m', hm', v, hv, hsame.guidKey_eq.trans hkey⟩
    · obtain ⟨r, hr, v, hv, hkey⟩ := holds_iff.mp (hs.held name hname)
      obtain rfl := Option.some.inj hv
      have hkey : some (r.accountId, r.source, r.guid) = some (accountId, name) := hkey
      obtain ⟨c, hc, hid, hacc⟩ := hs.conversation r hr
      have hmine : c ∈ s.conversationsOf accountId := List.mem_filter.mpr ⟨hc, decide_eq_true hacc⟩
      obtain ⟨m, hm, hmkey⟩ := promoteAppend_holds h hr (hs.named r hr).1 ⟨c, hmine, hid⟩
      exact holds_iff.mpr ⟨m, hm, _, rfl, hmkey.trans hkey⟩
  · intro m hm hin
    obtain ⟨m₀, hm₀, hsame, hin₀⟩ | ⟨r, hr, c, hc, hid, hacc, hchat, hkey, -⟩ := horigin m hm hin
    · obtain ⟨name, hname, hkey⟩ := hdb.named m₀ hm₀ hin₀
      exact ⟨name, List.mem_append_left _ hname, hsame.guidKey_eq.trans hkey⟩
    · exact ⟨_, List.mem_append_right _ (hs.named r hr).2, hkey⟩
  · intro m hm m' hm' hin hin' name name' hkey hkey' hlt
    obtain ⟨m₀, hm₀, hsame, hin₀⟩ | ⟨r, hr, c, hc, hid, hacc, hchat, hrkey, hsort, hfree⟩ :=
      horigin m hm hin
    · have hkey₀ := hsame.guidKey_eq.symm.trans hkey
      have hname := hold hm₀ hin₀ hkey₀
      rw [List.idxOf_append_of_mem hname] at hlt
      obtain ⟨m₀', hm₀', hsame', hin₀'⟩ | ⟨r', hr', c', hc', hid', hacc', hchat', -, hsort', -⟩ :=
        horigin m' hm' hin'
      · have hkey₀' := hsame'.guidKey_eq.symm.trans hkey'
        rw [List.idxOf_append_of_mem (hold hm₀' hin₀' hkey₀')] at hlt
        rw [hsame.sortOrder_eq, hsame'.sortOrder_eq]
        exact hdb.ascending m₀ hm₀ m₀' hm₀' hin₀ hin₀' name name' hkey₀ hkey₀' hlt
      · rw [hsame.sortOrder_eq, hsort']
        rw [← hchat'] at hin₀
        exact hs.above r' hr' c' hc' hid' m₀ hm₀ hin₀
    · obtain rfl : (r.source, r.guid) = name :=
        congrArg Prod.snd (Option.some.inj (hrkey.symm.trans hkey))
      rw [List.idxOf_append_of_notMem (hnew hfree)] at hlt
      obtain ⟨m₀', hm₀', hsame', hin₀'⟩ | ⟨r', hr', c', hc', hid', hacc', hchat', hrkey', hsort',
        hfree'⟩ := horigin m' hm' hin'
      · have hname' := hold hm₀' hin₀' (hsame'.guidKey_eq.symm.trans hkey')
        rw [List.idxOf_append_of_mem hname'] at hlt
        have := List.idxOf_lt_length_iff.mpr hname'
        omega
      · obtain rfl : (r'.source, r'.guid) = name' :=
          congrArg Prod.snd (Option.some.inj (hrkey'.symm.trans hkey'))
        rw [List.idxOf_append_of_notMem (hnew hfree')] at hlt
        have hsameconv : c = c' := by
          refine eq_of_key_eq hc hc' (k := (accountId, chatHandleId)) ?_ ?_
          · exact congrArg some (congrArg₂ Prod.mk hacc hchat)
          · exact congrArg some (congrArg₂ Prod.mk hacc' hchat')
        have hconv : r.conversationId = r'.conversationId := by
          rw [← hid, ← hid', hsameconv]
        rw [hsort, hsort']
        exact hs.ascending r hr r' hr' hconv (by omega)

end

/-! Any number of batches. -/

/-- An append batch: the files it carries, and what the server holds when it takes them. -/
structure AppendBatch where
  toLowercase : String → String
  importWalk : Walk
  importId : Option Int
  identities : List (String × HandleType)
  book : Book
  files : List (String × List ExportRecord)
  handles : Handles
  promoteWalk : Walk
  fillContentKeys : Bool

section
variable (sha256Hex : ByteArray → String) (rfc3339Secs : String → Option Int) (accountId : Int)

/-- A batch staged and promoted; `none` when it fails, and nothing of it is kept. -/
def appendBatch (db : Db) (batch : AppendBatch) : Option Db := do
  let ctx : ImportContext := {
    toLowercase := batch.toLowercase
    walk := batch.importWalk
    accountId := accountId
    importId := batch.importId
    identities := batch.identities
    db := db }
  let st ← (Stage.start batch.book).run ctx (stageAllFiles batch.files)
  let (db, _) ← promoteAppend sha256Hex rfc3339Secs batch.handles batch.promoteWalk .append
    accountId batch.fillContentKeys [] st.staging db
  return db

end

/-- The messages of batches, in the order the source has them. -/
def carried (batches : List AppendBatch) : List MessageName :=
  batches.flatMap (fun batch => batch.files.flatMap (fun file => carriedBy file.2))

/-- The place a stored message's name first has. -/
def MessageRow.firstPlace (names : List MessageName) (m : MessageRow) : Nat :=
  names.findIdx (fun name => m.source = name.1 ∧ m.guid = some name.2)

/-- The messages of `names` are stored, and the conversation keeps the source's order: no two of its
messages have one number, of two messages the one that `names` has first has the smaller, and
reading by timestamp and number is reading messages of one timestamp in the order of `names`. -/
structure KeepsSourceOrder (accountId chatHandleId : Int) (names : List MessageName) (db : Db) :
    Prop where
  held : ∀ name ∈ names, db.messages.holds (some (accountId, name)) = true
  distinct : ∀ m ∈ db.messages.rows, ∀ m' ∈ db.messages.rows, db.InChat accountId chatHandleId m →
    db.InChat accountId chatHandleId m' → m.sortOrder = m'.sortOrder → m = m'
  first : ∀ m ∈ db.messages.rows, ∀ m' ∈ db.messages.rows, db.InChat accountId chatHandleId m →
    db.InChat accountId chatHandleId m' →
      (m.sortOrder < m'.sortOrder ↔ m.firstPlace names < m'.firstPlace names)
  read : ∀ page : List MessageRow, page.Nodup →
    (∀ m ∈ page, m ∈ db.messages.rows ∧ db.InChat accountId chatHandleId m) →
    page.Pairwise (fun m m' => m.timestamp < m'.timestamp ∨
      (m.timestamp = m'.timestamp ∧ m.sortOrder ≤ m'.sortOrder)) →
    page.Pairwise (fun m m' => m.timestamp = m'.timestamp →
      m.firstPlace names < m'.firstPlace names)

section
variable {sha256Hex : ByteArray → String} {rfc3339Secs : String → Option Int}
  {accountId chatHandleId : Int} {db db' : Db} {names : List MessageName}

theorem firstPlace_eq {m : MessageRow} {name : MessageName}
    (h : m.guidKey = some (accountId, name)) : m.firstPlace names = names.idxOf name := by
  have hname : m.source = name.1 ∧ m.guid = some name.2 := by
    unfold MessageRow.guidKey at h
    split at h
    · next guid hguid =>
      split at h
      · have h := Option.some.inj h
        rw [Prod.mk.injEq] at h
        exact ⟨congrArg Prod.fst h.2, hguid.trans (congrArg some (congrArg Prod.snd h.2))⟩
      · cases h
    · cases h
  unfold MessageRow.firstPlace List.idxOf
  congr 1
  funext name'
  rw [Bool.eq_iff_iff, decide_eq_true_iff, beq_iff_eq, hname.1, hname.2, Option.some.injEq,
    Prod.ext_iff]
  exact ⟨fun h => ⟨h.1.symm, h.2.symm⟩, fun h => ⟨h.1.symm, h.2.symm⟩⟩

theorem Db.InOrder.keepsSourceOrder (h : db.InOrder accountId chatHandleId names) :
    KeepsSourceOrder accountId chatHandleId names db := by
  -- Two messages of the conversation are one, or one of them is first.
  have hapart : ∀ m ∈ db.messages.rows, ∀ m' ∈ db.messages.rows,
      db.InChat accountId chatHandleId m → db.InChat accountId chatHandleId m' →
        m = m' ∨ (m.sortOrder < m'.sortOrder ∧ m.firstPlace names < m'.firstPlace names) ∨
          (m'.sortOrder < m.sortOrder ∧ m'.firstPlace names < m.firstPlace names) := by
    intro m hm m' hm' hin hin'
    obtain ⟨name, hname, hkey⟩ := h.named m hm hin
    obtain ⟨name', hname', hkey'⟩ := h.named m' hm' hin'
    rw [firstPlace_eq hkey, firstPlace_eq hkey']
    obtain hlt | heq | hgt := Nat.lt_trichotomy (names.idxOf name) (names.idxOf name')
    · exact .inr (.inl ⟨h.ascending m hm m' hm' hin hin' name name' hkey hkey' hlt, hlt⟩)
    · have hsame : name = name' := (List.idxOf_inj hname).mp heq
      exact .inl (eq_of_key_eq hm hm' hkey (hsame ▸ hkey'))
    · exact .inr (.inr ⟨h.ascending m' hm' m hm hin' hin name' name hkey' hkey hgt, hgt⟩)
  refine ⟨h.held, ?_, ?_, ?_⟩
  · intro m hm m' hm' hin hin' heq
    obtain hsame | hless | hless := hapart m hm m' hm' hin hin'
    · exact hsame
    · omega
    · omega
  · intro m hm m' hm' hin hin'
    obtain hsame | hless | hless := hapart m hm m' hm' hin hin'
    · rw [hsame]
      omega
    · omega
    · omega
  · intro page hnodup hpage hread
    refine (hnodup.and hread).imp_of_mem ?_
    rintro m m' hm hm' ⟨hne, hread⟩ htime
    obtain ⟨hmem, hin⟩ := hpage m hm
    obtain ⟨hmem', hin'⟩ := hpage m' hm'
    obtain hbefore | ⟨-, hle⟩ := hread
    · rw [htime] at hbefore
      exact absurd hbefore (lt_irrefl _)
    · obtain hsame | hless | hless := hapart m hmem m' hmem' hin hin'
      · exact absurd hsame hne
      · exact hless.2
      · omega

theorem appendBatch_inOrder {batch : AppendBatch} (hdb : db.InOrder accountId chatHandleId names)
    (h : appendBatch sha256Hex rfc3339Secs accountId db batch = some db') :
    db'.InOrder accountId chatHandleId
      (names ++ batch.files.flatMap (fun file => carriedBy file.2)) := by
  obtain ⟨st, hstaged, hrest⟩ := Option.bind_eq_some_iff.mp h
  obtain ⟨⟨db₁, stats⟩, hpromoted, hdone⟩ := Option.bind_eq_some_iff.mp hrest
  cases hdone
  exact hdb.append (Stage.staged_inOrder hstaged) hpromoted

/-- **Batches keep the source's order**, however the messages are split, headers repeated, chat
ids written and messages sent again. -/
theorem sourceOrder_appendBatches {batches : List AppendBatch} (ho : db.Owned)
    (hnone : ∀ m ∈ db.messages.rows, ¬ db.InChat accountId chatHandleId m)
    (h : batches.foldlM (appendBatch sha256Hex rfc3339Secs accountId) db = some db') :
    KeepsSourceOrder accountId chatHandleId (carried batches) db' := by
  have hstart : db.InOrder accountId chatHandleId (carried []) := by
    refine ⟨ho, fun name hname => ?_, fun m hm hin => absurd hin (hnone m hm), ?_⟩
    · cases hname
    · exact fun m hm m' hm' hin => absurd hin (hnone m hm)
  have hstep : ∀ done (db : Db) batch (db' : Db), db.InOrder accountId chatHandleId (carried done) →
      appendBatch sha256Hex rfc3339Secs accountId db batch = some db' →
        db'.InOrder accountId chatHandleId (carried (done ++ [batch])) := by
    intro done db batch db' hdb hone
    rw [carried, List.flatMap_append, List.flatMap_singleton]
    exact appendBatch_inOrder hdb hone
  have hrun := Runs.foldlM_keeps hstep hstart h
  rw [List.nil_append] at hrun
  exact hrun.keepsSourceOrder

end

/-! Two batches of one conversation. -/

/-- A text of the conversation. -/
def textOf (guid timestamp : String) : MessageRecord where
  guid := guid
  timestamp := timestamp
  isFromMe := true
  sender := none
  senderHandleType := none
  owner := none
  service := none
  subject := none
  text := some guid
  isAnnouncement := false
  announcement := none
  tapbacks := []
  isReply := false
  threadOriginatorGuid := none
  threadOriginatorPart := none
  numReplies := 0

/-- A header of the conversation, under one spelling of its number. -/
def headerOf (chatIdentifier : String) : StagedConversation where
  chatIdentifier := chatIdentifier
  platformService := none
  conversationType := "group"
  groupTitle := none
  exportedAt := none
  participants := []
  source := "sms"

def batchOf (records : List ExportRecord) : AppendBatch where
  toLowercase := id
  importWalk := Walk.inserted
  importId := none
  identities := []
  book := ⟨Table.empty, Table.empty, Table.empty, [], []⟩
  files := [("a.jsonl", records)]
  handles := ⟨fun _ => "", fun _ _ => false⟩
  promoteWalk := Walk.inserted
  fillContentKeys := false

/-- The header comes twice in the first batch, and a message of it again in the second. -/
def twoBatches : List AppendBatch :=
  [batchOf [.conversation (headerOf "a"), .message (textOf "m1" "t"), .conversation (headerOf " a "),
      .message (textOf "m2" "t")],
    batchOf [.conversation (headerOf "a"), .message (textOf "m2" "t"), .message (textOf "m3" "t")]]

theorem sourceOrder_appendBatches_twoBatches :
    ∃ db', twoBatches.foldlM (appendBatch (fun _ => "") (fun _ => none) 1) Db.empty = some db' ∧
      KeepsSourceOrder 1 1 (carried twoBatches) db' := by
  have hsome : (twoBatches.foldlM (appendBatch (fun _ => "") (fun _ => none) 1) Db.empty).isSome =
      true := by decide +kernel
  obtain ⟨db', hrun⟩ := Option.isSome_iff_exists.mp hsome
  exact ⟨db', hrun, sourceOrder_appendBatches (fun m hm => by cases hm) (fun m hm => by cases hm) hrun⟩

end MessageCrate

import MessageCrate.Lib.JsonText
import MessageCrate.Push.Journal
import MessageCrate.Push.JournalBytes

/- The journal of a push over a crash (`crates/libs/push/src/journal.rs`, with the rows that
   `serde_json` writes of a `JournalEvent`).

   1. `JournalEvent.row`: the row of an event. No row breaks off into another
      (`delimits_row`), so what is written can be read as a `RowCodec` asks (`rowsOnly`).
   2. `InUse`: the journals a run can have; their sets hold joined keys only (`InUse.keyed`).
   3. `compacted_loads`: a compaction keeps the events of every other target and loads as the
      sets it was written from.
   4. `journal_survives`: both, over every run of appends, crashes and compactions, for any writer
      and reader of rows that a `RowCodec` holds. -/
namespace MessageCrate
open JsonText JournalBytes

/-! Rows. -/

/-- The value of a field of a row. -/
inductive RowValue where
  | text (s : String)
  | messages (l : List JournalMessage)

def JournalMessage.text (m : JournalMessage) : List Char :=
  object quoted [("file", m.file), ("guid", m.guid)]

def RowValue.write : RowValue → List Char
  | .text s => quoted s
  | .messages l => array JournalMessage.text l

/-- The fields of a row, the name of the event first. -/
def JournalEvent.fields : JournalEvent → List (String × RowValue)
  | .assetOk url username sha256 =>
    [("event", .text "asset_ok"), ("url", .text url), ("username", .text username),
      ("sha256", .text sha256)]
  | .messageBatchOk url username source messages =>
    [("event", .text "message_batch_ok"), ("url", .text url), ("username", .text username),
      ("source", .text source), ("messages", .messages messages)]
  | .fileOk url username source file =>
    [("event", .text "file_ok"), ("url", .text url), ("username", .text username),
      ("source", .text source), ("file", .text file)]
  | .fail url username source file guid sha256 stage error =>
    [("event", .text "fail"), ("url", .text url), ("username", .text username),
      ("source", .text source), ("file", .text file)] ++
    (guid.map (fun s => ("guid", RowValue.text s))).toList ++
    (sha256.map (fun s => ("sha256", RowValue.text s))).toList ++
    [("stage", .text stage), ("error", .text error)]

def JournalEvent.row (event : JournalEvent) : List Char := object RowValue.write event.fields

theorem delimits_message : Delimits JournalMessage.text := by
  refine (delimits_object delimits_quoted).comp (f := fun m : JournalMessage =>
    [("file", m.file), ("guid", m.guid)]) ?_
  intro ⟨file, guid⟩ ⟨file', guid'⟩ h
  simpa using h

theorem delimits_value : Delimits RowValue.write := by
  have hbracket : ∀ (m : JournalMessage) rest rest', m.text ++ rest ≠ ']' :: rest' := by
    intro m rest rest' h
    exact absurd (List.cons.inj h).1 (by decide)
  intro a b rest rest' h
  cases a with
  | text s =>
    cases b with
    | text s' =>
      obtain ⟨rfl, hrest⟩ := delimits_quoted s s' rest rest' h
      exact ⟨rfl, hrest⟩
    | messages l => exact absurd (List.cons.inj h).1 (by decide)
  | messages l =>
    cases b with
    | text s => exact absurd (List.cons.inj h).1 (by decide)
    | messages l' =>
      obtain ⟨rfl, hrest⟩ := delimits_array delimits_message hbracket l l' rest rest' h
      exact ⟨rfl, hrest⟩

theorem fields_injective : Function.Injective JournalEvent.fields := by
  intro a b h
  cases a with
  | assetOk => cases b <;> simp_all [JournalEvent.fields]
  | messageBatchOk => cases b <;> simp_all [JournalEvent.fields]
  | fileOk => cases b <;> simp_all [JournalEvent.fields]
  | fail url username source file guid sha256 stage error =>
    cases b with
    | assetOk => simp [JournalEvent.fields] at h
    | messageBatchOk => simp [JournalEvent.fields] at h
    | fileOk => simp [JournalEvent.fields] at h
    | fail url' username' source' file' guid' sha256' stage' error' =>
      cases guid <;> cases guid' <;> cases sha256 <;> cases sha256' <;>
        simp_all [JournalEvent.fields]

/-- A row says which event it is and where it ends. -/
theorem delimits_row : Delimits JournalEvent.row :=
  (delimits_object delimits_value).comp fields_injective

theorem row_object (event : JournalEvent) : ∃ rest, event.row = '{' :: rest := ⟨_, rfl⟩

theorem row_oneLine (event : JournalEvent) : OneLine event.row := by
  have hquote : ∀ {α : Type} {write : α → List Char} {fields : List (String × α)},
      (∀ f ∈ fields, OneLine (write f.2)) → OneLine (object write fields) := by
    intro α write fields hfields c hc
    rcases List.mem_cons.mp hc with rfl | hc
    · decide
    rcases List.mem_append.mp hc with hc | hc
    · rcases mem_commas hc with rfl | ⟨f, hf, hc⟩
      · decide
      · rcases List.mem_append.mp hc with hc | hc
        · exact mem_quoted hc
        · rcases List.mem_cons.mp hc with rfl | hc
          · decide
          · exact hfields f hf c hc
    · rw [List.mem_singleton.mp hc]
      decide
  refine hquote fun f _ => ?_
  cases f.2 with
  | text s => exact fun c hc => mem_quoted hc
  | messages l =>
    intro c hc
    rcases List.mem_cons.mp hc with rfl | hc
    · decide
    rcases List.mem_append.mp hc with hc | hc
    · rcases mem_commas hc with rfl | ⟨m, -, hc⟩
      · decide
      · exact hquote (fun f _ c hc => mem_quoted hc) c hc
    · rw [List.mem_singleton.mp hc]
      decide

open Classical in
/-- The rows that `serde_json` writes, with a reader of them and of nothing else. -/
noncomputable def rowsOnly : RowCodec JournalEvent where
  write := JournalEvent.row
  read := fun text => if h : ∃ event, JournalEvent.row event = text then some h.choose else none
  object := row_object
  oneLine := row_oneLine
  read_write := by
    intro event
    have h : ∃ e, JournalEvent.row e = event.row := ⟨event, rfl⟩
    rw [dif_pos h]
    exact congrArg some (delimits_row.injective h.choose_spec)
  read_cut := by
    intro event cut hcut hne
    rw [dif_neg]
    rintro ⟨other, hother⟩
    exact delimits_row.ne_of_cut hcut hne hother

/-! Compaction. -/

/-- The journals that a run can have: opened, and written to by its own calls. -/
inductive InUse : RunJournal → Prop where
  | opened (file : JournalFile) (url username : String) (fresh : Bool) :
      InUse (.open file url username fresh)
  | assetOk {journal : RunJournal} (h : InUse journal) (sha256 : String) (how : Appended) :
      InUse (journal.assetOk sha256 how)
  | messageBatchOk {journal : RunJournal} (h : InUse journal) (source : String)
      (messages : List JournalMessage) (how : Appended) :
      InUse (journal.messageBatchOk source messages how)
  | fileOk {journal : RunJournal} (h : InUse journal) (source file : String) (how : Appended) :
      InUse (journal.fileOk source file how)
  | recordFailure {journal : RunJournal} (h : InUse journal) (source file stage error : String)
      (how : Appended) : InUse (journal.recordFailure source file stage error how)
  | compact {journal : RunJournal} (h : InUse journal) : InUse journal.compact

/-- The events a compaction writes, given those it has read. -/
def RunJournal.rebuild (journal : RunJournal) (events : List JournalEvent) : List JournalEvent :=
  MessageCrate.loadEvents
    (MessageCrate.compact journal.url journal.username journal.state (events.map some))

/-- The events of every target but the journal's own. -/
def RunJournal.others (journal : RunJournal) (events : List JournalEvent) : List JournalEvent :=
  events.filter (fun event => decide (event.target ≠ (journal.url, journal.username)))

/-- The sets hold the same members; a `HashSet` has no order. -/
structure SameSets (a b : JournalState) : Prop where
  assets : ∀ k, k ∈ a.assets ↔ k ∈ b.assets
  messages : ∀ k, k ∈ a.messages ↔ k ∈ b.messages
  files : ∀ k, k ∈ a.files ↔ k ∈ b.files

section
variable {journal : RunJournal} {events : List JournalEvent} {k : String}

theorem mem_keys_key {event : JournalEvent} {url username : String} (h : k ∈ event.keys url username) :
    ∃ m : JournalMessage, m.key = k := by
  cases event with
  | messageBatchOk u a source messages =>
    rw [JournalEvent.keys] at h
    split at h
    · obtain ⟨m, -, hm⟩ := List.mem_map.mp h
      exact ⟨m, hm⟩
    · cases h
  | assetOk => cases h
  | fileOk => cases h
  | fail => cases h

/-- A journal in use holds joined keys only. -/
theorem InUse.keyed (h : InUse journal) : ∀ k ∈ journal.state.messages, ∃ m : JournalMessage, m.key = k := by
  induction h with
  | opened file url username fresh =>
    intro k hk
    cases fresh with
    | true => cases hk
    | false =>
      obtain ⟨event, -, hkey⟩ := mem_load_messages.mp hk
      exact mem_keys_key hkey
  | assetOk _ _ _ ih => exact ih
  | messageBatchOk _ source messages how ih =>
    intro k hk
    rcases mem_messageBatchOk.mp hk with hk | ⟨m, -, hm⟩
    · exact ih k hk
    · exact ⟨m, hm⟩
  | fileOk _ _ _ _ ih => exact ih
  | recordFailure _ _ _ _ _ _ ih => exact ih
  | compact _ ih => exact ih

/-- A joined key comes apart, at its first NUL. -/
theorem splitKey_key (m : JournalMessage) : ∃ m', splitKey m.key = some m' := by
  cases hsplit : splitKey m.key with
  | some m' => exact ⟨m', rfl⟩
  | none =>
    rw [splitKey, Text.splitOnce, Option.map_eq_none_iff, Option.map_eq_none_iff] at hsplit
    have hkey : m.key.toList = m.file.toList ++ ("\x00".toList ++ m.guid.toList) := by
      rw [JournalMessage.key, messageKey, String.toList_append, String.toList_append, List.append_assoc]
    refine absurd (List.prefix_append _ _) (Text.splitOnceChars_none hsplit _ _ hkey ?_)
    exact List.append_ne_nil_of_left_ne_nil (by decide) _

/-- What a compaction writes: the other targets' events, and one event of each kind from the
    sets. -/
theorem rebuild_eq (journal : RunJournal) (events : List JournalEvent) :
    journal.rebuild events = journal.others events ++
      (journal.state.assets.insertionSort (· ≤ ·)).map (.assetOk journal.url journal.username) ++
      ((messagesFromStateKeys journal.state).toChunks 1000).map
        (.messageBatchOk journal.url journal.username "") ++
      (journal.state.files.insertionSort (· ≤ ·)).map (.fileOk journal.url journal.username "") := by
  have hload : ∀ events : List JournalEvent, MessageCrate.loadEvents (events.map some) = events := by
    intro events
    rw [MessageCrate.loadEvents, List.filterMap_map]
    exact List.filterMap_some
  rw [RunJournal.rebuild, MessageCrate.compact, hload, hload]
  rfl

/-- A compaction keeps the events of every other target. -/
theorem others_rebuild : journal.others (journal.rebuild events) = journal.others events := by
  have hown : ∀ {α : Type} (l : List α) (f : α → JournalEvent),
      (∀ a, (f a).target = (journal.url, journal.username)) → journal.others (l.map f) = [] := by
    intro α l f hf
    rw [RunJournal.others, List.filter_eq_nil_iff]
    intro event hevent
    obtain ⟨a, -, rfl⟩ := List.mem_map.mp hevent
    simp [hf a]
  have happend : ∀ l m : List JournalEvent,
      journal.others (l ++ m) = journal.others l ++ journal.others m := fun l m => List.filter_append ..
  rw [rebuild_eq, happend, happend, happend, hown _ _ fun _ => rfl, hown _ _ fun _ => rfl,
    hown _ _ fun _ => rfl, List.append_nil, List.append_nil, List.append_nil]
  exact List.filter_filter.trans (by simp [RunJournal.others])

theorem mem_rebuild {event : JournalEvent} : event ∈ journal.rebuild events ↔
    event ∈ journal.others events ∨
    (∃ sha256 ∈ journal.state.assets, .assetOk journal.url journal.username sha256 = event) ∨
    (∃ batch ∈ (messagesFromStateKeys journal.state).toChunks 1000,
      .messageBatchOk journal.url journal.username "" batch = event) ∨
    ∃ file ∈ journal.state.files, .fileOk journal.url journal.username "" file = event := by
  rw [rebuild_eq]
  simp only [List.mem_append, List.mem_map, List.mem_insertionSort, or_assoc]

/-- A compacted journal loads as the sets it was written from. -/
theorem load_rebuild (h : InUse journal) :
    SameSets (load journal.url journal.username ((journal.rebuild events).map some)) journal.state := by
  have hload : ∀ l : List JournalEvent, MessageCrate.loadEvents (l.map some) = l := by
    intro l
    rw [MessageCrate.loadEvents, List.filterMap_map]
    exact List.filterMap_some
  have hfile : load journal.url journal.username ((journal.rebuild events).map some) =
      load journal.url journal.username
        (MessageCrate.compact journal.url journal.username journal.state (events.map some)) := by
    rw [load, load, hload]
    rfl
  obtain ⟨hmessages, hfiles, hassets⟩ :=
    @load_compact_le journal.url journal.username (events.map some) journal.state
  rw [← hfile] at hmessages hfiles hassets
  refine ⟨fun k => ⟨hassets k, fun hk => ?_⟩, fun k => ⟨hmessages k, fun hk => ?_⟩,
    fun k => ⟨hfiles k, fun hk => ?_⟩⟩
  · rw [mem_load_assets, hload]
    refine ⟨_, mem_rebuild.mpr (.inr (.inl ⟨k, hk, rfl⟩)), ?_⟩
    simp [JournalEvent.assets]
  · -- The key comes apart, and its parts join to the same key again.
    obtain ⟨m, rfl⟩ := h.keyed k hk
    obtain ⟨m', hsplit⟩ := splitKey_key m
    have hmem : m' ∈ ((messagesFromStateKeys journal.state).toChunks 1000).flatten := by
      rw [Packing.flatten_toChunks, messagesFromStateKeys, List.mem_insertionSort]
      exact List.mem_filterMap.mpr ⟨m.key, hk, hsplit⟩
    obtain ⟨batch, hbatch, hm'⟩ := List.mem_flatten.mp hmem
    rw [mem_load_messages, hload]
    refine ⟨_, mem_rebuild.mpr (.inr (.inr (.inl ⟨batch, hbatch, rfl⟩))), ?_⟩
    rw [JournalEvent.keys, if_pos ⟨rfl, rfl⟩]
    exact List.mem_map.mpr ⟨m', hm', splitKey_eq_some hsplit⟩
  · rw [mem_load_files, hload]
    refine ⟨_, mem_rebuild.mpr (.inr (.inr (.inr ⟨k, hk, rfl⟩))), ?_⟩
    simp [JournalEvent.files]

end

/-! Over every run. -/

/-- **A compaction**, given any file that loads: it goes through, the new file loads as the events
    it was to hold, those of every other target are the same, and for its own target it loads as
    the sets in memory. -/
def Compacts (codec : RowCodec JournalEvent) (label : String) : Prop :=
  ∀ journal, InUse journal → ∀ file corrupt events,
    JournalBytes.loadEvents codec label file = .ok (corrupt, events) →
    ∃ file' corrupt', compactWith codec label journal.rebuild file = .ok file' ∧
      JournalBytes.loadEvents codec label file' = .ok (corrupt', journal.rebuild events) ∧
      journal.others (journal.rebuild events) = journal.others events ∧
      SameSets (load journal.url journal.username ((journal.rebuild events).map some)) journal.state

theorem compacts (codec : RowCodec JournalEvent) (label : String) : Compacts codec label := by
  intro journal hjournal file corrupt events hload
  have hfile : compactWith codec label journal.rebuild file =
      .ok (writeRows codec (journal.rebuild events)) := by
    rw [compactWith, hload]
    rfl
  obtain ⟨corrupt', hloads⟩ := loadEvents_shaped label
    (shaped_writeRows codec (journal.rebuild events))
  exact ⟨_, corrupt', hfile, hloads, others_rebuild, load_rebuild hjournal⟩

/-- The journal after some steps of a run that starts without a file. -/
def journalAfter (codec : RowCodec JournalEvent) (label : String) (newline : Bool)
    (steps : List (JournalBytes.Step JournalEvent)) : Journal JournalEvent :=
  steps.foldl (next codec label newline) ⟨[], []⟩

/-- **A journal over crashes**: it loads in every state as the events that were written whole, and
    a compaction keeps what it should, exactly when no append was cut inside a character or
    between its row and its newline. Where a row counts as whole without its newline, exactly
    when no append was cut inside a character. -/
theorem journal_survives (codec : RowCodec JournalEvent) (label : String)
    (steps : List (JournalBytes.Step JournalEvent)) :
    (((∀ pre post, steps = pre ++ post →
        Loads codec label (journalAfter codec label true pre)) ∧ Compacts codec label) ↔
      ∀ pre step post, steps = pre ++ step :: post →
        CleanCut codec true (journalAfter codec label true pre) step) ∧
    ((∀ pre post, steps = pre ++ post →
        Loads codec label (journalAfter codec label false pre)) ↔
      ∀ pre step post, steps = pre ++ step :: post →
        CleanCut codec false (journalAfter codec label false pre) step) := by
  refine ⟨⟨fun h => (journal_safe_iff steps).mp h.1, fun h => ⟨(journal_safe_iff steps).mpr h, ?_⟩⟩,
    journal_safe_iff steps⟩
  exact compacts codec label

/-- A conversation file whose name has a letter of two bytes. -/
def accentedFile : JournalEvent := .fileOk "u" "a" "s" "é.jsonl"

/-- The first byte of the letter is the last that reaches the file. -/
theorem torn_accent_does_not_load : ¬ Loads rowsOnly "journal"
    (journalAfter rowsOnly "journal" true [.append accentedFile 66]) := by
  have hempty : Shaped rowsOnly [] ([] : List JournalEvent) [] [] :=
    shaped_writeRows rowsOnly []
  show ¬ Loads _ _ (next rowsOnly "journal" true ⟨[], []⟩ (.append accentedFile 66))
  refine next_breaks ⟨[], [], hempty⟩ ?_
  rintro ⟨hboundary, -⟩
  have hbytes : rowBytes rowsOnly [] accentedFile 66 = 66 := by
    show min 66 (Utf8.size accentedFile.row) = 66
    decide +kernel
  rw [hbytes, Utf8.isBoundary_iff] at hboundary
  revert hboundary
  show ¬ ∃ n < accentedFile.row.length + 1, Utf8.size (accentedFile.row.take n) = 66
  decide +kernel

end MessageCrate

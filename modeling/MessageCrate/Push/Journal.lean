import MessageCrate.Lib.Packing
import MessageCrate.Lib.Text
import Mathlib.Data.List.Sort

/- The journal of a push (`crates/libs/push/src/journal.rs`, over
   `crates/libs/journal/src/lib.rs`).

   The journal is a file beside the conversation files, one event a row, and the skip sets a
   run reads from it. A run appends as it goes and rewrites the file when it ends clean. A
   crash or a failed write may leave the last row torn; a torn row is skipped when the file is
   read, and the next row starts on a line of its own.

   Correspondence (Rust ↔ Lean):
     `JournalEvent`, `JournalEvent::target`   ↔ `JournalEvent`, `JournalEvent.target`
     `JournalState`, `message_key`            ↔ `JournalState`, `messageKey`
     `load_events`, `load`, `compact`         ↔ `loadEvents`, `load`, `compact`
     `jsonl_journal::append`                  ↔ `JournalFile.append`
     `RunJournal`                             ↔ `RunJournal`
   A `HashSet` is a list read only through membership. What an append leaves on disk when it
   fails is the `Appended` of the call.

   What is proved: a file loads as what its rows of the target say (`mem_load_messages`, and
   the same for files and assets), an append adds its own row at most
   (`load_append_messages`), and a rewritten file holds nothing that its sets do not
   (`load_compact_le`). -/
namespace MessageCrate

structure JournalMessage where
  file : String
  guid : String
  deriving DecidableEq, Repr

/-- One row of the journal. -/
inductive JournalEvent where
  | assetOk (url username sha256 : String)
  | messageBatchOk (url username source : String) (messages : List JournalMessage)
  | fileOk (url username source file : String)
  | fail (url username source file : String) (guid sha256 : Option String) (stage error : String)
  deriving DecidableEq, Repr

/-- Server URL and username the event belongs to. -/
def JournalEvent.target : JournalEvent → String × String
  | .assetOk url username _ => (url, username)
  | .messageBatchOk url username _ _ => (url, username)
  | .fileOk url username _ _ => (url, username)
  | .fail url username _ _ _ _ _ _ => (url, username)

/-- The skip sets of one server URL and username. -/
structure JournalState where
  assets : List String
  messages : List String
  files : List String
  deriving DecidableEq, Repr

def JournalState.empty : JournalState := ⟨[], [], []⟩

def messageKey (file guid : String) : String := file ++ "\x00" ++ guid

def JournalMessage.key (m : JournalMessage) : String := messageKey m.file m.guid

/-- The rows of the file; `none` is a row that does not parse. -/
abbrev JournalFile := List (Option JournalEvent)

def loadEvents (file : JournalFile) : List JournalEvent := file.filterMap id

/-- One event folded into the skip sets of its own target. -/
def JournalState.read (url username : String) (state : JournalState) :
    JournalEvent → JournalState
  | .assetOk u a sha256 =>
    if u = url ∧ a = username then { state with assets := state.assets.insert sha256 } else state
  | .messageBatchOk u a _ messages =>
    if u = url ∧ a = username then
      { state with
        messages := messages.foldl (fun keys m => keys.insert m.key) state.messages }
    else state
  | .fileOk u a _ file =>
    if u = url ∧ a = username then { state with files := state.files.insert file } else state
  | .fail .. => state

def load (url username : String) (file : JournalFile) : JournalState :=
  (loadEvents file).foldl (JournalState.read url username) .empty

/-- A stored key taken apart again. -/
def splitKey (key : String) : Option JournalMessage :=
  (Text.splitOnce "\x00" key).map (fun p => ⟨p.1, p.2⟩)

def JournalMessage.le (a b : JournalMessage) : Prop :=
  a.file < b.file ∨ (a.file = b.file ∧ a.guid ≤ b.guid)

instance : DecidableRel JournalMessage.le :=
  fun _ _ => inferInstanceAs (Decidable (_ ∨ _))

def messagesFromStateKeys (state : JournalState) : List JournalMessage :=
  (state.messages.filterMap splitKey).insertionSort JournalMessage.le

/-- The rows a rewrite leaves: every other target's, then one of each kind from the sets. -/
def compact (url username : String) (state : JournalState) (file : JournalFile) : JournalFile :=
  let events : List JournalEvent :=
    (loadEvents file).filter (fun event => decide (event.target ≠ (url, username)))
      ++ (state.assets.insertionSort (· ≤ ·)).map (.assetOk url username)
      ++ ((messagesFromStateKeys state).toChunks 1000).map (.messageBatchOk url username "")
      ++ (state.files.insertionSort (· ≤ ·)).map (.fileOk url username "")
  events.map some

/-- What a call of `append` did: the row is written and synced, or the call failed with the
    row on disk or not, or torn. -/
inductive Appended where
  | synced
  | unsynced
  | torn
  | nothing
  deriving DecidableEq, Repr

def Appended.isOk (how : Appended) : Bool := how = .synced

/-- The row starts on a line of its own, so a torn row before it is one row of the file. -/
def JournalFile.append (file : JournalFile) (event : JournalEvent) : Appended → JournalFile
  | .synced | .unsynced => file ++ [some event]
  | .torn => file ++ [none]
  | .nothing => file

/-- The journal of one run: its skip sets and the file they are appended to. -/
structure RunJournal where
  state : JournalState
  file : JournalFile
  url : String
  username : String
  deriving DecidableEq, Repr

namespace RunJournal

def «open» (file : JournalFile) (url username : String) (fresh : Bool) : RunJournal :=
  { state := if fresh then .empty else load url username file, file, url, username }

def hasFile (journal : RunJournal) (file : String) : Bool := journal.state.files.contains file

def hasMessage (journal : RunJournal) (file guid : String) : Bool :=
  journal.state.messages.contains (messageKey file guid)

def hasAsset (journal : RunJournal) (sha256 : String) : Bool :=
  journal.state.assets.contains sha256

def assetOk (journal : RunJournal) (sha256 : String) (how : Appended) : RunJournal :=
  { journal with
    state := { journal.state with assets := journal.state.assets.insert sha256 }
    file := journal.file.append (.assetOk journal.url journal.username sha256) how }

def messageBatchOk (journal : RunJournal) (source : String) (messages : List JournalMessage)
    (how : Appended) : RunJournal :=
  { journal with
    state := { journal.state with
      messages := messages.foldl (fun keys m => keys.insert m.key) journal.state.messages }
    file := journal.file.append
      (.messageBatchOk journal.url journal.username source messages) how }

def fileOk (journal : RunJournal) (source file : String) (how : Appended) : RunJournal :=
  { journal with
    state := { journal.state with files := journal.state.files.insert file }
    file := journal.file.append (.fileOk journal.url journal.username source file) how }

def recordFailure (journal : RunJournal) (source file stage error : String) (how : Appended) :
    RunJournal :=
  { journal with
    file := journal.file.append
      (.fail journal.url journal.username source file none none stage error) how }

def compact (journal : RunJournal) : RunJournal :=
  { journal with
    file := MessageCrate.compact journal.url journal.username journal.state journal.file }

end RunJournal

/-! What a file loads as. -/

theorem mem_foldl_insert {α : Type} (key : α → String) (l : List α) {keys : List String}
    {k : String} :
    k ∈ l.foldl (fun keys m => keys.insert (key m)) keys ↔ k ∈ keys ∨ ∃ m ∈ l, key m = k := by
  induction l generalizing keys with
  | nil => simp
  | cons m l ih =>
    simp only [List.foldl_cons, ih, List.mem_insert_iff, List.mem_cons, exists_eq_or_imp]
    constructor
    · rintro ((h | h) | h)
      · exact .inr (.inl h.symm)
      · exact .inl h
      · exact .inr (.inr h)
    · rintro (h | h | h)
      · exact .inl (.inr h)
      · exact .inl (.inl h.symm)
      · exact .inr h

/-- The message keys one event adds for a target. -/
def JournalEvent.keys (url username : String) : JournalEvent → List String
  | .messageBatchOk u a _ messages =>
    if u = url ∧ a = username then messages.map JournalMessage.key else []
  | _ => []

def JournalEvent.files (url username : String) : JournalEvent → List String
  | .fileOk u a _ file => if u = url ∧ a = username then [file] else []
  | _ => []

def JournalEvent.assets (url username : String) : JournalEvent → List String
  | .assetOk u a sha256 => if u = url ∧ a = username then [sha256] else []
  | _ => []

section
variable {url username : String} {file : JournalFile} {state : JournalState}
  {event : JournalEvent} {k : String}

theorem mem_read_messages : k ∈ (state.read url username event).messages ↔
    k ∈ state.messages ∨ k ∈ event.keys url username := by
  cases event with
  | messageBatchOk u a source messages =>
    simp only [JournalState.read, JournalEvent.keys]
    split
    · simp only [mem_foldl_insert, List.mem_map]
    · simp
  | assetOk => simp only [JournalState.read, JournalEvent.keys]; split <;> simp
  | fileOk => simp only [JournalState.read, JournalEvent.keys]; split <;> simp
  | fail => simp [JournalState.read, JournalEvent.keys]

theorem mem_read_files : k ∈ (state.read url username event).files ↔
    k ∈ state.files ∨ k ∈ event.files url username := by
  cases event with
  | fileOk =>
    simp only [JournalState.read, JournalEvent.files]
    split
    · simp only [List.mem_insert_iff, List.mem_singleton, or_comm]
    · simp
  | messageBatchOk => simp only [JournalState.read, JournalEvent.files]; split <;> simp
  | assetOk => simp only [JournalState.read, JournalEvent.files]; split <;> simp
  | fail => simp [JournalState.read, JournalEvent.files]

theorem mem_read_assets : k ∈ (state.read url username event).assets ↔
    k ∈ state.assets ∨ k ∈ event.assets url username := by
  cases event with
  | assetOk =>
    simp only [JournalState.read, JournalEvent.assets]
    split
    · simp only [List.mem_insert_iff, List.mem_singleton, or_comm]
    · simp
  | messageBatchOk => simp only [JournalState.read, JournalEvent.assets]; split <;> simp
  | fileOk => simp only [JournalState.read, JournalEvent.assets]; split <;> simp
  | fail => simp [JournalState.read, JournalEvent.assets]

theorem mem_foldl_read (url username k : String) (sel : JournalState → List String)
    {adds : JournalEvent → List String}
    (hread : ∀ state event, k ∈ sel (JournalState.read url username state event) ↔
      k ∈ sel state ∨ k ∈ adds event) (events : List JournalEvent) (state : JournalState) :
    k ∈ sel (events.foldl (JournalState.read url username) state) ↔
      k ∈ sel state ∨ ∃ event ∈ events, k ∈ adds event := by
  induction events generalizing state with
  | nil => simp
  | cons event events ih =>
    rw [List.foldl_cons, ih, hread]
    simp only [List.mem_cons, exists_eq_or_imp, or_assoc]

theorem mem_load_messages : k ∈ (load url username file).messages ↔
    ∃ event ∈ loadEvents file, k ∈ event.keys url username := by
  have := mem_foldl_read url username k JournalState.messages (fun _ _ => mem_read_messages)
    (loadEvents file) .empty
  simpa [load, JournalState.empty] using this

theorem mem_load_files : k ∈ (load url username file).files ↔
    ∃ event ∈ loadEvents file, k ∈ event.files url username := by
  have := mem_foldl_read url username k JournalState.files (fun _ _ => mem_read_files)
    (loadEvents file) .empty
  simpa [load, JournalState.empty] using this

theorem mem_load_assets : k ∈ (load url username file).assets ↔
    ∃ event ∈ loadEvents file, k ∈ event.assets url username := by
  have := mem_foldl_read url username k JournalState.assets (fun _ _ => mem_read_assets)
    (loadEvents file) .empty
  simpa [load, JournalState.empty] using this

end

/-! What an append and a rewrite add. -/

theorem splitOnceChars_eq_some {sep cs : List Char} {p : List Char × List Char}
    (h : Text.splitOnceChars sep cs = some p) : p.1 ++ sep ++ p.2 = cs := by
  induction cs generalizing p with
  | nil =>
    simp only [Text.splitOnceChars, Option.ite_none_right_eq_some, Option.some.injEq] at h
    obtain ⟨hsep, rfl⟩ := h
    simpa using hsep
  | cons c cs ih =>
    simp only [Text.splitOnceChars] at h
    split at h
    · rename_i hprefix
      cases Option.some.inj h
      obtain ⟨rest, hrest⟩ := List.isPrefixOf_iff_prefix.mp hprefix
      simp [← hrest]
    · obtain ⟨q, hq, rfl⟩ := Option.map_eq_some_iff.mp h
      simp [← ih hq]

/-- A key taken apart and put together is the key. -/
theorem splitKey_eq_some {k : String} {m : JournalMessage} (h : splitKey k = some m) :
    m.key = k := by
  unfold splitKey Text.splitOnce at h
  simp only [Option.map_map, Option.map_eq_some_iff] at h
  obtain ⟨p, hp, rfl⟩ := h
  have := splitOnceChars_eq_some hp
  apply String.toList_injective
  simpa [JournalMessage.key, messageKey] using this

section
variable {url username : String} {file : JournalFile} {state : JournalState}
  {event : JournalEvent} {how : Appended} {k : String}

theorem mem_loadEvents {event : JournalEvent} : event ∈ loadEvents file ↔ some event ∈ file := by
  simp [loadEvents]

/-- Every row of the file is one it had, or the one appended. -/
theorem mem_append {row : Option JournalEvent} (h : row ∈ file.append event how) :
    row ∈ file ∨ row = some event ∨ row = none := by
  cases how <;> simp only [JournalFile.append, List.mem_append, List.mem_singleton] at h <;>
    tauto

theorem load_append_messages (h : k ∈ (load url username (file.append event how)).messages) :
    k ∈ (load url username file).messages ∨ k ∈ event.keys url username := by
  obtain ⟨e, he, hk⟩ := mem_load_messages.mp h
  rcases mem_append (mem_loadEvents.mp he) with hin | heq | heq
  · exact .inl (mem_load_messages.mpr ⟨e, mem_loadEvents.mpr hin, hk⟩)
  · cases Option.some.inj heq
    exact .inr hk
  · cases heq

theorem load_append_files (h : k ∈ (load url username (file.append event how)).files) :
    k ∈ (load url username file).files ∨ k ∈ event.files url username := by
  obtain ⟨e, he, hk⟩ := mem_load_files.mp h
  rcases mem_append (mem_loadEvents.mp he) with hin | heq | heq
  · exact .inl (mem_load_files.mpr ⟨e, mem_loadEvents.mpr hin, hk⟩)
  · cases Option.some.inj heq
    exact .inr hk
  · cases heq

theorem load_append_assets (h : k ∈ (load url username (file.append event how)).assets) :
    k ∈ (load url username file).assets ∨ k ∈ event.assets url username := by
  obtain ⟨e, he, hk⟩ := mem_load_assets.mp h
  rcases mem_append (mem_loadEvents.mp he) with hin | heq | heq
  · exact .inl (mem_load_assets.mpr ⟨e, mem_loadEvents.mpr hin, hk⟩)
  · cases Option.some.inj heq
    exact .inr hk
  · cases heq

/-- A rewritten file holds another target's events, or one made from the sets. -/
theorem mem_compact (h : event ∈ loadEvents (compact url username state file)) :
    event.target ≠ (url, username) ∨
    (∃ sha256 ∈ state.assets, event = .assetOk url username sha256) ∨
    (∃ messages, (∀ m ∈ messages, m.key ∈ state.messages) ∧
      event = .messageBatchOk url username "" messages) ∨
    (∃ name ∈ state.files, event = .fileOk url username "" name) := by
  rw [mem_loadEvents, compact] at h
  simp only [List.map_append, List.mem_append, List.mem_map, List.mem_filter, decide_eq_true_eq,
    Option.some.injEq, exists_eq_right, List.mem_insertionSort] at h
  rcases h with ((⟨-, h⟩ | ⟨sha256, hsha, rfl⟩) | ⟨chunk, hchunk, rfl⟩) | ⟨name, hname, rfl⟩
  · exact .inl h
  · exact .inr (.inl ⟨sha256, hsha, rfl⟩)
  · refine .inr (.inr (.inl ⟨chunk, fun m hm => ?_, rfl⟩))
    have hflat : m ∈ messagesFromStateKeys state := by
      rw [← Packing.flatten_toChunks 1000 (messagesFromStateKeys state)]
      exact List.mem_flatten_of_mem hchunk hm
    obtain ⟨key, hkey, hsplit⟩ := List.mem_filterMap.mp
      ((List.mem_insertionSort _).mp hflat)
    rw [splitKey_eq_some hsplit]
    exact hkey
  · exact .inr (.inr (.inr ⟨name, hname, rfl⟩))

/-- What a rewritten file loads as, for the target it was rewritten for. -/
theorem load_compact_le :
    (∀ k ∈ (load url username (compact url username state file)).messages, k ∈ state.messages) ∧
    (∀ k ∈ (load url username (compact url username state file)).files, k ∈ state.files) ∧
    (∀ k ∈ (load url username (compact url username state file)).assets, k ∈ state.assets) := by
  refine ⟨fun k hk => ?_, fun k hk => ?_, fun k hk => ?_⟩
  · obtain ⟨event, hevent, hk⟩ := mem_load_messages.mp hk
    obtain hother | ⟨sha256, -, rfl⟩ | ⟨messages, hkeys, rfl⟩ | ⟨name, -, rfl⟩ :=
      mem_compact hevent
    · cases event <;> simp_all [JournalEvent.keys, JournalEvent.target]
    · simp [JournalEvent.keys] at hk
    · simp only [JournalEvent.keys, and_self, if_true, List.mem_map] at hk
      obtain ⟨m, hm, rfl⟩ := hk
      exact hkeys m hm
    · simp [JournalEvent.keys] at hk
  · obtain ⟨event, hevent, hk⟩ := mem_load_files.mp hk
    obtain hother | ⟨sha256, -, rfl⟩ | ⟨messages, -, rfl⟩ | ⟨name, hname, rfl⟩ :=
      mem_compact hevent
    · cases event <;> simp_all [JournalEvent.files, JournalEvent.target]
    · simp [JournalEvent.files] at hk
    · simp [JournalEvent.files] at hk
    · simp only [JournalEvent.files, and_self, if_true, List.mem_singleton] at hk
      rwa [hk]
  · obtain ⟨event, hevent, hk⟩ := mem_load_assets.mp hk
    obtain hother | ⟨sha256, hsha, rfl⟩ | ⟨messages, -, rfl⟩ | ⟨name, -, rfl⟩ :=
      mem_compact hevent
    · cases event <;> simp_all [JournalEvent.assets, JournalEvent.target]
    · simp only [JournalEvent.assets, and_self, if_true, List.mem_singleton] at hk
      rwa [hk]
    · simp [JournalEvent.assets] at hk
    · simp [JournalEvent.assets] at hk

end

/-! What a run's own appends add to its sets. -/

section
variable {journal : RunJournal} {how : Appended} {k : String}

theorem mem_assetOk {sha256 : String} : k ∈ (journal.assetOk sha256 how).state.assets ↔
    k = sha256 ∨ k ∈ journal.state.assets := by
  simp [RunJournal.assetOk]

theorem mem_messageBatchOk {source : String} {messages : List JournalMessage} :
    k ∈ (journal.messageBatchOk source messages how).state.messages ↔
      k ∈ journal.state.messages ∨ ∃ m ∈ messages, m.key = k :=
  mem_foldl_insert JournalMessage.key messages

theorem mem_fileOk {source file : String} : k ∈ (journal.fileOk source file how).state.files ↔
    k = file ∨ k ∈ journal.state.files := by
  simp [RunJournal.fileOk]

end

end MessageCrate

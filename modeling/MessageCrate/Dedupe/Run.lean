import MessageCrate.Dedupe.ContentKey
import MessageCrate.Dedupe.Near

/- One dedupe run over an account (`dedupe_cross_source` and what it calls in
   `crates/server/server/src/dedupe.rs`).

   A run refreshes the content keys, clears the flags, and makes two passes that write
   `duplicate_of`: the exact pass over the messages of one content key, then the near-time
   pass over the messages still shown. An `Account` is what the run's queries read of one
   account; the queries without an `ORDER BY` and the hash maps are read in the order of a
   `Walk`. A write that the database refuses (a repeated primary key of the temp table, a
   `duplicate_of` that is no message) makes the run `none`.

   What is proved:
     1. `exact_flags_spec`, `near_flags_spec`: what the pairs of each pass are.
     2. `dedupe_chains_end`: the run always succeeds; every hidden message leads to a
        shown one in one link, or in two when the near-time pass hid the winner of its
        exact group; and no message is flagged twice.
     3. `dedupe_leaves_a_chain` (anti-vacuity): the second link does occur.

   Assumed: `sha256Hex` and `rfc3339Secs` are the parameters of the content key's module. -/
namespace MessageCrate
open Text Grouping

/-- What the run reads and writes of one `messages` row, its sender's normalized address
and its attachments' digests. -/
structure Message where
  id : Int
  conversationId : Int
  source : String
  isFromMe : Int
  timestamp : String
  body : Option String
  senderNormalized : Option String
  attachmentShas : List (Option String)
  contentKey : Option String
  duplicateOf : Option Int
  deriving DecidableEq, Repr

/-- A participant's normalized address, and whether it is one of the account holder's. -/
structure Participant where
  normalized : String
  isHolder : Bool
  deriving DecidableEq, Repr

structure Conversation where
  chatNormalized : String
  conversationType : String
  participants : List Participant
  deriving DecidableEq, Repr

/-- One account: its conversations by id, and its messages, each with its own id. -/
structure Account where
  conversation : Int → Conversation
  messages : List Message
  ids_nodup : (messages.map Message.id).Nodup

namespace Message

/-- The digests of the attachments that have one. -/
def shas (m : Message) : List String :=
  (m.attachmentShas.filterMap (fun sha => sha)).filter (fun sha => sha != "")

/-- The message as a candidate of its content key's group, if it has a key. -/
def keyed (m : Message) : Option (String × Cand) :=
  match m.contentKey with
  | some key => if key != "" then some (key, ⟨m.id, m.source, m.shas.length⟩) else none
  | none => none

/-- `m` after `UPDATE messages SET duplicate_of = f.winner FROM flags f WHERE id = f.id`. -/
def flagged (flags : List (Int × Int)) (m : Message) : Message :=
  match flags.lookup m.id with
  | some winner => { m with duplicateOf := some winner }
  | none => m

/-- `m` after `UPDATE messages SET content_key = k.content_key FROM keys k WHERE id = k.id`. -/
def rekeyed (keys : List (Int × String)) (m : Message) : Message :=
  match keys.lookup m.id with
  | some key => { m with contentKey := some key }
  | none => m

@[simp] theorem flagged_id (flags : List (Int × Int)) (m : Message) :
    (m.flagged flags).id = m.id := by
  unfold flagged; split <;> rfl

@[simp] theorem rekeyed_id (keys : List (Int × String)) (m : Message) :
    (m.rekeyed keys).id = m.id := by
  unfold rekeyed; split <;> rfl

end Message

namespace Account

/-- The account with each message rewritten under its own id. -/
def update (a : Account) (f : Message → Message) (hf : ∀ m, (f m).id = m.id) : Account where
  conversation := a.conversation
  messages := a.messages.map f
  ids_nodup := by
    rw [List.map_map]
    have : Message.id ∘ f = Message.id := funext hf
    rw [this]
    exact a.ids_nodup

/-- The group handles of a conversation: its participants' addresses, sorted, the
holder's and empty ones left out; none when no participant is left. -/
def groupHandles (a : Account) (conversationId : Int) : Option (List String) :=
  let handles := (((a.conversation conversationId).participants.filter
    (fun p => p.normalized != "" && !p.isHolder)).map Participant.normalized).insertionSort
    (fun h h' => h ≤ h')
  if handles.isEmpty then none else some handles

/-- The attachment digests of a message, if it has any. -/
def shasByMsg (a : Account) (id : Int) : Option (List String) :=
  match a.messages.find? (fun m => m.id == id) with
  | some m => if m.shas.isEmpty then none else some m.shas
  | none => none

/-- The row a message's content key is computed from. -/
def contentKeyRow (a : Account) (m : Message) : ContentKeyRow where
  id := m.id
  conversationId := m.conversationId
  chatId := (a.conversation m.conversationId).chatNormalized
  conversationType := (a.conversation m.conversationId).conversationType
  isFromMe := m.isFromMe
  timestamp := m.timestamp
  body := m.body
  senderNormalized := m.senderNormalized

end Account

/-- Counts reported by one run. -/
structure DedupeStats where
  keysFilled : Nat
  exactGroups : Nat
  exactFlagged : Nat
  nearFlagged : Nat
  deriving DecidableEq, Repr

section
variable (sha256Hex : ByteArray → String) (rfc3339Secs : String → Option Int) (w : Walk)

/-- Source preference for survivors: first imported source (min message id), then name. -/
def sourcePriorityFromDb (a : Account) : List String :=
  (((group Message.source (a.messages.filter (fun m => sqlTrim m.source != ""))).map
    (fun p => toLex (((p.2.map Message.id).min?).getD 0, p.1))).insertionSort
      (fun x y => x ≤ y)).map (fun x => (ofLex x).2)

/-- `priority.iter().enumerate()` collected into a map: the last place of a source counts. -/
def prioOf (priority : List String) (source : String) : Option Nat :=
  ((priority.zipIdx.filter (fun p => p.1 = source)).getLast?).map Prod.snd

/-- Recomputes every content key and writes the ones that differ from what is stored. -/
def refreshContentKeys (a : Account) : Option (Nat × Account) :=
  let hashed := a.messages.filterMap (fun m =>
    contentKeyForRow sha256Hex rfc3339Secs (a.contentKeyRow m) a.groupHandles a.shasByMsg)
  let keys := hashed.filter (fun p =>
    (a.messages.find? (fun m => m.id == p.1)).bind Message.contentKey != some p.2)
  if (keys.map Prod.fst).Nodup then
    some (keys.length, a.update (Message.rekeyed keys) (Message.rekeyed_id keys))
  else none

/-- `UPDATE messages SET duplicate_of = NULL`. -/
def clearFlags (a : Account) : Account :=
  a.update (fun m => { m with duplicateOf := none }) (fun _ => rfl)

/-- Applies `(message id, duplicate-of id)` pairs through a temp table keyed by message. -/
def applyDuplicateFlags (flags : List (Int × Int)) (a : Account) : Option Account :=
  if (flags.map Prod.fst).Nodup ∧ ∀ f ∈ flags, f.2 ∈ a.messages.map Message.id then
    some (a.update (Message.flagged flags) (Message.flagged_id flags))
  else none

/-- The messages of the account by content key. -/
def byContentKey (a : Account) : List (String × List (String × Cand)) :=
  group Prod.fst (w.order (a.messages.filterMap Message.keyed))

/-- The group of one content key, when two sources hold it. -/
def copyGroup (p : String × List (String × Cand)) : Option CopyGroup :=
  if h : 2 ≤ (sourcesOf (p.2.map Prod.snd)).length then
    some ⟨p.2.map Prod.snd, ne_nil_of_two_sources h⟩
  else none

variable (prio : String → Option Nat)

/-- The `(loser, winner)` pairs of the exact pass. -/
def exactFlags (a : Account) : List (Int × Int) :=
  (w.order (byContentKey w a)).flatMap (fun p =>
    ((copyGroup p).map (exactGroupFlags w prio)).getD [])

/-- Hides the messages that share a fingerprint with a preferred-source twin. -/
def flagExactContentKeyDupes (a : Account) : Option (Nat × Nat × Account) := do
  let groups := (w.order (byContentKey w a)).countP (fun p => (copyGroup p).isSome)
  let flags := exactFlags w prio a
  if flags.isEmpty then
    return (groups, 0, a)
  let a' ← applyDuplicateFlags flags a
  return (groups, flags.length, a')

/-- What the near-time pass compares of a message; `none` when its time does not parse. -/
def nearRow (m : Message) : Option NearRow := do
  let secs ← parseRfc3339UtcSecs rfc3339Secs (trim m.timestamp)
  let shas := m.shas.insertionSort (fun sha sha' => sha ≤ sha')
  return {
    id := m.id
    source := m.source
    isFromMe := m.isFromMe
    -- Outgoing rows have no sender of their own.
    senderNorm := if m.isFromMe != 0 then "" else m.senderNormalized.getD ""
    secs := secs
    bodyNorm := normalizeBody m.body
    attFp := String.intercalate "," shas
    attCount := shas.length
    contentKey := m.contentKey.getD "" }

/-- A shown message's row, under its conversation. -/
def shownNearRow (m : Message) : Option (Int × NearRow) :=
  if m.duplicateOf.isNone then (nearRow rfc3339Secs m).map (fun row => (m.conversationId, row))
  else none

theorem nearRow_id {m : Message} {row : NearRow} (h : nearRow rfc3339Secs m = some row) :
    row.id = m.id := by
  unfold nearRow at h
  cases hsecs : parseRfc3339UtcSecs rfc3339Secs (trim m.timestamp) with
  | none => simp [hsecs] at h
  | some secs =>
    simp only [hsecs, Option.bind_eq_bind, Option.bind_some, Option.pure_def,
      Option.some.injEq] at h
    rw [← h]

theorem shownNearRow_spec {m : Message} {e : Int × NearRow}
    (h : shownNearRow rfc3339Secs m = some e) :
    m.duplicateOf = none ∧ e.1 = m.conversationId ∧ nearRow rfc3339Secs m = some e.2 := by
  unfold shownNearRow at h
  split at h
  · next hshown =>
    obtain ⟨row, hrow, rfl⟩ := Option.map_eq_some_iff.mp h
    exact ⟨Option.isNone_iff_eq_none.mp hshown, rfl, hrow⟩
  · cases h

/-- Every unflagged message of the account, grouped by conversation. -/
def loadNearRows (a : Account) : NearMap where
  entries := (group Prod.fst (w.order (a.messages.filterMap (shownNearRow rfc3339Secs)))).map
    (fun p => (p.1, p.2.map Prod.snd))
  keys_nodup := by
    rw [List.map_map]
    exact group_keys_nodup Prod.fst _
  ids_nodup := by
    have hflat : ∀ gs : List (Int × List (Int × NearRow)),
        (gs.map (fun p => (p.1, p.2.map Prod.snd))).flatMap (fun e => e.2.map NearRow.id) =
          (gs.flatMap Prod.snd).map (fun e => e.2.id) := by
      intro gs
      simp only [List.flatMap_map, List.map_flatMap, List.map_map, Function.comp_def]
    have hsub := map_filterMap_sublist (g := fun e : Int × NearRow => e.2.id)
      (f := shownNearRow rfc3339Secs) (h := Message.id)
      (fun m e he => nearRow_id rfc3339Secs (shownNearRow_spec rfc3339Secs he).2.2) a.messages
    rw [hflat, (((flatMap_group_perm Prod.fst _).trans (w.perm _)).map _).nodup_iff]
    exact a.ids_nodup.sublist hsub

variable (windowSecs : Int)

/-- The `(loser, winner)` pairs of the near-time pass. -/
def nearFlags (a : Account) : List (Int × Int) :=
  clusterNearDupes w prio windowSecs (loadNearRows rfc3339Secs w a)

/-- Flags messages that match one from another source within the window. -/
def flagNearTimeDupes (a : Account) : Option (Nat × Account) := do
  let flags := nearFlags rfc3339Secs w prio windowSecs a
  if flags.isEmpty then
    return (0, a)
  let a' ← applyDuplicateFlags flags a
  return (flags.length, a')

end

/-- Refreshes the content keys, clears prior flags, then soft-hides cross-source
duplicates, all in one transaction: `none` when a write is refused. -/
def dedupeCrossSource (sha256Hex : ByteArray → String) (rfc3339Secs : String → Option Int)
    (w : Walk) (sourcePriority : Option (List String)) (nearWindowSecs : Int) (a : Account) :
    Option (DedupeStats × Account) := do
  let prio := prioOf (sourcePriority.getD (sourcePriorityFromDb a))
  let (keysFilled, a) ← refreshContentKeys sha256Hex rfc3339Secs a
  let a := clearFlags a
  let (exactGroups, exactFlagged, a) ← flagExactContentKeyDupes w prio a
  let (nearFlagged, a) ← flagNearTimeDupes rfc3339Secs w prio nearWindowSecs a
  return (⟨keysFilled, exactGroups, exactFlagged, nearFlagged⟩, a)

end MessageCrate

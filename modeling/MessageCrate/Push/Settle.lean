import MessageCrate.Push.Pipeline

/- What the pipeline keeps while it queues chunks and settles files.

   `History` holds at every moment of a run, also after an error: what was posted, answered
   and journalled, and what a result row or a journal row says of the messages of its file.
   `Tidy` holds between two calls that went through: the trackers count what was answered, and
   no file that has settled is without its row. Each program of the pipeline has one triple
   (`joinInflight_meets` .. `consumeResult_meets`). -/
namespace MessageCrate
open Ops

/-! Batches and their messages. -/

def postedBatches (effects : List PushEffect) : List ImportBatch :=
  effects.filterMap (fun
    | .posted batch => some batch
    | _ => none)

def answeredBatches (effects : List PushEffect) : List ImportBatch :=
  effects.filterMap (fun
    | .acknowledged batch => some batch
    | .refused batch => some batch
    | _ => none)

def ackedBatches (effects : List PushEffect) : List ImportBatch :=
  effects.filterMap (fun
    | .acknowledged batch => some batch
    | _ => none)

def refusedBatches (effects : List PushEffect) : List ImportBatch :=
  effects.filterMap (fun
    | .refused batch => some batch
    | _ => none)

/-- The keys of the messages that have been written to the journal. -/
def journalledKeys (effects : List PushEffect) : List String :=
  effects.flatMap (fun
    | .journalledMessages _ messages _ => messages.map JournalMessage.key
    | _ => [])

/-- The names of the files that have been written to the journal. -/
def journalledFiles (effects : List PushEffect) : List String :=
  effects.filterMap (fun
    | .journalledFile _ _ name _ => some name
    | _ => none)

def messagesIn (batches : List ImportBatch) : List BatchMessage :=
  batches.flatMap ImportBatch.messages

/-- The messages of one file, in order. -/
def ofFile (idx : Nat) (messages : List BatchMessage) : List JournalMessage :=
  (messages.filter (fun m => decide (m.fileIndex = idx))).map BatchMessage.journal

section
variable {effects effects' : List PushEffect} {batches batches' : List ImportBatch}
  {messages messages' : List BatchMessage} {idx : Nat} {m : JournalMessage}

@[simp] theorem ofFile_nil : ofFile idx [] = [] := rfl

@[simp] theorem ofFile_append :
    ofFile idx (messages ++ messages') = ofFile idx messages ++ ofFile idx messages' := by
  simp [ofFile]

theorem ofFile_sublist (h : messages.Sublist messages') :
    (ofFile idx messages).Sublist (ofFile idx messages') :=
  (h.filter _).map _

theorem mem_ofFile : m ∈ ofFile idx messages ↔ (⟨idx, m⟩ : BatchMessage) ∈ messages := by
  unfold ofFile
  simp only [List.mem_map, List.mem_filter, decide_eq_true_eq]
  constructor
  · rintro ⟨b, ⟨hb, rfl⟩, rfl⟩
    exact hb
  · intro h
    exact ⟨_, ⟨h, rfl⟩, rfl⟩

/-- The messages of one chunk are of the file it is queued for. -/
theorem ofFile_tagged {file : Nat} (l : List JournalMessage) :
    ofFile idx (l.map (fun m => ⟨file, m⟩)) = if file = idx then l else [] := by
  unfold ofFile
  split
  · rename_i h
    simp [h, List.filter_eq_self.mpr, Function.comp_def]
  · rename_i h
    rw [List.filter_eq_nil_iff.mpr (by simp [h]), List.map_nil]

@[simp] theorem messagesIn_nil : messagesIn [] = [] := rfl

@[simp] theorem messagesIn_append :
    messagesIn (batches ++ batches') = messagesIn batches ++ messagesIn batches' := by
  simp [messagesIn]

@[simp] theorem messagesIn_singleton (batch : ImportBatch) :
    messagesIn [batch] = batch.messages := by
  simp [messagesIn]

theorem messagesIn_sublist (h : batches.Sublist batches') :
    (messagesIn batches).Sublist (messagesIn batches') := by
  unfold messagesIn
  induction h with
  | slnil => exact .slnil
  | cons b _ ih => exact ih.trans (List.sublist_append_right _ _)
  | cons_cons b _ ih => exact (List.Sublist.refl _).append ih

@[simp] theorem postedBatches_append :
    postedBatches (effects ++ effects') = postedBatches effects ++ postedBatches effects' := by
  simp [postedBatches]

@[simp] theorem answeredBatches_append : answeredBatches (effects ++ effects') =
    answeredBatches effects ++ answeredBatches effects' := by
  simp [answeredBatches]

@[simp] theorem ackedBatches_append :
    ackedBatches (effects ++ effects') = ackedBatches effects ++ ackedBatches effects' := by
  simp [ackedBatches]

@[simp] theorem refusedBatches_append :
    refusedBatches (effects ++ effects') = refusedBatches effects ++ refusedBatches effects' := by
  simp [refusedBatches]

@[simp] theorem journalledKeys_append :
    journalledKeys (effects ++ effects') = journalledKeys effects ++ journalledKeys effects' := by
  simp [journalledKeys]

@[simp] theorem journalledFiles_append :
    journalledFiles (effects ++ effects') = journalledFiles effects ++ journalledFiles effects' := by
  simp [journalledFiles]

/-- What was answered was acknowledged or refused. -/
theorem ofFile_answered_length :
    (ofFile idx (messagesIn (answeredBatches effects))).length =
      (ofFile idx (messagesIn (ackedBatches effects))).length +
        (ofFile idx (messagesIn (refusedBatches effects))).length := by
  induction effects with
  | nil => rfl
  | cons e effects ih =>
    cases e <;>
      simp only [answeredBatches, ackedBatches, refusedBatches, List.filterMap_cons, messagesIn,
        List.flatMap_cons, ofFile_append, List.length_append] at ih ⊢ <;>
      omega

theorem ackedBatches_sublist : (ackedBatches effects).Sublist (answeredBatches effects) := by
  induction effects with
  | nil => exact .slnil
  | cons e effects ih =>
    cases e with
    | acknowledged b => exact ih.cons_cons b
    | refused b => exact ih.cons b
    | posted b => exact ih
    | journalledMessages source ms how => exact ih
    | journalledFile i source name how => exact ih
    | journalledFailure source file stage error how => exact ih

end

/-! The invariants. -/

/-- What a run is called with: the names of the folder's conversation files, its settings, the
    journal file and whose rows of it are read; and what it is given as it goes. -/
structure PushInput where
  names : List String
  cfg : PushConfig
  file : JournalFile
  url : String
  username : String
  out : Outside

namespace PushInput

/-- The journal as the run opens it. -/
def journal (input : PushInput) : RunJournal :=
  .open input.file input.url input.username input.cfg.fresh

/-- The key is in the journal, from before the run or by what has happened so far. -/
def Journalled (input : PushInput) (effects : List PushEffect) (key : String) : Prop :=
  key ∈ input.journal.state.messages ∨ key ∈ journalledKeys effects

/-- The file is in the journal of an append run that heeds it. -/
def Imported (input : PushInput) (effects : List PushEffect) (name : String) : Prop :=
  input.cfg.mode = .append ∧ input.cfg.force = false ∧
    (name ∈ input.journal.state.files ∨ name ∈ journalledFiles effects)

/-- Every message of a file as staged is one of `messages`, or was found in the journal. -/
def Covers (input : PushInput) (effects : List PushEffect) (idx : Nat)
    (messages : List JournalMessage) : Prop :=
  ∃ name file, input.names[idx]? = some name ∧ input.out.staged idx = .ok file ∧
    messages.Sublist (file.lines.map (fun l => ⟨name, l.guid⟩)) ∧
    ∀ l ∈ file.lines, (⟨name, l.guid⟩ : JournalMessage) ∈ messages ∨
      (input.cfg.force = false ∧ input.Journalled effects (messageKey name l.guid))

/-- Every message of a file has been acknowledged, or was found in the journal. -/
def Delivered (input : PushInput) (effects : List PushEffect) (idx : Nat) (name : String) :
    Prop :=
  ∃ file, input.names[idx]? = some name ∧ input.out.staged idx = .ok file ∧
    ∀ l ∈ file.lines,
      (⟨name, l.guid⟩ : JournalMessage) ∈ ofFile idx (messagesIn (ackedBatches effects)) ∨
      (input.cfg.force = false ∧ input.Journalled effects (messageKey name l.guid))

end PushInput

namespace ImportPipeline

def acked (p : ImportPipeline) : List BatchMessage := messagesIn (ackedBatches p.effects)

def refused (p : ImportPipeline) : List BatchMessage := messagesIn (refusedBatches p.effects)

def posted (p : ImportPipeline) : List BatchMessage := messagesIn (postedBatches p.effects)

def pendingMessages (p : ImportPipeline) : List BatchMessage :=
  (p.pending.map ImportBatch.messages).getD []

theorem pendingMessages_none {p : ImportPipeline} (h : p.pending = none) :
    p.pendingMessages = [] := by
  rw [pendingMessages, h]
  rfl

end ImportPipeline

/-- What must have come before an effect. -/
def Justified (input : PushInput) (before : List PushEffect) : PushEffect → Prop
  | .journalledMessages _ messages _ =>
    ∃ batch ∈ ackedBatches before, messages = batch.messages.map BatchMessage.journal
  | .journalledFile idx _ name _ => input.Delivered before idx name
  | .acknowledged batch => batch ∈ postedBatches before
  | .posted _ | .refused _ | .journalledFailure .. => True

/-- What a row written before the end of a run says of its file. -/
structure RowSays (input : PushInput) (effects : List PushEffect) (idx : Nat) (r : FileResult) :
    Prop where
  file : input.names[idx]? = some r.file
  ok : r.status = .ok → input.Delivered effects idx r.file
  skipped : r.status = .skipped → input.Imported effects r.file
  notCancelled : r.status ≠ .cancelled

/-- What holds at every moment of a run. -/
structure History (input : PushInput) (p : ImportPipeline) : Prop where
  answered : (answeredBatches p.effects ++ p.inflight.toList).Sublist (postedBatches p.effects)
  queued : (p.posted ++ p.pendingMessages).Sublist p.queued
  toSend : ∀ idx, ofFile idx p.queued <+: ((p.trackers idx).map FileTracker.toSend).getD []
  covers : ∀ idx t, p.trackers idx = some t →
    input.names[idx]? = some t.name ∧ input.Covers p.effects idx t.toSend
  attempted : p.accounting.attempted = p.acked.length + p.refused.length
  failed : p.accounting.failed = p.refused.length
  ordered : ∀ before e after, p.effects = before ++ e :: after →
    Justified input before e
  journal : p.journal = p.effects.foldl RunJournal.record input.journal
  rows : ∀ idx r, p.results idx = some r → RowSays input p.effects idx r

/-- What holds between two calls that went through. `unsettled` are files whose row may still
    be owed, `unfailed` files that a refused batch has yet to fail, and `extra` messages
    acknowledged and not counted yet. -/
structure Tidy (unsettled unfailed : List Nat) (extra : List BatchMessage) (p : ImportPipeline) :
    Prop where
  counts : ∀ idx t, p.trackers idx = some t →
    t.outstandingMessages + (ofFile idx p.acked).length =
      t.toSend.length + (ofFile idx extra).length
  refused : ∀ idx t, p.trackers idx = some t → ofFile idx p.refused ≠ [] →
    t.failed ≠ none ∨ idx ∈ unfailed
  settled : ∀ idx t, p.trackers idx = some t → t.isSettled = true → idx ∈ unsettled
  done : ∀ idx t, p.trackers idx = some t → t.done = true → (p.results idx).isSome
  complete : ∀ idx t, p.trackers idx = some t → t.queueComplete = true → t.failed = none →
    ofFile idx p.queued = t.toSend

section
variable {input : PushInput} {p q : ImportPipeline} {effects effects' : List PushEffect} {e : PushEffect} {idx : Nat} {name : String}
  {batch : ImportBatch} {t t' : FileTracker}

/-! What a tracker keeps. -/

/-- Every tracked file is still tracked, under its name and with the messages it had to send. -/
def SameFiles (trackers trackers' : Nat → Option FileTracker) : Prop :=
  ∀ idx t, trackers idx = some t →
    ∃ t', trackers' idx = some t' ∧ t'.name = t.name ∧ t'.toSend = t.toSend

theorem SameFiles.refl (trackers : Nat → Option FileTracker) : SameFiles trackers trackers :=
  fun _ t h => ⟨t, h, rfl, rfl⟩

theorem sameFiles_setTracker (h : p.trackers idx = some t) (hname : t'.name = t.name)
    (hsend : t'.toSend = t.toSend) : SameFiles p.trackers (p.setTracker idx t').trackers := by
  intro i u hu
  by_cases hi : i = idx
  · subst hi
    cases h.symm.trans hu
    exact ⟨t', by simp, hname, hsend⟩
  · exact ⟨u, by simpa [hi] using hu, rfl, rfl⟩

theorem PushInput.Journalled.append {key : String} (h : input.Journalled effects key) :
    input.Journalled (effects ++ effects') key := by
  rcases h with h | h
  · exact .inl h
  · exact .inr (by rw [journalledKeys_append]; exact List.mem_append_left _ h)

theorem PushInput.Imported.append (h : input.Imported effects name) :
    input.Imported (effects ++ effects') name :=
  ⟨h.1, h.2.1, h.2.2.imp_right fun hin => by
    rw [journalledFiles_append]
    exact List.mem_append_left _ hin⟩

theorem PushInput.Covers.append {messages : List JournalMessage}
    (h : input.Covers effects idx messages) : input.Covers (effects ++ effects') idx messages := by
  obtain ⟨name, file, hname, hfile, hsub, hall⟩ := h
  exact ⟨name, file, hname, hfile, hsub, fun l hl => (hall l hl).imp_right fun h => ⟨h.1, h.2.append⟩⟩

theorem PushInput.Covers.mono {messages : List JournalMessage}
    (h : input.Covers effects idx messages) (hlog : effects <+: effects') :
    input.Covers effects' idx messages := by
  obtain ⟨later, rfl⟩ := hlog
  exact h.append

theorem PushInput.Delivered.append (h : input.Delivered effects idx name) :
    input.Delivered (effects ++ effects') idx name := by
  obtain ⟨file, hname, hfile, hall⟩ := h
  refine ⟨file, hname, hfile, fun l hl => (hall l hl).imp (fun h => ?_) fun h => ⟨h.1, h.2.append⟩⟩
  rw [ackedBatches_append, messagesIn_append, ofFile_append]
  exact List.mem_append_left _ h

theorem RowSays.append {r : FileResult} (h : RowSays input effects idx r) :
    RowSays input (effects ++ effects') idx r :=
  ⟨h.file, fun hok => (h.ok hok).append, fun hs => (h.skipped hs).append, h.notCancelled⟩

/-- An effect justified by what came before it keeps the order. -/
theorem ordered_log
    (h : ∀ before e after, effects = before ++ e :: after → Justified input before e)
    (hnew : Justified input effects e) :
    ∀ before e' after, effects ++ [e] = before ++ e' :: after → Justified input before e' := by
  intro before e' after heq
  rcases List.eq_nil_or_concat after with rfl | ⟨after', last, rfl⟩
  · obtain ⟨rfl, hlast⟩ := List.append_inj' heq rfl
    cases hlast
    exact hnew
  · rw [List.concat_eq_append, ← List.cons_append, ← List.append_assoc] at heq
    obtain ⟨heq, -⟩ := List.append_inj' heq rfl
    exact h before e' after' heq

/-! The history, kept by what a run does. -/

/-- A change of the trackers, the rows and the counters alone. -/
theorem History.update (h : History input p) (htrackers : SameFiles p.trackers q.trackers)
    (honly : ∀ idx t, q.trackers idx = some t →
      ∃ t', p.trackers idx = some t' ∧ t.name = t'.name ∧ t.toSend = t'.toSend)
    (hinflight : q.inflight.toList.Sublist p.inflight.toList)
    (hpending : q.pendingMessages.Sublist p.pendingMessages) (hqueued : q.queued = p.queued)
    (hacc : q.accounting = p.accounting) (heffects : q.effects = p.effects)
    (hjournal : q.journal = p.journal)
    (hrows : ∀ idx r, q.results idx = some r →
      p.results idx = some r ∨ RowSays input p.effects idx r) : History input q where
  answered := by
    rw [heffects]
    exact ((List.Sublist.refl _).append hinflight).trans h.answered
  queued := by
    rw [hqueued, ImportPipeline.posted, heffects]
    exact ((List.Sublist.refl _).append hpending).trans h.queued
  toSend := fun idx => by
    rw [hqueued]
    have hp := h.toSend idx
    cases ht : p.trackers idx with
    | none =>
      rw [ht] at hp
      have hnil : ofFile idx p.queued = [] := List.prefix_nil.mp hp
      rw [hnil]
      exact List.nil_prefix
    | some t =>
      rw [ht] at hp
      obtain ⟨t', ht', -, hsend⟩ := htrackers idx t ht
      rw [ht', Option.map_some, Option.getD_some, hsend]
      exact hp
  covers := fun idx t ht => by
    obtain ⟨t', ht', hname, hsend⟩ := honly idx t ht
    rw [hname, hsend, heffects]
    exact h.covers idx t' ht'
  attempted := by
    rw [hacc, ImportPipeline.acked, ImportPipeline.refused, heffects]
    exact h.attempted
  failed := by
    rw [hacc, ImportPipeline.refused, heffects]
    exact h.failed
  ordered := fun before e after heq => by
    rw [heffects] at heq
    exact h.ordered before e after heq
  journal := by
    rw [hjournal, heffects]
    exact h.journal
  rows := fun idx r hr => by
    rw [heffects]
    rcases hrows idx r hr with hr | hr
    · exact h.rows idx r hr
    · exact hr

/-- A change of the counters and the flags alone. -/
theorem History.counters (h : History input p) (htrackers : q.trackers = p.trackers)
    (hinflight : q.inflight.toList.Sublist p.inflight.toList)
    (hpending : q.pendingMessages.Sublist p.pendingMessages) (hqueued : q.queued = p.queued)
    (hacc : q.accounting = p.accounting) (heffects : q.effects = p.effects)
    (hjournal : q.journal = p.journal) (hrows : q.results = p.results) : History input q :=
  h.update (htrackers ▸ .refl _) (fun _ t ht => ⟨t, htrackers ▸ ht, rfl, rfl⟩) hinflight hpending
    hqueued hacc heffects hjournal (fun _ _ hr => .inl (hrows ▸ hr))

theorem History.setTracker (h : History input p) (ht : p.trackers idx = some t)
    (hname : t'.name = t.name) (hsend : t'.toSend = t.toSend) :
    History input (p.setTracker idx t') := by
  refine h.update (sameFiles_setTracker ht hname hsend) (fun i u hu => ?_) (.refl _) (.refl _) rfl
    rfl rfl rfl (fun _ _ hr => .inl hr)
  by_cases hi : i = idx
  · subst hi
    have hu' : u = t' := by simpa using hu.symm
    exact ⟨t, ht, by rw [hu', hname], by rw [hu', hsend]⟩
  · exact ⟨u, by simpa [hi] using hu, rfl, rfl⟩

theorem History.setResult {r : FileResult} (h : History input p)
    (hrow : RowSays input p.effects idx r) : History input (p.setResult idx r) := by
  refine h.update (.refl _) (fun i u hu => ⟨u, hu, rfl, rfl⟩) (.refl _) (.refl _) rfl rfl rfl rfl
    (fun i s hs => ?_)
  by_cases hi : i = idx
  · subst hi
    have hs' : s = r := by simpa using hs.symm
    subst hs'
    exact .inr hrow
  · exact .inl (by simpa [hi] using hs)

/-- An effect logged: a request answered or a row written. -/
theorem History.log (h : History input p) (hpending : q.pending = p.pending)
    (hqueued : q.queued = p.queued) (htrackers : q.trackers = p.trackers)
    (hrows : q.results = p.results) (heffects : q.effects = p.effects ++ [e])
    (hjust : Justified input p.effects e)
    (hanswered : (answeredBatches q.effects ++ q.inflight.toList).Sublist
      (postedBatches q.effects))
    (hposted : postedBatches [e] = [])
    (hattempted : q.accounting.attempted = q.acked.length + q.refused.length)
    (hfailed : q.accounting.failed = q.refused.length)
    (hjournal : q.journal = p.journal.record e) : History input q where
  answered := hanswered
  queued := by
    rw [hqueued, ImportPipeline.posted, heffects, postedBatches_append, hposted, List.append_nil,
      ImportPipeline.pendingMessages, hpending]
    exact h.queued
  toSend := by rw [hqueued, htrackers]; exact h.toSend
  covers := fun idx t ht => by
    rw [htrackers] at ht
    rw [heffects]
    exact ⟨(h.covers idx t ht).1, (h.covers idx t ht).2.append⟩
  attempted := hattempted
  failed := hfailed
  ordered := by
    rw [heffects]
    exact ordered_log h.ordered hjust
  journal := by
    rw [hjournal, heffects, List.foldl_append, ← h.journal]
    rfl
  rows := fun idx r hr => by
    rw [heffects]
    exact (h.rows idx r (hrows ▸ hr)).append

end

section
variable {input : PushInput} {p q r : ImportPipeline} {e : PushEffect} {idx : Nat}
  {batch : ImportBatch} {t t' : FileTracker} {unsettled unfailed : List Nat}
  {extra : List BatchMessage} {α : Type}

/-! What every call leaves alone. -/

def FileTracker.key (t : FileTracker) : String × List JournalMessage × Bool :=
  (t.name, t.toSend, t.queueComplete)

/-- Between two states of a call: the chunks queued, the files tracked and the rows written
    stay. -/
structure KeepsFiles (p q : ImportPipeline) : Prop where
  queued : q.queued = p.queued
  batchSize : q.batchSize = p.batchSize
  files : ∀ idx, (q.trackers idx).map FileTracker.key = (p.trackers idx).map FileTracker.key
  rows : ∀ idx, (p.results idx).isSome → (q.results idx).isSome
  checks : p.checks ≤ q.checks
  effects : p.effects <+: q.effects

theorem KeepsFiles.refl (p : ImportPipeline) : KeepsFiles p p :=
  ⟨rfl, rfl, fun _ => rfl, fun _ h => h, Nat.le_refl _, List.prefix_rfl⟩

theorem KeepsFiles.trans (h : KeepsFiles p q) (h' : KeepsFiles q r) : KeepsFiles p r :=
  ⟨h'.queued.trans h.queued, h'.batchSize.trans h.batchSize,
    fun idx => (h'.files idx).trans (h.files idx), fun idx hr => h'.rows idx (h.rows idx hr),
    h.checks.trans h'.checks, h.effects.trans h'.effects⟩

/-- The requests and what came of them stay. -/
structure SameRequests (p q : ImportPipeline) : Prop where
  pending : q.pending = p.pending
  inflight : q.inflight = p.inflight
  posted : postedBatches q.effects = postedBatches p.effects
  answered : answeredBatches q.effects = answeredBatches p.effects
  acked : ackedBatches q.effects = ackedBatches p.effects
  refused : refusedBatches q.effects = refusedBatches p.effects

theorem SameRequests.refl (p : ImportPipeline) : SameRequests p p := ⟨rfl, rfl, rfl, rfl, rfl, rfl⟩

theorem SameRequests.trans (h : SameRequests p q) (h' : SameRequests q r) : SameRequests p r :=
  ⟨h'.pending.trans h.pending, h'.inflight.trans h.inflight, h'.posted.trans h.posted,
    h'.answered.trans h.answered, h'.acked.trans h.acked, h'.refused.trans h.refused⟩

theorem kept_setTracker (ht : p.trackers idx = some t) (hkey : t'.key = t.key) :
    KeepsFiles p (p.setTracker idx t') := by
  refine ⟨rfl, rfl, fun i => ?_, fun _ h => h, Nat.le_refl _, List.prefix_rfl⟩
  by_cases hi : i = idx
  · subst hi
    simp [ht, hkey]
  · simp [hi]

theorem kept_setResult {row : FileResult} : KeepsFiles p (p.setResult idx row) := by
  refine ⟨rfl, rfl, fun _ => rfl, fun i h => ?_, Nat.le_refl _, List.prefix_rfl⟩
  by_cases hi : i = idx
  · subst hi
    simp
  · simpa [hi] using h

/-! Settling one file. -/

theorem settled_delivered (h : History input p) (htidy : Tidy unsettled unfailed [] p)
    (ht : p.trackers idx = some t) (hout : t.outstandingMessages = 0) :
    input.Delivered p.effects idx t.name := by
  have hcount := htidy.counts idx t ht
  rw [hout, ofFile_nil, List.length_nil, Nat.zero_add, Nat.add_zero] at hcount
  -- What was acknowledged is part of what was posted, and so of what was queued.
  have hsub : (ofFile idx p.acked).Sublist t.toSend := by
    have hacked : (ofFile idx p.acked).Sublist (ofFile idx p.posted) :=
      ofFile_sublist (messagesIn_sublist
        (ackedBatches_sublist.trans ((List.sublist_append_left _ _).trans h.answered)))
    have hposted : (ofFile idx p.posted).Sublist (ofFile idx p.queued) :=
      ofFile_sublist ((List.sublist_append_left _ _).trans h.queued)
    have hqueued := h.toSend idx
    rw [ht] at hqueued
    exact hacked.trans (hposted.trans hqueued.sublist)
  have hall : ofFile idx (messagesIn (ackedBatches p.effects)) = t.toSend :=
    hsub.eq_of_length hcount
  obtain ⟨hname, name, file, hname', hfile, -, hcovers⟩ := h.covers idx t ht
  cases hname.symm.trans hname'
  exact ⟨file, hname, hfile, fun l hl => (hcovers l hl).imp_left fun hm => by rw [hall]; exact hm⟩

theorem tidy_setTracker (h : Tidy unsettled unfailed extra p) (ht : p.trackers idx = some t)
    (hsend : t'.toSend = t.toSend) (hout : t'.outstandingMessages = t.outstandingMessages)
    (hcomplete : t'.queueComplete = true → t'.failed = none → ofFile idx p.queued = t'.toSend)
    (hfailed : t'.failed = none → t.failed = none) {unsettled' unfailed' : List Nat}
    (hsettled : t'.isSettled = true → idx ∈ unsettled')
    (hunsettled : ∀ i, i ≠ idx → i ∈ unsettled → i ∈ unsettled')
    (hunfailed : ∀ i, i ∈ unfailed → i ∈ unfailed' ∨ (i = idx ∧ t'.failed ≠ none))
    {results : Nat → Option FileResult} (hrow : t'.done = true → (results idx).isSome)
    (hrows : ∀ i, i ≠ idx → (p.results i).isSome → (results i).isSome) :
    Tidy unsettled' unfailed' extra { p.setTracker idx t' with results } := by
  have hself : (p.setTracker idx t').trackers idx = some t' := by simp
  have hother : ∀ i, i ≠ idx → (p.setTracker idx t').trackers i = p.trackers i :=
    fun i hi => by simp [hi]
  constructor
  · intro i u hu
    by_cases hi : i = idx
    · subst hi
      cases hself.symm.trans hu
      rw [hout, hsend]
      exact h.counts i t ht
    · exact h.counts i u ((hother i hi).symm.trans hu)
  · intro i u hu hne
    by_cases hi : i = idx
    · subst hi
      cases hself.symm.trans hu
      rcases h.refused i t ht hne with hf | hf
      · exact .inl fun h => hf (hfailed h)
      · exact (hunfailed i hf).elim .inr fun h => .inl h.2
    · rcases h.refused i u ((hother i hi).symm.trans hu) hne with hf | hf
      · exact .inl hf
      · exact (hunfailed i hf).elim .inr fun h => absurd h.1 hi
  · intro i u hu hset
    by_cases hi : i = idx
    · subst hi
      cases hself.symm.trans hu
      exact hsettled hset
    · exact hunsettled i hi (h.settled i u ((hother i hi).symm.trans hu) hset)
  · intro i u hu hdone
    by_cases hi : i = idx
    · subst hi
      cases hself.symm.trans hu
      exact hrow hdone
    · exact hrows i hi (h.done i u ((hother i hi).symm.trans hu) hdone)
  · intro i u hu hc hf
    by_cases hi : i = idx
    · subst hi
      cases hself.symm.trans hu
      exact hcomplete hc hf
    · exact h.complete i u ((hother i hi).symm.trans hu) hc hf

/-- A change of the journal, the counters and the rows of the log that are no request. -/
theorem tidy_same (h : Tidy unsettled unfailed extra p) (hreq : SameRequests p q)
    (htrackers : q.trackers = p.trackers) (hqueued : q.queued = p.queued)
    (hrows : ∀ idx, (p.results idx).isSome → (q.results idx).isSome) :
    Tidy unsettled unfailed extra q := by
  have hacked : q.acked = p.acked := by rw [ImportPipeline.acked, hreq.acked]; rfl
  have hrefused : q.refused = p.refused := by rw [ImportPipeline.refused, hreq.refused]; rfl
  constructor
  · intro idx t ht
    rw [hacked]
    exact h.counts idx t (htrackers ▸ ht)
  · intro idx t ht hne
    rw [hrefused] at hne
    exact h.refused idx t (htrackers ▸ ht) hne
  · exact fun idx t ht => h.settled idx t (htrackers ▸ ht)
  · exact fun idx t ht hdone => hrows idx (h.done idx t (htrackers ▸ ht) hdone)
  · intro idx t ht
    rw [hqueued]
    exact h.complete idx t (htrackers ▸ ht)

variable {out : Outside}

/-- How a call may fail: what is known of the past stays known. -/
def Failed (input : PushInput) (error : PushError) (q : ImportPipeline) : Prop :=
  error ≠ .stuck ∧ History input q

/-- The state a journal write leaves, whether it went through or not. -/
def ImportPipeline.wrote (out : Outside) (effect : Appended → PushEffect) (p : ImportPipeline) :
    ImportPipeline :=
  ({ p with
    journal := p.journal.record (effect (out.appended p.appends))
    appends := p.appends + 1 }).log (effect (out.appended p.appends))

theorem writeJournal_apply {effect : Appended → PushEffect} :
    writeJournal out effect p =
      ((if (out.appended p.appends).isOk then .ok () else .error .journal),
        p.wrote out effect) := by
  unfold writeJournal
  simp only [bind_apply, Op.get, Op.modify]
  split <;> rfl

theorem writeJournal_bind {effect : Appended → PushEffect} {f : Unit → PushM α}
    {Q : α → ImportPipeline → Prop} {E : PushError → ImportPipeline → Prop}
    (hok : Ends (f () (p.wrote out effect)) Q E) (herror : E .journal (p.wrote out effect)) :
    Ends ((writeJournal out effect >>= f) p) Q E := by
  rw [bind_apply, writeJournal_apply]
  by_cases h : (out.appended p.appends).isOk
  · rw [if_pos h]
    exact hok
  · rw [if_neg h]
    exact herror

theorem recordFailure_apply {source file stage error : String} :
    recordFailure out source file stage error p =
      (.ok (), p.wrote out (.journalledFailure source file stage error)) := by
  unfold recordFailure Op.ignore
  rw [writeJournal_apply]

/-- An effect that only writes to the journal. -/
def PushEffect.IsRow (e : PushEffect) : Prop :=
  postedBatches [e] = [] ∧ answeredBatches [e] = [] ∧ ackedBatches [e] = [] ∧
    refusedBatches [e] = []

/-- A row written to the journal is no request. -/
theorem sameRequests_wrote {effect : Appended → PushEffect} (h : ∀ how, (effect how).IsRow) :
    SameRequests p (p.wrote out effect) := by
  obtain ⟨hposted, hanswered, hacked, hrefused⟩ := h (out.appended p.appends)
  refine ⟨rfl, rfl, ?_, ?_, ?_, ?_⟩ <;> simp only [ImportPipeline.wrote, ImportPipeline.log]
  · rw [postedBatches_append, hposted, List.append_nil]
  · rw [answeredBatches_append, hanswered, List.append_nil]
  · rw [ackedBatches_append, hacked, List.append_nil]
  · rw [refusedBatches_append, hrefused, List.append_nil]

theorem kept_wrote {effect : Appended → PushEffect} : KeepsFiles p (p.wrote out effect) :=
  ⟨rfl, rfl, fun _ => rfl, fun _ h => h, Nat.le_refl _, List.prefix_append _ _⟩

/-- A row written to the journal, after what it tells of. -/
theorem History.wrote {effect : Appended → PushEffect} (h : History input p)
    (hrow : ∀ how, (effect how).IsRow) (hjust : ∀ how, Justified input p.effects (effect how)) :
    History input (p.wrote out effect) := by
  have hreq : SameRequests p (p.wrote out effect) := sameRequests_wrote hrow
  have hacked : (p.wrote out effect).acked = p.acked := by
    rw [ImportPipeline.acked, hreq.acked]; rfl
  have hrefused : (p.wrote out effect).refused = p.refused := by
    rw [ImportPipeline.refused, hreq.refused]; rfl
  refine h.log rfl rfl rfl rfl rfl (hjust _) ?_ (hrow _).1 ?_ ?_ rfl
  · rw [hreq.posted, hreq.answered]
    exact h.answered
  · rw [hacked, hrefused]
    exact h.attempted
  · rw [hrefused]
    exact h.failed

theorem finishFileIfSettled_ends (h : History input p) (htidy : Tidy (idx :: unsettled) [] [] p) :
    Ends (finishFileIfSettled out idx p)
      (fun _ q => History input q ∧ Tidy unsettled [] [] q ∧ KeepsFiles p q ∧ SameRequests p q)
      (Failed input) := by
  unfold finishFileIfSettled
  refine .get_bind ?_
  cases ht : p.trackers idx with
  | none =>
    refine ⟨h, ⟨htidy.counts, htidy.refused, fun i t hi hset => ?_, htidy.done, htidy.complete⟩, .refl p, .refl p⟩
    rcases List.mem_cons.mp (htidy.settled i t hi hset) with rfl | hin
    · rw [ht] at hi; cases hi
    · exact hin
  | some t =>
    refine .ite (fun hset => .modify_bind ?_) fun hset => ?_
    · rw [FileTracker.isSettled_iff] at hset
      obtain ⟨t', ht'⟩ : ∃ t' : FileTracker, t' = { t with done := true } := ⟨_, rfl⟩
      rw [← ht']
      have hname := (h.covers idx t ht).1
      have hdone : History input (p.setTracker idx t') := h.setTracker ht (by rw [ht']) (by rw [ht'])
      have hkept : KeepsFiles p (p.setTracker idx t') := kept_setTracker ht (by rw [ht']; rfl)
      -- With its row written, the file owes nothing.
      have hrow : ∀ row, Tidy unsettled [] [] ((p.setTracker idx t').setResult idx row) := by
        intro row
        refine tidy_setTracker htidy ht (by rw [ht']) (by rw [ht'])
          (fun hc hf => ?_) (fun hf => by rw [ht'] at hf; exact hf)
          (fun hset => absurd (by rw [ht']) (FileTracker.isSettled_iff.mp hset).1)
          (fun i hi hin => (List.mem_cons.mp hin).resolve_left hi) (fun _ hf => by cases hf)
          (fun _ => by simp) (fun i hi hr => by simpa [hi] using hr)
        rw [ht'] at hc hf ⊢
        exact htidy.complete idx t ht hc hf
      cases hfailed : t.failed with
      | some error =>
        exact ⟨hdone.setResult ⟨hname, nofun, nofun, nofun⟩, hrow _, hkept.trans kept_setResult,
          ⟨rfl, rfl, rfl, rfl, rfl, rfl⟩⟩
      | none =>
        obtain ⟨-, hzero⟩ := hset.2.resolve_left (fun hf => hf hfailed)
        have hall : input.Delivered p.effects idx t.name := settled_delivered h htidy ht hzero
        have hwrote : History input
            ((p.setTracker idx t').wrote out (.journalledFile idx t.source t.name)) :=
          hdone.wrote (fun _ => ⟨rfl, rfl, rfl, rfl⟩) fun _ => hall
        refine writeJournal_bind ?_ ⟨nofun, hwrote⟩
        have hreq : SameRequests (p.setTracker idx t')
            ((p.setTracker idx t').wrote out (.journalledFile idx t.source t.name)) :=
          sameRequests_wrote fun _ => ⟨rfl, rfl, rfl, rfl⟩
        have hsame : SameRequests p ((p.setTracker idx t').wrote out
            (.journalledFile idx t.source t.name)) :=
          ⟨rfl, rfl, hreq.posted, hreq.answered, hreq.acked, hreq.refused⟩
        refine ⟨hwrote.setResult ⟨hname, fun _ => hall.append, nofun, nofun⟩, ?_, ?_, ?_⟩
        · exact tidy_same (hrow ⟨t.name, .ok, none, t.successfulMessages, t.attachments⟩)
            ⟨rfl, rfl, hreq.posted, hreq.answered, hreq.acked, hreq.refused⟩ rfl rfl fun _ hr => hr
        · exact hkept.trans (kept_wrote.trans kept_setResult)
        · exact ⟨rfl, rfl, hsame.posted, hsame.answered, hsame.acked, hsame.refused⟩
    · refine ⟨h, ⟨htidy.counts, htidy.refused, fun i u hi hu => ?_, htidy.done, htidy.complete⟩,
        .refl p, .refl p⟩
      rcases List.mem_cons.mp (htidy.settled i u hi hu) with rfl | hin
      · cases ht.symm.trans hi
        exact absurd hu hset
      · exact hin

/-! One answered request. -/

/-- A refused batch fails a file that has not failed yet. -/
theorem failFile_ends {source error : String} (h : History input p)
    (htidy : Tidy unsettled (idx :: unfailed) [] p) (hin : idx ∈ unsettled) :
    Ends (failFile out source error idx p)
      (fun _ q => History input q ∧ Tidy unsettled unfailed [] q ∧ KeepsFiles p q ∧ SameRequests p q)
      (Failed input) := by
  unfold failFile
  refine .get_bind ?_
  cases ht : p.trackers idx with
  | none =>
    refine ⟨h, ⟨htidy.counts, fun i t hi hne => ?_, htidy.settled, htidy.done, htidy.complete⟩, .refl p, .refl p⟩
    rcases htidy.refused i t hi hne with hf | hf
    · exact .inl hf
    · rcases List.mem_cons.mp hf with rfl | hf
      · rw [ht] at hi; cases hi
      · exact .inr hf
  | some t =>
    refine .ite (fun hnone => .modify_bind ?_) fun hsome => ?_
    · obtain ⟨t', ht'⟩ : ∃ t' : FileTracker, t' = { t with failed := some error } := ⟨_, rfl⟩
      rw [← ht']
      have hmarked : Tidy unsettled unfailed [] (p.setTracker idx t') := by
        refine tidy_setTracker htidy ht (by rw [ht']) (by rw [ht']) (fun _ hf => ?_) (fun hf => ?_)
          (fun _ => hin) (fun _ _ h => h) (fun i hf => ?_) (fun hdone => ?_) (fun _ _ hr => hr)
        · rw [ht'] at hf; cases hf
        · rw [ht'] at hf; cases hf
        · rcases List.mem_cons.mp hf with rfl | hf
          · exact .inr ⟨rfl, by rw [ht']; simp⟩
          · exact .inl hf
        · rw [ht'] at hdone
          exact htidy.done idx t ht hdone
      have hhist : History input (p.setTracker idx t') := h.setTracker ht (by rw [ht']) (by rw [ht'])
      have hkept : KeepsFiles p (p.setTracker idx t') := kept_setTracker ht (by rw [ht']; rfl)
      have hreq : SameRequests (p.setTracker idx t')
          ((p.setTracker idx t').wrote out (.journalledFailure source t.name "import" error)) :=
        sameRequests_wrote fun _ => ⟨rfl, rfl, rfl, rfl⟩
      rw [recordFailure_apply]
      refine ⟨?_, ?_, hkept.trans kept_wrote, ?_⟩
      · exact hhist.wrote (fun _ => ⟨rfl, rfl, rfl, rfl⟩) fun _ => trivial
      · exact tidy_same hmarked hreq rfl rfl fun _ hr => hr
      · exact ⟨rfl, rfl, hreq.posted, hreq.answered, hreq.acked, hreq.refused⟩
    · refine ⟨h, ⟨htidy.counts, fun i u hi hne => ?_, htidy.settled, htidy.done, htidy.complete⟩,
        .refl p, .refl p⟩
      rcases htidy.refused i u hi hne with hf | hf
      · exact .inl hf
      · rcases List.mem_cons.mp hf with rfl | hf
        · cases ht.symm.trans hi
          exact .inl fun hnone => hsome (by rw [hnone]; rfl)
        · exact .inr hf

/-- Counting the messages of an acknowledged batch. -/
theorem accept_spec (messages : List BatchMessage) (htidy : Tidy unsettled unfailed messages p)
    (hbound : ∀ idx t, p.trackers idx = some t → (ofFile idx p.acked).length ≤ t.toSend.length)
    (hin : ∀ m ∈ messages, m.fileIndex ∈ unsettled) (h : History input p) :
    History input (p.accept messages) ∧ Tidy unsettled unfailed [] (p.accept messages) ∧
      KeepsFiles p (p.accept messages) ∧ SameRequests p (p.accept messages) := by
  induction messages generalizing p with
  | nil => exact ⟨h, htidy, .refl p, .refl p⟩
  | cons m messages ih =>
    have hrest : ∀ m ∈ messages, m.fileIndex ∈ unsettled :=
      fun m hm => hin m (List.mem_cons_of_mem _ hm)
    have hsplit : ∀ i, ofFile i (m :: messages) =
        (if m.fileIndex = i then [m.journal] else []) ++ ofFile i messages := by
      intro i
      by_cases hi : m.fileIndex = i <;> simp [ofFile, hi]
    rw [ImportPipeline.accept]
    cases ht : p.trackers m.fileIndex with
    | none =>
      refine ih ⟨fun i t hi => ?_, htidy.refused, htidy.settled, htidy.done, htidy.complete⟩ hbound hrest h
      have hne : m.fileIndex ≠ i := fun he => by rw [he, hi] at ht; cases ht
      have hcount := htidy.counts i t hi
      rw [hsplit, if_neg hne] at hcount
      exact hcount
    | some t =>
      have hcount := htidy.counts m.fileIndex t ht
      have hle := hbound m.fileIndex t ht
      rw [hsplit, if_pos rfl, List.length_append, List.length_singleton] at hcount
      have haccepted : Tidy unsettled unfailed messages (p.setTracker m.fileIndex t.accept) := by
        refine ⟨fun i u hu => ?_, fun i u hu hne => ?_, fun i u hu hset => ?_, fun i u hu hd => ?_,
          fun i u hu hc hf => ?_⟩ <;> by_cases hi : i = m.fileIndex
        · subst hi
          have hu' : u = t.accept := by simpa using hu.symm
          subst hu'
          change t.outstandingMessages - 1 + (ofFile m.fileIndex p.acked).length =
            t.toSend.length + _
          omega
        · have hc := htidy.counts i u (by simpa [hi] using hu)
          rw [hsplit, if_neg (Ne.symm hi)] at hc
          exact hc
        · subst hi
          have hu' : u = t.accept := by simpa using hu.symm
          subst hu'
          exact htidy.refused _ t ht hne
        · exact htidy.refused i u (by simpa [hi] using hu) hne
        · exact hi ▸ hin m List.mem_cons_self
        · exact htidy.settled i u (by simpa [hi] using hu) hset
        · subst hi
          have hu' : u = t.accept := by simpa using hu.symm
          subst hu'
          exact htidy.done _ t ht hd
        · exact htidy.done i u (by simpa [hi] using hu) hd
        · subst hi
          have hu' : u = t.accept := by simpa using hu.symm
          subst hu'
          exact htidy.complete _ t ht hc hf
        · exact htidy.complete i u (by simpa [hi] using hu) hc hf
      have hbound' : ∀ i u, (p.setTracker m.fileIndex t.accept).trackers i = some u →
          (ofFile i p.acked).length ≤ u.toSend.length := by
        intro i u hu
        by_cases hi : i = m.fileIndex
        · subst hi
          have hu' : u = t.accept := by simpa using hu.symm
          subst hu'
          exact hle
        · exact hbound i u (by simpa [hi] using hu)
      obtain ⟨hh, htd, hk, hr⟩ := ih haccepted hbound' hrest (h.setTracker ht rfl rfl)
      have hkept : KeepsFiles p (p.setTracker m.fileIndex t.accept) := kept_setTracker ht rfl
      exact ⟨hh, htd, hkept.trans hk, ⟨hr.pending, hr.inflight, hr.posted,
        hr.answered, hr.acked, hr.refused⟩⟩

/-- What holds whenever a call has gone through: what was posted is answered or in flight. -/
structure Steady (input : PushInput) (p : ImportPipeline) : Prop where
  history : History input p
  tidy : Tidy [] [] [] p
  sent : answeredBatches p.effects ++ p.inflight.toList = postedBatches p.effects

/-- What holds until a cancel drops the pending batch: what was queued is posted or pending. -/
structure Ready (input : PushInput) (p : ImportPipeline) : Prop extends Steady input p where
  allQueued : p.posted ++ p.pendingMessages = p.queued

theorem Steady.ready (h : Steady input q) (hready : Ready input p) (hkept : KeepsFiles p q)
    (hpending : q.pending = p.pending)
    (hposted : postedBatches q.effects = postedBatches p.effects) : Ready input q := by
  refine ⟨h, ?_⟩
  rw [ImportPipeline.posted, hposted, ImportPipeline.pendingMessages, hpending, hkept.queued]
  exact hready.allQueued

theorem mem_fileIndexes {i : Nat} :
    i ∈ batch.fileIndexes ↔ ∃ m ∈ batch.messages, m.fileIndex = i := by
  simp [ImportBatch.fileIndexes]

theorem finishFiles_ends (l : List Nat) (h : History input p) (htidy : Tidy l [] [] p) :
    Ends (Op.forEach (finishFileIfSettled out) l p)
      (fun _ q => History input q ∧ Tidy [] [] [] q ∧ KeepsFiles p q ∧ SameRequests p q)
      (Failed input) := by
  refine Meets.forEach (P := fun l q => History input q ∧ Tidy l [] [] q ∧ KeepsFiles p q ∧
    SameRequests p q) (fun i l q hq => ?_) l p ⟨h, htidy, .refl p, .refl p⟩
  obtain ⟨hh, ht, hk, hr⟩ := hq
  exact (finishFileIfSettled_ends hh ht).imp
    fun _ _ ⟨hh', ht', hk', hr'⟩ => ⟨hh', ht', hk.trans hk', hr.trans hr'⟩

theorem failFiles_ends {source error : String} (l : List Nat) (h : History input p)
    (htidy : Tidy unsettled l [] p) (hsub : ∀ i ∈ l, i ∈ unsettled) :
    Ends (Op.forEach (failFile out source error) l p)
      (fun _ q => History input q ∧ Tidy unsettled [] [] q ∧ KeepsFiles p q ∧ SameRequests p q)
      (Failed input) := by
  refine (Meets.forEach (P := fun l q => (∀ i ∈ l, i ∈ unsettled) ∧ History input q ∧
    Tidy unsettled l [] q ∧ KeepsFiles p q ∧ SameRequests p q) (fun i l q hq => ?_) l p
    ⟨hsub, h, htidy, .refl p, .refl p⟩).imp fun _ _ hq => hq.2
  obtain ⟨hsub, hh, ht, hk, hr⟩ := hq
  exact (failFile_ends hh ht (hsub i List.mem_cons_self)).imp
    fun _ _ ⟨hh', ht', hk', hr'⟩ => ⟨fun j hj => hsub j (List.mem_cons_of_mem _ hj), hh', ht',
      hk.trans hk', hr.trans hr'⟩

theorem ofFile_ne_nil {i : Nat} (h : ofFile i batch.messages ≠ []) : i ∈ batch.fileIndexes := by
  obtain ⟨m, hm⟩ := List.exists_mem_of_ne_nil _ h
  exact mem_fileIndexes.mpr ⟨_, mem_ofFile.mp hm, rfl⟩

theorem applyRefused_ends {error : BatchError} (h : History input p) (htidy : Tidy [] [] [] p)
    (hsent : (answeredBatches p.effects ++ [batch] ++ p.inflight.toList).Sublist
      (postedBatches p.effects)) :
    Ends (applyRefused out batch error p)
      (fun _ q => History input q ∧ Tidy batch.fileIndexes [] [] q ∧ KeepsFiles p q ∧
        q.pending = p.pending ∧ q.inflight = p.inflight ∧
        postedBatches q.effects = postedBatches p.effects ∧
        answeredBatches q.effects = answeredBatches p.effects ++ [batch])
      (Failed input) := by
  unfold applyRefused
  refine .modify_bind (.get_bind ?_)
  obtain ⟨q, hq⟩ : ∃ q, q = ({ p with
      accounting := { p.accounting with
        attempted := p.accounting.attempted + batch.messages.length
        failed := p.accounting.failed + batch.messages.length } }).log (.refused batch) := ⟨_, rfl⟩
  have heffects : q.effects = p.effects ++ [.refused batch] := by rw [hq]; rfl
  have hacked : q.acked = p.acked := by
    simp [ImportPipeline.acked, heffects, ackedBatches]
  have hrefused : q.refused = p.refused ++ batch.messages := by
    simp [ImportPipeline.refused, heffects, refusedBatches]
  have hposted : postedBatches q.effects = postedBatches p.effects := by
    simp [heffects, postedBatches]
  have hanswered : answeredBatches q.effects = answeredBatches p.effects ++ [batch] := by
    simp [heffects, answeredBatches]
  have hhist : History input q := by
    refine h.log (by rw [hq]; rfl) (by rw [hq]; rfl) (by rw [hq]; rfl) (by rw [hq]; rfl) heffects
      trivial ?_ rfl ?_ ?_ (by rw [hq]; rfl)
    · rw [hanswered, hposted, hq]
      exact hsent
    · rw [hacked, hrefused, List.length_append, hq]
      have := h.attempted
      simp only [ImportPipeline.log]
      omega
    · rw [hrefused, List.length_append, hq]
      have := h.failed
      simp only [ImportPipeline.log]
      omega
  have htidy' : Tidy batch.fileIndexes batch.fileIndexes [] q := by
    refine ⟨fun i t hi => ?_, fun i t hi hne => ?_, fun i t hi hset => ?_, fun i t hi => ?_,
      fun i t hi => ?_⟩
    · rw [hacked]
      exact htidy.counts i t (by rw [hq] at hi; exact hi)
    · rw [hrefused, ofFile_append] at hne
      by_cases hold : ofFile i p.refused = []
      · rw [hold, List.nil_append] at hne
        exact .inr (ofFile_ne_nil hne)
      · exact .inl ((htidy.refused i t (by rw [hq] at hi; exact hi) hold).resolve_right nofun)
    · exact absurd (htidy.settled i t (by rw [hq] at hi; exact hi) hset) nofun
    · rw [hq] at hi ⊢
      exact htidy.done i t hi
    · rw [hq] at hi ⊢
      exact htidy.complete i t hi
  have hkept : KeepsFiles p q := by
    rw [hq]
    exact ⟨rfl, rfl, fun _ => rfl, fun _ h => h, Nat.le_refl _, List.prefix_append _ _⟩
  rw [← hq]
  refine (failFiles_ends batch.fileIndexes hhist htidy' fun _ hi => hi).imp
    fun _ r ⟨hh, ht, hk, hr⟩ => ?_
  refine ⟨hh, ht, hkept.trans hk, hr.pending.trans (by rw [hq]; rfl),
    hr.inflight.trans (by rw [hq]; rfl), hr.posted.trans hposted, hr.answered.trans hanswered⟩

theorem applyOk_ends {response : CreateImportBatchResponse} (h : History input p)
    (htidy : Tidy [] [] [] p)
    (hsent : (answeredBatches p.effects ++ [batch] ++ p.inflight.toList).Sublist
      (postedBatches p.effects)) :
    Ends (applyOk out batch response p)
      (fun _ q => History input q ∧ Tidy batch.fileIndexes [] [] q ∧ KeepsFiles p q ∧
        q.pending = p.pending ∧ q.inflight = p.inflight ∧
        postedBatches q.effects = postedBatches p.effects ∧
        answeredBatches q.effects = answeredBatches p.effects ++ [batch])
      (Failed input) := by
  unfold applyOk
  refine .modify_bind ?_
  obtain ⟨q, hq⟩ : ∃ q, q = ({ p with
      accounting := { p.accounting with
        attempted := p.accounting.attempted + batch.messages.length
        inserted := p.accounting.inserted + response.messagesAppended
        deduped := p.accounting.deduped + response.messagesDeduped } }).log (.acknowledged batch) :=
    ⟨_, rfl⟩
  rw [← hq]
  have heffects : q.effects = p.effects ++ [.acknowledged batch] := by rw [hq]; rfl
  have hacked : q.acked = p.acked ++ batch.messages := by
    simp [ImportPipeline.acked, heffects, ackedBatches]
  have hrefused : q.refused = p.refused := by
    simp [ImportPipeline.refused, heffects, refusedBatches]
  have hposted : postedBatches q.effects = postedBatches p.effects := by
    simp [heffects, postedBatches]
  have hanswered : answeredBatches q.effects = answeredBatches p.effects ++ [batch] := by
    simp [heffects, answeredBatches]
  have hhist : History input q := by
    refine h.log (by rw [hq]; rfl) (by rw [hq]; rfl) (by rw [hq]; rfl) (by rw [hq]; rfl) heffects
      ?_ ?_ rfl ?_ ?_ (by rw [hq]; rfl)
    · exact hsent.mem (by simp)
    · rw [hanswered, hposted, hq]
      exact hsent
    · rw [hacked, hrefused, List.length_append, hq]
      have := h.attempted
      simp only [ImportPipeline.log]
      omega
    · rw [hrefused, hq]
      exact h.failed
  have hkept : KeepsFiles p q := by
    rw [hq]
    exact ⟨rfl, rfl, fun _ => rfl, fun _ h => h, Nat.le_refl _, List.prefix_append _ _⟩
  have htidy' : Tidy batch.fileIndexes [] batch.messages q := by
    refine ⟨fun i t hi => ?_, fun i t hi hne => ?_, fun i t hi hset => ?_, fun i t hi => ?_,
      fun i t hi => ?_⟩
    · rw [hacked, ofFile_append, List.length_append]
      have := htidy.counts i t (by rw [hq] at hi; exact hi)
      rw [ofFile_nil, List.length_nil] at this
      omega
    · rw [hrefused] at hne
      exact htidy.refused i t (by rw [hq] at hi; exact hi) hne
    · exact absurd (htidy.settled i t (by rw [hq] at hi; exact hi) hset) nofun
    · rw [hq] at hi ⊢
      exact htidy.done i t hi
    · rw [hq] at hi ⊢
      exact htidy.complete i t hi
  -- The rows of the messages go into the journal, after the answer that told of them.
  obtain ⟨r, hr⟩ : ∃ r, r = q.wrote out (.journalledMessages batch.source
      (batch.messages.map BatchMessage.journal)) := ⟨_, rfl⟩
  have hreq : SameRequests q r := hr ▸ sameRequests_wrote fun _ => ⟨rfl, rfl, rfl, rfl⟩
  have hhist' : History input r := by
    rw [hr]
    exact hhist.wrote (fun _ => ⟨rfl, rfl, rfl, rfl⟩)
      fun _ => ⟨batch, by simp [heffects, ackedBatches], rfl⟩
  have htidy'' : Tidy batch.fileIndexes [] batch.messages r :=
    tidy_same htidy' hreq (by rw [hr]; rfl) (by rw [hr]; rfl) (by rw [hr]; exact fun _ h => h)
  have hkept' : KeepsFiles q r := hr ▸ kept_wrote
  have hbound : ∀ i t, r.trackers i = some t → (ofFile i r.acked).length ≤ t.toSend.length := by
    intro i t hi
    have hsub : (ofFile i r.acked).Sublist (ofFile i r.queued) :=
      (ofFile_sublist (messagesIn_sublist (ackedBatches_sublist.trans
        ((List.sublist_append_left _ _).trans hhist'.answered)))).trans
        (ofFile_sublist ((List.sublist_append_left _ _).trans hhist'.queued))
    have hsend := hhist'.toSend i
    rw [hi] at hsend
    exact (hsub.trans hsend.sublist).length_le
  refine writeJournal_bind ?_ ⟨nofun, hr ▸ hhist'⟩
  rw [← hr]
  obtain ⟨hh, ht, hk, hs⟩ := accept_spec batch.messages htidy'' hbound
    (fun m hm => mem_fileIndexes.mpr ⟨m, hm, rfl⟩) hhist'
  have hsame := hreq.trans hs
  exact ⟨hh, ht, hkept.trans (hkept'.trans hk), hsame.pending.trans (by rw [hq]; rfl),
    hsame.inflight.trans (by rw [hq]; rfl), hsame.posted.trans hposted,
    hsame.answered.trans hanswered⟩

theorem applyOutcome_ends {answer : Except BatchError CreateImportBatchResponse}
    (h : History input p) (htidy : Tidy [] [] [] p) (hinflight : p.inflight = none)
    (hsent : answeredBatches p.effects ++ [batch] = postedBatches p.effects) :
    Ends (applyOutcome out batch answer p)
      (fun _ q => Steady input q ∧ KeepsFiles p q ∧ q.pending = p.pending ∧ q.inflight = none ∧
        postedBatches q.effects = postedBatches p.effects)
      (Failed input) := by
  have hsub : (answeredBatches p.effects ++ [batch] ++ p.inflight.toList).Sublist
      (postedBatches p.effects) := by
    rw [hinflight, ← hsent]
    simp
  have hfinish : ∀ q, History input q ∧ Tidy batch.fileIndexes [] [] q ∧ KeepsFiles p q ∧
      q.pending = p.pending ∧ q.inflight = p.inflight ∧
      postedBatches q.effects = postedBatches p.effects ∧
      answeredBatches q.effects = answeredBatches p.effects ++ [batch] →
      Ends ((do
          Op.forEach (finishFileIfSettled out) batch.fileIndexes
          pure answer.isOk : PushM Bool) q)
        (fun _ r => Steady input r ∧ KeepsFiles p r ∧ r.pending = p.pending ∧ r.inflight = none ∧
          postedBatches r.effects = postedBatches p.effects)
        (Failed input) := by
    intro q ⟨hh, ht, hk, hpending, hin, hposted, hanswered⟩
    refine (finishFiles_ends batch.fileIndexes hh ht).bind fun _ r ⟨hh', ht', hk', hs⟩ => .pure ?_
    have hnone : r.inflight = none := hs.inflight.trans (hin.trans hinflight)
    have hsame : postedBatches r.effects = postedBatches p.effects := hs.posted.trans hposted
    refine ⟨⟨hh', ht', ?_⟩, hk.trans hk', hs.pending.trans hpending, hnone, hsame⟩
    rw [hnone, hs.answered, hsame, hanswered, hsent]
    simp
  unfold applyOutcome
  cases answer with
  | ok response => exact (applyOk_ends h htidy hsub).bind fun _ q hq => hfinish q hq
  | error error => exact (applyRefused_ends h htidy hsub).bind fun _ q hq => hfinish q hq

theorem joinInflight_ends (h : Steady input p) :
    Ends (joinInflight out p)
      (fun _ q => Steady input q ∧ KeepsFiles p q ∧ q.pending = p.pending ∧ q.inflight = none ∧
        postedBatches q.effects = postedBatches p.effects)
      (Failed input) := by
  unfold joinInflight
  refine .get_bind ?_
  cases hin : p.inflight with
  | none => exact ⟨h, .refl p, rfl, hin, rfl⟩
  | some batch =>
    refine .modify_bind ?_
    obtain ⟨q, hq⟩ : ∃ q, q = { p with inflight := none, requests := p.requests + 1 } := ⟨_, rfl⟩
    rw [← hq]
    have hhist : History input q := by
      rw [hq]
      exact h.history.counters rfl (by simp) (.refl _) rfl rfl rfl rfl rfl
    have htidy : Tidy [] [] [] q := by
      rw [hq]
      exact ⟨h.tidy.counts, h.tidy.refused, h.tidy.settled, h.tidy.done, h.tidy.complete⟩
    have hkept : KeepsFiles p q := by
      rw [hq]
      exact ⟨rfl, rfl, fun _ => rfl, fun _ h => h, Nat.le_refl _, List.prefix_rfl⟩
    have hsent : answeredBatches q.effects ++ [batch] = postedBatches q.effects := by
      have := h.sent
      rw [hin] at this
      rw [hq]
      exact this
    have hdone : ∀ answer, Ends (applyOutcome out batch answer q)
        (fun _ r => Steady input r ∧ KeepsFiles p r ∧ r.pending = p.pending ∧ r.inflight = none ∧
          postedBatches r.effects = postedBatches p.effects)
        (Failed input) := fun answer =>
      (applyOutcome_ends hhist htidy (by rw [hq]) hsent).imp
        fun _ r ⟨hr, hk, hp, hi, hs⟩ =>
          ⟨hr, hkept.trans hk, hp.trans (by rw [hq]), hi, hs.trans (by rw [hq])⟩
    cases out.answer p.requests with
    | panicked => exact ⟨nofun, hhist⟩
    | ok response => exact hdone _
    | refused error => exact hdone _

/-! A flush. -/

/-- A look at the cancel flag has found it set. -/
def Stopped (out : Outside) (p : ImportPipeline) : Prop :=
  ∃ n, n < p.checks ∧ out.cancelledAt n = true

theorem Stopped.mono (h : Stopped out p) (hle : p.checks ≤ q.checks) : Stopped out q := by
  obtain ⟨n, hn, hc⟩ := h
  exact ⟨n, hn.trans_le hle, hc⟩

theorem isCancelled_apply : isCancelled out p =
    (.ok (out.cancelledAt p.checks), { p with checks := p.checks + 1 }) := rfl

theorem Steady.checked (h : Steady input p) : Steady input { p with checks := p.checks + 1 } :=
  ⟨h.history.counters rfl (.refl _) (.refl _) rfl rfl rfl rfl rfl,
    ⟨h.tidy.counts, h.tidy.refused, h.tidy.settled, h.tidy.done, h.tidy.complete⟩, h.sent⟩

theorem Ready.checked (h : Ready input p) : Ready input { p with checks := p.checks + 1 } :=
  ⟨h.toSteady.checked, h.allQueued⟩

theorem keepsFiles_checked : KeepsFiles p { p with checks := p.checks + 1 } :=
  ⟨rfl, rfl, fun _ => rfl, fun _ h => h, Nat.le_succ _, List.prefix_rfl⟩

/-- The pending batch is sent. -/
theorem Ready.spawn (h : Ready input p) (hpending : p.pending = some batch)
    (hinflight : p.inflight = none)
    (hq : q = ({ p with pending := none, checks := p.checks + 1, inflight := some batch }).log
      (.posted batch)) : Ready input q ∧ KeepsFiles p q := by
  have heffects : q.effects = p.effects ++ [.posted batch] := by rw [hq]; rfl
  have hacked : q.acked = p.acked := by simp [ImportPipeline.acked, heffects, ackedBatches]
  have hrefused : q.refused = p.refused := by
    simp [ImportPipeline.refused, heffects, refusedBatches]
  have hposted : q.posted = p.posted ++ batch.messages := by
    simp [ImportPipeline.posted, heffects, postedBatches]
  have hanswered : answeredBatches q.effects = answeredBatches p.effects := by
    simp [heffects, answeredBatches]
  have hsent : answeredBatches q.effects ++ q.inflight.toList = postedBatches q.effects := by
    have := h.sent
    rw [hinflight] at this
    rw [hanswered, heffects, postedBatches_append, ← this, hq]
    simp [postedBatches, ImportPipeline.log]
  have hmessages : q.posted ++ q.pendingMessages = p.posted ++ p.pendingMessages := by
    rw [hposted]
    simp [ImportPipeline.pendingMessages, hpending, hq, ImportPipeline.log]
  have htrackers : q.trackers = p.trackers := by rw [hq]; rfl
  have hqueued : q.queued = p.queued := by rw [hq]; rfl
  have hresults : q.results = p.results := by rw [hq]; rfl
  have hacc : q.accounting = p.accounting := by rw [hq]; rfl
  have hjournal : q.journal = p.journal := by rw [hq]; rfl
  refine ⟨⟨⟨⟨?_, ?_, ?_, ?_, ?_, ?_, ?_, ?_, ?_⟩, ⟨?_, ?_, ?_, ?_, ?_⟩, hsent⟩, ?_⟩, ?_⟩
  · rw [hsent]
  · rw [hmessages, hqueued]
    exact h.history.queued
  · rw [htrackers, hqueued]
    exact h.history.toSend
  · intro i t ht
    rw [htrackers] at ht
    rw [heffects]
    exact ⟨(h.history.covers i t ht).1, (h.history.covers i t ht).2.append⟩
  · rw [hacc, hacked, hrefused]
    exact h.history.attempted
  · rw [hacc, hrefused]
    exact h.history.failed
  · rw [heffects]
    exact ordered_log h.history.ordered trivial
  · rw [hjournal, heffects, List.foldl_append, ← h.history.journal]
    rfl
  · intro i row hrow
    rw [hresults] at hrow
    rw [heffects]
    exact (h.history.rows i row hrow).append
  · rw [htrackers, hacked]
    exact h.tidy.counts
  · rw [htrackers, hrefused]
    exact h.tidy.refused
  · rw [htrackers]
    exact h.tidy.settled
  · rw [htrackers, hresults]
    exact h.tidy.done
  · rw [htrackers, hqueued]
    exact h.tidy.complete
  · rw [hmessages, hqueued]
    exact h.allQueued
  · exact ⟨hqueued, by rw [hq]; rfl, fun i => by rw [htrackers], fun i hr => by rwa [hresults],
      by rw [hq]; exact Nat.le_succ _, by rw [heffects]; exact List.prefix_append _ _⟩

/-- A batch taken out and never sent: what was answered stays answered. -/
theorem Steady.dropPending (h : Steady input p) :
    Steady input { p with pending := none, checks := p.checks + 1 } :=
  ⟨h.history.counters rfl (.refl _) (by simp [ImportPipeline.pendingMessages]) rfl rfl rfl rfl rfl,
    ⟨h.tidy.counts, h.tidy.refused, h.tidy.settled, h.tidy.done, h.tidy.complete⟩, h.sent⟩

/-- A flush leaves nothing pending, unless it fails; it leaves the pipeline ready, unless a
    cancel made it drop what was pending. -/
theorem flush_ends {wait : Bool} (h : Ready input p) :
    Ends (flush out wait p)
      (fun ok q => Steady input q ∧ KeepsFiles p q ∧ q.pending = none ∧
        (wait = true → q.inflight = none) ∧ (Ready input q ∨ (ok = false ∧ Stopped out q)))
      (Failed input) := by
  unfold flush
  refine (joinInflight_ends h.toSteady).bind fun ok q ⟨hheld, hk, hp, hin, hs⟩ => .get_bind ?_
  have hr : Ready input q := hheld.ready h hk hp hs
  cases hpending : q.pending with
  | none => exact ⟨hheld, hk, hpending, fun _ => hin, .inl hr⟩
  | some batch =>
    refine .modify_bind ?_
    rw [bind_apply, isCancelled_apply]
    refine .ite (fun hc => ?_) fun hc => ?_
    · exact ⟨hheld.dropPending, hk.trans ⟨rfl, rfl, fun _ => rfl, fun _ h => h, Nat.le_succ _, List.prefix_rfl⟩,
        rfl, fun _ => hin, .inr ⟨rfl, q.checks, Nat.lt_succ_self _, hc⟩⟩
    · obtain ⟨r, hr'⟩ : ∃ r, r = ({ q with
          pending := none, checks := q.checks + 1, inflight := some batch }).log (.posted batch) :=
        ⟨_, rfl⟩
      obtain ⟨hready, hkept⟩ := hr.spawn hpending hin hr'
      unfold spawnImport
      refine .modify_bind ?_
      change Ends ((if wait then joinInflight out else pure ok)
        (({ q with pending := none, checks := q.checks + 1, inflight := some batch }).log
          (.posted batch))) _ _
      rw [← hr']
      have hpend : r.pending = none := by rw [hr']; rfl
      refine .ite (fun _ => ?_) fun hw => ?_
      · exact (joinInflight_ends hready.toSteady).imp fun _ u ⟨hu, hku, hpu, hiu, hsu⟩ =>
          ⟨hu, (hk.trans hkept).trans hku, hpu.trans hpend, fun _ => hiu,
            .inl (hu.ready hready hku hpu hsu)⟩
      · exact ⟨hready.toSteady, hk.trans hkept, hpend, fun h => absurd h hw, .inl hready⟩

/-- Going on after a flush means that the pipeline is ready. -/
theorem flushAndContinue_ends {wait : Bool} (h : Ready input p) :
    Ends (flushAndContinue out wait p)
      (fun go q => Steady input q ∧ KeepsFiles p q ∧ q.pending = none ∧
        (wait = true → q.inflight = none) ∧ (go = true → Ready input q) ∧
        (go = false → Stopped out q))
      (Failed input) := by
  unfold flushAndContinue
  refine (flush_ends h).bind fun ok q ⟨hh, hk, hp, hin, hr⟩ => .ite (fun hok => ?_) fun hok => ?_
  · exact ⟨hh, hk, hp, hin,
      fun _ => hr.resolve_right (fun h => by rw [h.1] at hok; cases hok), nofun⟩
  · rw [bind_apply, isCancelled_apply]
    refine ⟨hh.checked, hk.trans keepsFiles_checked, hp, hin, fun hgo => ?_, fun hgo => ?_⟩
    · rcases hr with hr | ⟨-, n, hn, hc⟩
      · exact hr.checked
      · -- The flag stays set once it is.
        have := out.cancelled_stays n q.checks hn.le hc
        rw [this] at hgo
        cases hgo
    · exact ⟨q.checks, Nat.lt_succ_self _, by simpa using hgo⟩

end

/-! What waiting for a request leaves alone. -/

/-- `f` reads nothing that is written when a request is answered, the failing of files aside. -/
structure Aside {γ : Type} (f : ImportPipeline → γ) : Prop where
  tracker : ∀ p idx t t', p.trackers idx = some t → t'.failed = t.failed →
    f (p.setTracker idx t') = f p
  result : ∀ p idx row, f (p.setResult idx row) = f p
  wrote : ∀ p out effect, (∀ how, (effect how).IsRow) → f (ImportPipeline.wrote out effect p) = f p
  counted : ∀ p accounting effect, postedBatches [effect] = [] →
    f (({ p with accounting }).log effect) = f p
  taken : ∀ p, f { p with inflight := none, requests := p.requests + 1 } = f p

section
variable {γ : Type} {f : ImportPipeline → γ} {out : Outside}

theorem Aside.writeJournal (h : Aside f) {effect : Appended → PushEffect}
    (hrow : ∀ how, (effect how).IsRow) : Ops.Keeps f (writeJournal out effect) := by
  intro p
  rw [writeJournal_apply]
  exact h.wrote p out effect hrow

theorem Aside.finishFileIfSettled (h : Aside f) (idx : Nat) :
    Ops.Keeps f (finishFileIfSettled out idx) := by
  intro p
  unfold MessageCrate.finishFileIfSettled
  rw [bind_apply, Op.get]
  dsimp only
  cases ht : p.trackers idx with
  | none => rfl
  | some t =>
    show f ((if t.isSettled then _ else _ : PushM Unit) p).2 = f p
    split
    · rw [bind_apply, modify_apply]
      have hdone : ∀ t', t'.failed = t.failed → f (p.setTracker idx t') = f p := fun t' =>
        h.tracker p idx t t' ht
      cases hfailed : t.failed with
      | some error => exact (h.result _ idx _).trans (hdone _ hfailed.symm)
      | none =>
        have hrow : Ops.Keeps f (do
            MessageCrate.writeJournal out (.journalledFile idx t.source t.name)
            Op.modify (fun p => p.setResult idx
              ⟨t.name, .ok, none, t.successfulMessages, t.attachments⟩) : PushM Unit) :=
          .bind (h.writeJournal fun _ => ⟨rfl, rfl, rfl, rfl⟩)
            fun _ => .modify fun q => h.result q idx _
        exact (hrow _).trans (hdone _ hfailed.symm)
    · rfl

theorem Aside.accept (h : Aside f) : ∀ (messages : List BatchMessage) (p : ImportPipeline),
    f (p.accept messages) = f p
  | [], p => rfl
  | m :: messages, p => by
    rw [ImportPipeline.accept]
    cases ht : p.trackers m.fileIndex with
    | none => exact h.accept messages p
    | some t => exact (h.accept messages _).trans (h.tracker p m.fileIndex t t.accept ht rfl)

theorem Aside.failFile (h : Aside f) (hfails : ∀ p idx t, f (p.setTracker idx t) = f p)
    (source error : String) (idx : Nat) : Ops.Keeps f (failFile out source error idx) := by
  refine .bind .get fun p => ?_
  cases p.trackers idx with
  | none => exact .pure ()
  | some t =>
    refine .ite (.bind (.modify fun q => hfails q idx _) fun _ => ?_) (.pure ())
    exact .ignore (h.writeJournal fun _ => ⟨rfl, rfl, rfl, rfl⟩)

theorem Aside.applyOk (h : Aside f) (batch : ImportBatch) (response : CreateImportBatchResponse) :
    Ops.Keeps f (applyOk out batch response) :=
  .bind (.modify fun p => h.counted p _ (.acknowledged batch) rfl) fun _ =>
    .bind (h.writeJournal fun _ => ⟨rfl, rfl, rfl, rfl⟩) fun _ =>
      .modify fun p => h.accept batch.messages p

theorem Aside.applyRefused (h : Aside f) (hfails : ∀ p idx t, f (p.setTracker idx t) = f p)
    (batch : ImportBatch) (error : BatchError) : Ops.Keeps f (applyRefused out batch error) :=
  .bind (.modify fun p => h.counted p _ (.refused batch) rfl) fun _ =>
    .bind .get fun _ => .forEach (h.failFile hfails _ _) _

/-- **Waiting for a request** leaves alone what `f` reads, when no file fails or `f` does not
    read the files. -/
theorem Aside.joinInflight (h : Aside f)
    (hfails : (∀ n, ∃ r, out.answer n = .ok r) ∨ ∀ p idx t, f (p.setTracker idx t) = f p) :
    Ops.Keeps f (joinInflight out) := by
  have hend : ∀ (batch : ImportBatch) (ok : Bool), Ops.Keeps f (do
      Op.forEach (MessageCrate.finishFileIfSettled out) batch.fileIndexes
      pure ok : PushM Bool) := fun batch ok =>
    .bind (.forEach h.finishFileIfSettled _) fun _ => .pure _
  refine .bind .get fun p => ?_
  cases p.inflight with
  | none => exact .pure true
  | some batch =>
    refine .bind (.modify h.taken) fun _ => ?_
    cases hanswer : out.answer p.requests with
    | panicked => exact .fail _
    | ok response => exact .bind (h.applyOk batch response) fun _ => hend batch _
    | refused error =>
      rcases hfails with hok | hfails
      · obtain ⟨r, hr⟩ := hok p.requests
        rw [hr] at hanswer
        cases hanswer
      · exact .bind (h.applyRefused hfails batch error) fun _ => hend batch _

end

end MessageCrate

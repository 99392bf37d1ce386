import MessageCrate.Push.Settle

/- How the pipeline takes up one prepared file.

   The file's chunks join the pending batch one after another, each in its turn flushing what
   is full; `Queueing` is what holds between two of them. Whatever happens to the file, the
   other files' trackers and rows stay (`KeepsOthers`), and a file that was taken up to its end
   has a row or a tracker whose queue is complete (`Taken`). -/
namespace MessageCrate
open Ops

section
variable {input : PushInput} {p q r : ImportPipeline} {idx : Nat} {t : FileTracker}
  {chunk : ImportChunk} {rest : List JournalMessage} {step : ChunkStep}

/-- The file's chunks are being queued, and `rest` is what those to come hold. -/
structure Queueing (input : PushInput) (idx : Nat) (rest : List JournalMessage)
    (p : ImportPipeline) : Prop extends Ready input p where
  sending : ∃ t, p.trackers idx = some t ∧ t.queueComplete = false ∧
    ofFile idx p.queued ++ rest = t.toSend

/-- What the handling of one file leaves alone. -/
structure KeepsOthers (idx : Nat) (p q : ImportPipeline) : Prop where
  files : ∀ i, i ≠ idx → (q.trackers i).map FileTracker.key = (p.trackers i).map FileTracker.key
  rows : ∀ i, (p.results i).isSome → (q.results i).isSome
  checks : p.checks ≤ q.checks
  effects : p.effects <+: q.effects

/-- The file has been taken up to its end. -/
def Taken (idx : Nat) (p : ImportPipeline) : Prop :=
  (p.results idx).isSome ∨ ∃ t, p.trackers idx = some t ∧ t.queueComplete = true

theorem KeepsFiles.others (h : KeepsFiles p q) : KeepsOthers idx p q :=
  ⟨fun i _ => h.files i, h.rows, h.checks, h.effects⟩

theorem KeepsOthers.trans (h : KeepsOthers idx p q) (h' : KeepsOthers idx q r) :
    KeepsOthers idx p r :=
  ⟨fun i hi => (h'.files i hi).trans (h.files i hi), fun i hr => h'.rows i (h.rows i hr),
    h.checks.trans h'.checks, h.effects.trans h'.effects⟩

/-- A tracker after a call that kept its key. -/
theorem tracker_of_key (h : (q.trackers idx).map FileTracker.key =
    (p.trackers idx).map FileTracker.key) (ht : p.trackers idx = some t) :
    ∃ u, q.trackers idx = some u ∧ u.name = t.name ∧ u.toSend = t.toSend ∧
      u.queueComplete = t.queueComplete := by
  rw [ht, Option.map_some, Option.map_eq_some_iff] at h
  obtain ⟨u, hu, hkey⟩ := h
  simp only [FileTracker.key, Prod.mk.injEq] at hkey
  exact ⟨u, hu, hkey⟩

theorem Taken.mono (h : Taken idx p) (hfiles : (q.trackers idx).map FileTracker.key =
    (p.trackers idx).map FileTracker.key) (hrows : (p.results idx).isSome →
      (q.results idx).isSome) : Taken idx q := by
  rcases h with h | ⟨t, ht, hc⟩
  · exact .inl (hrows h)
  · obtain ⟨u, hu, -, -, hcomplete⟩ := tracker_of_key hfiles ht
    exact .inr ⟨u, hu, hcomplete.trans hc⟩

/-- How far one chunk of a file has brought the run. -/
def AfterChunk (input : PushInput) (idx : Nat) (rest : List JournalMessage) :
    ChunkStep → ImportPipeline → Prop
  | .continue, q => Queueing input idx rest q
  | .fileFailed, q => Ready input q ∧ ∃ t, q.trackers idx = some t ∧ t.failed ≠ none
  | .abort, q => Steady input q ∧ Stopped input.out q

theorem Queueing.flushed (h : Queueing input idx rest p) (hkept : KeepsFiles p q)
    (hready : Ready input q) : Queueing input idx rest q := by
  obtain ⟨t, ht, hc, hsend⟩ := h.sending
  obtain ⟨u, hu, -, htoSend, hcomplete⟩ := tracker_of_key (hkept.files idx) ht
  exact ⟨hready, u, hu, hcomplete.trans hc, by rw [hkept.queued, hsend, htoSend]⟩

theorem flushForFile_ends (h : Queueing input idx rest p) :
    Ends (flushForFile input.out idx p)
      (fun step q => KeepsOthers idx p q ∧ AfterChunk input idx rest step q)
      (Failed input) := by
  unfold flushForFile
  refine (flushAndContinue_ends h.toReady).bind fun go q ⟨hheld, hk, _, _, hgo, hstop⟩ =>
    .ite (fun htrue => .get_bind (.ite (fun hfailed => ?_) fun _ => ?_)) fun hfalse => ?_
  · have hfail : ∃ t, q.trackers idx = some t ∧ t.failed ≠ none := by
      cases ht : q.trackers idx with
      | none => simp [ht] at hfailed
      | some t => exact ⟨t, rfl, by simpa [ht, Option.isSome_iff_ne_none] using hfailed⟩
    exact ⟨hk.others, hgo htrue, hfail⟩
  · exact ⟨hk.others, h.flushed hk (hgo htrue)⟩
  · exact ⟨hk.others, hheld, hstop (by simpa using hfalse)⟩

/-! A chunk joins the pending batch. -/

theorem pushChunk_ends {E : PushError → ImportPipeline → Prop}
    (h : Queueing input idx (chunk.messages ++ rest) p) :
    Ends (pushChunk idx chunk p) (fun _ q => KeepsOthers idx p q ∧ Queueing input idx rest q) E := by
  obtain ⟨t, ht, hcomplete, hsend⟩ := h.sending
  obtain ⟨q, hq⟩ : ∃ q, q = { p with
      pending := some ((p.pending.getD
        (.new (((p.trackers idx).map FileTracker.source).getD ""))).push idx chunk)
      queued := p.queued ++ chunk.messages.map (fun m => (⟨idx, m⟩ : BatchMessage)) } := ⟨_, rfl⟩
  have hqueued : q.queued = p.queued ++ chunk.messages.map (fun m => ⟨idx, m⟩) := by rw [hq]
  have hpending : q.pendingMessages =
      p.pendingMessages ++ chunk.messages.map (fun m => ⟨idx, m⟩) := by
    rw [hq]
    cases hp : p.pending with
    | none => simp [ImportPipeline.pendingMessages, hp, ImportBatch.push, ImportBatch.new]
    | some batch => simp [ImportPipeline.pendingMessages, hp, ImportBatch.push]
  have heffects : q.effects = p.effects := by rw [hq]
  have htrackers : q.trackers = p.trackers := by rw [hq]
  have hresults : q.results = p.results := by rw [hq]
  have hposted : q.posted = p.posted := by rw [ImportPipeline.posted, heffects]; rfl
  have hacked : q.acked = p.acked := by rw [ImportPipeline.acked, heffects]; rfl
  have hrefused : q.refused = p.refused := by rw [ImportPipeline.refused, heffects]; rfl
  have hother : ∀ i, i ≠ idx → ofFile i q.queued = ofFile i p.queued := by
    intro i hi
    rw [hqueued, ofFile_append, ofFile_tagged, if_neg (Ne.symm hi), List.append_nil]
  have hself : ofFile idx q.queued = ofFile idx p.queued ++ chunk.messages := by
    rw [hqueued, ofFile_append, ofFile_tagged, if_pos rfl]
  have hallQueued : q.posted ++ q.pendingMessages = q.queued := by
    rw [hposted, hpending, ← List.append_assoc, h.allQueued, hqueued]
  have hhist : History input q := by
    refine ⟨?_, ?_, fun i => ?_, ?_, ?_, ?_, ?_, ?_, ?_⟩
    · rw [heffects, hq]
      exact h.history.answered
    · rw [hallQueued]
    · rw [htrackers]
      by_cases hi : i = idx
      · subst hi
        rw [ht, hself, Option.map_some, Option.getD_some, ← hsend, ← List.append_assoc]
        exact List.prefix_append _ _
      · rw [hother i hi]
        exact h.history.toSend i
    · rw [htrackers, heffects]
      exact h.history.covers
    · rw [hacked, hrefused, hq]
      exact h.history.attempted
    · rw [hrefused, hq]
      exact h.history.failed
    · rw [heffects]
      exact h.history.ordered
    · rw [heffects, hq]
      exact h.history.journal
    · rw [hresults, heffects]
      exact h.history.rows
  have htidy : Tidy [] [] [] q := by
    refine ⟨?_, ?_, ?_, ?_, fun i u hu hc hf => ?_⟩
    · rw [htrackers, hacked]
      exact h.tidy.counts
    · rw [htrackers, hrefused]
      exact h.tidy.refused
    · rw [htrackers]
      exact h.tidy.settled
    · rw [htrackers, hresults]
      exact h.tidy.done
    · rw [htrackers] at hu
      by_cases hi : i = idx
      · subst hi
        cases ht.symm.trans hu
        rw [hcomplete] at hc
        cases hc
      · rw [hother i hi]
        exact h.tidy.complete i u hu hc hf
  have hsent : answeredBatches q.effects ++ q.inflight.toList = postedBatches q.effects := by
    rw [heffects, hq]
    exact h.sent
  have hrun : pushChunk idx chunk p = (.ok (), q) := by
    rw [hq]
    rfl
  rw [hrun]
  refine ⟨⟨fun i _ => by rw [htrackers], fun i => by rw [hresults]; exact id, by rw [hq],
    by rw [heffects]⟩,
    ⟨⟨hhist, htidy, hsent⟩, hallQueued⟩, t, by rw [htrackers]; exact ht, hcomplete, ?_⟩
  rw [hself, List.append_assoc]
  exact hsend

theorem Queueing.mono_others (hkept : KeepsOthers idx p q) {E : PushError → ImportPipeline → Prop}
    {x : PushM ChunkStep}
    (h : Ends (x q) (fun step r => KeepsOthers idx q r ∧ AfterChunk input idx rest step r) E) :
    Ends (x q) (fun step r => KeepsOthers idx p r ∧ AfterChunk input idx rest step r) E :=
  h.imp fun _ _ ⟨hk, ha⟩ => ⟨hkept.trans hk, ha⟩

theorem queueChunk_ends (h : Queueing input idx (chunk.messages ++ rest) p) :
    Ends (queueChunk input.out idx chunk p)
      (fun step q => KeepsOthers idx p q ∧ AfterChunk input idx rest step q)
      (Failed input) := by
  -- The chunk is pushed, and what it fills is flushed.
  have hpush : ∀ q, Queueing input idx (chunk.messages ++ rest) q →
      Ends ((do
        pushChunk idx chunk
        let p ← Op.get
        if p.pending.any (fun batch => batch.isFull p.batchSize maxImportBodyBytes) then
          flushForFile input.out idx
        else pure .continue : PushM ChunkStep) q)
        (fun step r => KeepsOthers idx q r ∧ AfterChunk input idx rest step r)
        (Failed input) := fun q hq =>
    (pushChunk_ends hq).bind fun _ r ⟨hk, hr⟩ => .get_bind (.ite
      (fun _ => Queueing.mono_others hk (flushForFile_ends hr)) fun _ => ⟨hk, hr⟩)
  unfold queueChunk
  refine .get_bind (.ite (fun _ => ?_) fun _ => hpush p h)
  refine (flushForFile_ends h).bind fun step q ⟨hk, hstep⟩ => ?_
  cases step with
  | «continue» => exact Queueing.mono_others hk (hpush q hstep)
  | fileFailed => exact ⟨hk, hstep⟩
  | abort => exact ⟨hk, hstep⟩

/-- What the chunks of a file have come to: all of them queued, or the file failed, or the run
    stopped. -/
def AfterChunks (input : PushInput) (idx : Nat) (go : Bool) (q : ImportPipeline) : Prop :=
  (go = true → Ready input q ∧ ∃ t, q.trackers idx = some t ∧
    (t.failed = none → ofFile idx q.queued = t.toSend)) ∧
  (go = false → Steady input q ∧ Stopped input.out q)

theorem queueChunks_ends (chunks : List ImportChunk)
    (h : Queueing input idx (chunks.flatMap ImportChunk.messages) p) :
    Ends (queueChunks input.out idx chunks p)
      (fun go q => KeepsOthers idx p q ∧ AfterChunks input idx go q)
      (Failed input) := by
  induction chunks generalizing p with
  | nil =>
    obtain ⟨t, ht, -, hsend⟩ := h.sending
    refine ⟨(KeepsFiles.refl p).others, fun _ => ⟨h.toReady, t, ht, fun _ => ?_⟩, nofun⟩
    simpa using hsend
  | cons chunk chunks ih =>
    unfold queueChunks
    refine (queueChunk_ends h).bind fun step q ⟨hk, hstep⟩ => ?_
    cases step with
    | «continue» =>
      exact (ih hstep).imp fun _ _ ⟨hk', ha⟩ => ⟨hk.trans hk', ha⟩
    | fileFailed =>
      obtain ⟨hready, t, ht, hfailed⟩ := hstep
      exact ⟨hk, fun _ => ⟨hready, t, ht, fun hnone => absurd hnone hfailed⟩, nofun⟩
    | abort => exact ⟨hk, nofun, fun _ => hstep⟩

/-! A file from its first chunk to its last. -/

theorem finishQueueing_ends (h : Ready input p) (ht : p.trackers idx = some t)
    (hqueued : t.failed = none → ofFile idx p.queued = t.toSend) :
    Ends (finishQueueing input.out idx p)
      (fun _ q => Ready input q ∧ KeepsOthers idx p q ∧ Taken idx q)
      (Failed input) := by
  obtain ⟨t', ht'⟩ : ∃ t' : FileTracker, t' = { t with queueComplete := true } := ⟨_, rfl⟩
  obtain ⟨q, hq⟩ : ∃ q, q = p.setTracker idx t' := ⟨_, rfl⟩
  have hhist : History input q := by
    rw [hq]
    exact h.history.setTracker ht (by rw [ht']) (by rw [ht'])
  have htidy : Tidy [idx] [] [] q := by
    rw [hq]
    refine tidy_setTracker h.tidy ht (by rw [ht']) (by rw [ht']) (fun _ hf => ?_) (fun hf => ?_)
      (fun _ => List.mem_singleton_self _) (fun _ _ hin => by cases hin) (fun _ hin => by cases hin)
      (fun hdone => ?_) (fun _ _ hr => hr)
    · rw [ht'] at hf ⊢
      exact hqueued hf
    · rw [ht'] at hf
      exact hf
    · rw [ht'] at hdone
      exact h.tidy.done idx t ht hdone
  have hother : KeepsOthers idx p q := by
    rw [hq]
    exact ⟨fun i hi => by simp [hi], fun _ hr => hr, Nat.le_refl _, List.prefix_rfl⟩
  have hself : q.trackers idx = some t' := by
    rw [hq]
    simp
  have hrun : finishQueueing input.out idx p = finishFileIfSettled input.out idx q := by
    unfold finishQueueing
    rw [bind_apply, modify_apply, ht, hq, ht']
  rw [hrun]
  refine (finishFileIfSettled_ends hhist htidy).imp fun _ r ⟨hh, htd, hk, hs⟩ => ?_
  obtain ⟨u, hu, -, -, hcomplete⟩ := tracker_of_key (hk.files idx) hself
  refine ⟨⟨⟨hh, htd, ?_⟩, ?_⟩, hother.trans hk.others, .inr ⟨u, hu, by rw [hcomplete, ht']⟩⟩
  · rw [hs.answered, hs.inflight, hs.posted, hq]
    exact h.sent
  · rw [ImportPipeline.posted, hs.posted, ImportPipeline.pendingMessages, hs.pending, hk.queued, hq]
    exact h.allQueued

/-- A conversation begins to be tracked. -/
theorem Ready.startFile {name : String} {prepared : PreparedFile} (h : Ready input p)
    (hnew : p.trackers idx = none) (hname : input.names[idx]? = some name)
    (hcovers : input.Covers p.effects idx prepared.messages) :
    Queueing input idx prepared.messages (p.setTracker idx (.new name prepared)) := by
  obtain ⟨q, hq⟩ : ∃ q, q = p.setTracker idx (.new name prepared) := ⟨_, rfl⟩
  have hself : q.trackers idx = some (.new name prepared) := by
    rw [hq]
    simp
  have hother : ∀ i, i ≠ idx → q.trackers i = p.trackers i := fun i hi => by
    rw [hq]
    simp [hi]
  have heffects : q.effects = p.effects := by rw [hq]; rfl
  have hresults : q.results = p.results := by rw [hq]; rfl
  have hqueued : q.queued = p.queued := by rw [hq]; rfl
  have hacked : q.acked = p.acked := by rw [ImportPipeline.acked, heffects]; rfl
  have hrefused : q.refused = p.refused := by rw [ImportPipeline.refused, heffects]; rfl
  -- Nothing of the file has been queued, so nothing of it was answered.
  have hnone : ofFile idx p.queued = [] := by
    have := h.history.toSend idx
    rw [hnew] at this
    exact List.prefix_nil.mp this
  have hposted : ofFile idx p.posted = [] := by
    have hsub : (ofFile idx p.posted).Sublist (ofFile idx p.queued) :=
      ofFile_sublist ((List.sublist_append_left _ _).trans h.history.queued)
    rw [hnone] at hsub
    exact List.sublist_nil.mp hsub
  have hanswered : ofFile idx (messagesIn (answeredBatches p.effects)) = [] := by
    have hsub : (ofFile idx (messagesIn (answeredBatches p.effects))).Sublist (ofFile idx p.posted) :=
      ofFile_sublist (messagesIn_sublist
        ((List.sublist_append_left _ _).trans h.history.answered))
    rw [hposted] at hsub
    exact List.sublist_nil.mp hsub
  have hlength : (ofFile idx p.acked).length + (ofFile idx p.refused).length = 0 := by
    rw [← List.length_nil (α := JournalMessage), ← hanswered]
    exact ofFile_answered_length.symm
  have hhist : History input q := by
    refine ⟨?_, ?_, fun i => ?_, fun i u hu => ?_, ?_, ?_, ?_, ?_, fun i row hrow => ?_⟩
    · rw [heffects, hq]
      exact h.history.answered
    · rw [ImportPipeline.posted, heffects, hqueued, hq]
      exact h.history.queued
    · rw [hqueued]
      by_cases hi : i = idx
      · rw [hi, hnone]
        exact List.nil_prefix
      · rw [hother i hi]
        exact h.history.toSend i
    · by_cases hi : i = idx
      · subst hi
        cases hself.symm.trans hu
        rw [heffects]
        exact ⟨hname, hcovers⟩
      · rw [heffects]
        exact h.history.covers i u ((hother i hi).symm.trans hu)
    · rw [hacked, hrefused, hq]
      exact h.history.attempted
    · rw [hrefused, hq]
      exact h.history.failed
    · rw [heffects]
      exact h.history.ordered
    · rw [heffects, hq]
      exact h.history.journal
    · rw [hresults] at hrow
      rw [heffects]
      exact h.history.rows i row hrow
  have htidy : Tidy [] [] [] q := by
    refine ⟨fun i u hu => ?_, fun i u hu hne => ?_, fun i u hu hset => ?_, fun i u hu hdone => ?_,
      fun i u hu hc hf => ?_⟩ <;> by_cases hi : i = idx
    · subst hi
      cases hself.symm.trans hu
      rw [hacked]
      simp only [FileTracker.new, ofFile_nil, List.length_nil]
      omega
    · rw [hacked]
      exact h.tidy.counts i u ((hother i hi).symm.trans hu)
    · subst hi
      rw [hrefused] at hne
      exact absurd (List.length_eq_zero_iff.mp (by omega)) hne
    · rw [hrefused] at hne
      exact h.tidy.refused i u ((hother i hi).symm.trans hu) hne
    · subst hi
      cases hself.symm.trans hu
      cases hset
    · exact h.tidy.settled i u ((hother i hi).symm.trans hu) hset
    · subst hi
      cases hself.symm.trans hu
      cases hdone
    · rw [hresults]
      exact h.tidy.done i u ((hother i hi).symm.trans hu) hdone
    · subst hi
      cases hself.symm.trans hu
      cases hc
    · rw [hqueued]
      exact h.tidy.complete i u ((hother i hi).symm.trans hu) hc hf
  rw [← hq]
  refine ⟨⟨⟨hhist, htidy, ?_⟩, ?_⟩, _, hself, rfl, ?_⟩
  · rw [heffects, hq]
    exact h.sent
  · rw [ImportPipeline.posted, heffects, hqueued, hq]
    exact h.allQueued
  · rw [hqueued, hnone]
    rfl

theorem consumePrepared_ends {name : String} {prepared : PreparedFile} (h : Ready input p)
    (hnew : p.trackers idx = none) (hname : input.names[idx]? = some name)
    (hcovers : input.Covers p.effects idx prepared.messages) :
    Ends (consumePrepared input.out idx name prepared p)
      (fun go q => KeepsOthers idx p q ∧ (go = true → Ready input q ∧ Taken idx q) ∧
        (go = false → Steady input q ∧ Stopped input.out q))
      (Failed input) := by
  have hstart := h.startFile hnew hname hcovers
  have hother : KeepsOthers idx p (p.setTracker idx (.new name prepared)) :=
    ⟨fun i hi => by simp [hi], fun _ hr => hr, Nat.le_refl _, List.prefix_rfl⟩
  unfold consumePrepared
  refine .modify_bind ((queueChunks_ends prepared.chunks hstart).bind fun go q ⟨hk, hgo, hstop⟩ =>
    .ite (fun htrue => ?_) fun hfalse => ?_)
  · obtain ⟨hready, t, ht, hqueued⟩ := hgo htrue
    exact (finishQueueing_ends hready ht hqueued).bind fun _ r ⟨hr, hk', htaken⟩ =>
      .pure ⟨hother.trans (hk.trans hk'), fun _ => ⟨hr, htaken⟩, nofun⟩
  · exact ⟨hother.trans hk, nofun, fun _ => hstop (by simpa using hfalse)⟩

/-- What a worker may hand over for a file. -/
structure FromWorker (input : PushInput) (p : ImportPipeline) (result : PrepareResult) : Prop where
  name : input.names[result.idx]? = some result.name
  skipped : result.outcome = .skipped → (p.results result.idx).isSome
  prepared : ∀ file, result.outcome = .prepared file → input.Covers p.effects result.idx file.messages

theorem Ready.setResult {row : FileResult} (h : Ready input p)
    (hrow : RowSays input p.effects idx row) : Ready input (p.setResult idx row) := by
  refine ⟨⟨h.history.setResult hrow, ?_, h.sent⟩, h.allQueued⟩
  exact tidy_same h.tidy ⟨rfl, rfl, rfl, rfl, rfl, rfl⟩ rfl rfl
    fun i hi => (kept_setResult (p := p)).rows i hi

/-- A failure row is written. -/
theorem Ready.wrote {effect : Appended → PushEffect} {out : Outside} (h : Ready input p)
    (hrow : ∀ how, (effect how).IsRow) (hjust : ∀ how, Justified input p.effects (effect how)) :
    Ready input (p.wrote out effect) := by
  have hreq : SameRequests p (p.wrote out effect) := sameRequests_wrote hrow
  refine ⟨⟨h.history.wrote hrow hjust, tidy_same h.tidy hreq rfl rfl fun _ hr => hr, ?_⟩, ?_⟩
  · rw [hreq.answered, hreq.inflight, hreq.posted]
    exact h.sent
  · rw [ImportPipeline.posted, hreq.posted, ImportPipeline.pendingMessages, hreq.pending]
    exact h.allQueued

theorem consumeResult_ends {result : PrepareResult} (h : Ready input p)
    (hnew : p.trackers result.idx = none) (hresult : FromWorker input p result) :
    Ends (consumeResult input.out result p)
      (fun go q => KeepsOthers result.idx p q ∧ (go = true → Ready input q ∧ Taken result.idx q) ∧
        (go = false → Steady input q ∧ Stopped input.out q))
      (Failed input) := by
  unfold consumeResult
  cases hout : result.outcome with
  | skipped =>
    exact ⟨(KeepsFiles.refl p).others, fun _ => ⟨h, .inl (hresult.skipped hout)⟩, nofun⟩
  | failed error =>
    obtain ⟨q, hq⟩ : ∃ q, q = p.wrote input.out
        (.journalledFailure "" result.name "file" error) := ⟨_, rfl⟩
    have hkept : KeepsFiles p q := hq ▸ kept_wrote
    have hready : Ready input q := by
      rw [hq]
      exact h.wrote (fun _ => ⟨rfl, rfl, rfl, rfl⟩) fun _ => trivial
    have hrun : recordPrepareFailure input.out result.idx result.name error p =
        (.ok (), q.setResult result.idx (.failed result.name error)) := by
      unfold recordPrepareFailure
      rw [bind_apply, recordFailure_apply, hq]
      rfl
    change Ends ((recordPrepareFailure input.out result.idx result.name error >>= fun _ =>
      (pure true : PushM Bool)) p) _ _
    rw [bind_apply, hrun]
    exact ⟨(hkept.trans kept_setResult).others,
      fun _ => ⟨hready.setResult ⟨hresult.name, nofun, nofun, nofun⟩,
        .inl (by simp)⟩, nofun⟩
  | prepared file =>
    have hcovers := hresult.prepared file hout
    refine .get_bind (.ite (fun _ => ?_) fun _ =>
      consumePrepared_ends h hnew hresult.name hcovers)
    refine (flushAndContinue_ends h).bind fun go q ⟨hheld, hk, _, _, hgo, hstop⟩ =>
      .ite (fun htrue => ?_) fun hfalse => ?_
    · have hnew' : q.trackers result.idx = none := by
        have := hk.files result.idx
        rw [hnew, Option.map_none, Option.map_eq_none_iff] at this
        exact this
      exact (consumePrepared_ends (hgo htrue) hnew' hresult.name (hcovers.mono hk.effects)).imp
        fun _ _ ⟨hk', ha⟩ => ⟨hk.others.trans hk', ha⟩
    · exact ⟨hk.others, nofun, fun _ => ⟨hheld, hstop (by simpa using hfalse)⟩⟩

end

end MessageCrate

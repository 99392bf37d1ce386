import MessageCrate.Push.Batches

/- What a sequence of calls of the pipeline sends (`crates/libs/push/src/pipeline.rs`).

   1. `Sending`: between two calls the posted batches and the pending one hold what has been
      queued, in order, cut into groups within both limits.
   2. `Sent`: what is left of it when a cancel has dropped the pending batch or a call has failed.
      The posted batches hold the first of what was queued.
   3. `queueAll_ends`: what a sequence of calls comes to, by one rule for each call.
   4. `chunks_and_batches`: with the chunks of `build_import_chunks`, the chunks and the batches
      are right exactly when no line overflows a chunk together with the header. -/
namespace MessageCrate
open ByteLines Packing Ops

/-- The pending batch is the open group. -/
def Pends (current : List QueuedChunk) (pending : Option ImportBatch) : Prop :=
  (pending = none ∧ current = []) ∨
    ∃ batch, pending = some batch ∧ current ≠ [] ∧ HoldsGroup current batch

section
variable (out : Outside) (start : ImportPipeline) (queued : List QueuedChunk) (p : ImportPipeline)

/-- The run is packing, and has queued `queued` since `start`. -/
structure Sending : Prop where
  batchSize : p.batchSize = start.batchSize
  history : p.queued = start.queued ++ queued.flatMap QueuedChunk.messages
  sound : ∀ c ∈ queued, c.chunk.Sound start.batchSize
  unfailed : out.Accepts → start.NotFailed → p.NotFailed
  groups : ∃ closed current batches,
    Packed (GroupWithin start.batchSize) queued closed current ∧
    postedBatches p.effects = postedBatches start.effects ++ batches ∧
    List.Forall₂ HoldsGroup closed batches ∧ Pends current p.pending

/-- The batches posted since `start` are right, and hold the first of what was queued. -/
structure Sent : Prop where
  history : p.queued = start.queued ++ queued.flatMap QueuedChunk.messages
  groups : ∃ groups batches, groups.flatten <+: queued ∧
    postedBatches p.effects = postedBatches start.effects ++ batches ∧
    List.Forall₂ (RightBatch start.batchSize) groups batches

end

section
variable {out : Outside} {start p q : ImportPipeline} {queued : List QueuedChunk} {c : QueuedChunk}

theorem forall₂_imp_of_mem {α β : Type} {R S : α → β → Prop} {l : List α} {m : List β}
    (h : List.Forall₂ R l m) (himp : ∀ a ∈ l, ∀ b, R a b → S a b) : List.Forall₂ S l m := by
  induction h with
  | nil => exact .nil
  | @cons a b l m hab _ ih =>
    exact .cons (himp a List.mem_cons_self b hab) (ih fun x hx => himp x (List.mem_cons_of_mem a hx))

theorem Sending.fresh (hpending : p.pending = none) : Sending out p [] p where
  batchSize := rfl
  history := by simp
  sound := fun c hc => absurd hc List.not_mem_nil
  unfailed := fun _ h => h
  groups := ⟨[], [], [], .start, by simp, .nil, .inl ⟨hpending, rfl⟩⟩

/-- The groups that are closed have been posted in right batches. -/
theorem Sending.right (h : Sending out start queued p) : ∃ closed current batches,
    Packed (GroupWithin start.batchSize) queued closed current ∧
    postedBatches p.effects = postedBatches start.effects ++ batches ∧
    List.Forall₂ (RightBatch start.batchSize) closed batches ∧ Pends current p.pending := by
  obtain ⟨closed, current, batches, hpacked, hposted, hholds, hpends⟩ := h.groups
  refine ⟨closed, current, batches, hpacked, hposted, forall₂_imp_of_mem hholds ?_, hpends⟩
  intro group hgroup batch hbatch
  refine rightBatch_of_holds hbatch (hpacked.closed_some group hgroup) ?_
    (hpacked.closed_fits group hgroup)
  intro c hc
  apply h.sound
  rw [← hpacked.whole]
  exact List.mem_append_left _ (List.mem_flatten_of_mem hgroup hc)

theorem Sending.sent (h : Sending out start queued p) : Sent start queued p := by
  obtain ⟨closed, current, batches, hpacked, hposted, hright, -⟩ := h.right
  exact ⟨h.history, closed, batches, hpacked.closed_start, hposted, hright⟩

/-- With nothing pending all that was queued has been posted. -/
theorem Sending.all (h : Sending out start queued p) (hpending : p.pending = none) :
    ∃ groups batches, groups.flatten = queued ∧
      postedBatches p.effects = postedBatches start.effects ++ batches ∧
      List.Forall₂ (RightBatch start.batchSize) groups batches := by
  obtain ⟨closed, current, batches, hpacked, hposted, hright, hpends⟩ := h.right
  rcases hpends with ⟨-, rfl⟩ | ⟨batch, hbatch, -, -⟩
  · exact ⟨closed, batches, hpacked.flatten, hposted, hright⟩
  · rw [hpending] at hbatch
    cases hbatch

/-- What packing does not read may change. -/
theorem Sending.of_packing (h : Sending out start queued p) (hq : q.packing = p.packing)
    (hfailed : out.Accepts → p.NotFailed → q.NotFailed) : Sending out start queued q := by
  simp only [ImportPipeline.packing, Prod.mk.injEq] at hq
  obtain ⟨hsize, hpending, hqueued, hposted⟩ := hq
  refine ⟨hsize.trans h.batchSize, hqueued.trans h.history, h.sound,
    fun ha hs => hfailed ha (h.unfailed ha hs), ?_⟩
  rw [hpending, hposted]
  exact h.groups

theorem Sent.of_packing (h : Sent start queued p) (hq : q.packing = p.packing) :
    Sent start queued q := by
  simp only [ImportPipeline.packing, Prod.mk.injEq] at hq
  obtain ⟨-, -, hqueued, hposted⟩ := hq
  refine ⟨hqueued.trans h.history, ?_⟩
  rw [hposted]
  exact h.groups

/-! Flushing. -/

theorem joinInflight_packing (out : Outside) (p : ImportPipeline) :
    (joinInflight out p).2.packing = p.packing ∧
      (out.Accepts → p.NotFailed → (joinInflight out p).2.NotFailed) :=
  ⟨aside_packing.joinInflight (.inr fun _ _ _ => rfl) p, fun ha hp =>
    notFailed_of_failures (aside_failures.joinInflight (.inl ha) p) hp⟩

theorem joinInflight_sends (h : Sending out start queued p) :
    Ends (joinInflight out p) (fun _ q => Sending out start queued q ∧ q.pending = p.pending)
      (fun _ q => Sent start queued q) := by
  have hj := joinInflight_packing out p
  generalize joinInflight out p = r at hj
  obtain ⟨e | ok, q⟩ := r
  · exact h.sent.of_packing hj.1
  · refine ⟨h.of_packing hj.1 hj.2, ?_⟩
    have hpending := congrArg (fun x => x.2.1) hj.1
    exact hpending

/-- The pending batch is posted. -/
theorem Sending.posted {batch : ImportBatch} (h : Sending out start queued p)
    (hpending : p.pending = some batch) (hsize : q.batchSize = p.batchSize) (hnone : q.pending = none)
    (hqueued : q.queued = p.queued) (htrackers : q.trackers = p.trackers)
    (hposted : postedBatches q.effects = postedBatches p.effects ++ [batch]) :
    Sending out start queued q := by
  obtain ⟨closed, current, batches, hpacked, hp, hholds, hpends⟩ := h.groups
  rcases hpends with ⟨hnil, -⟩ | ⟨batch', hbatch, hcurrent, hholds'⟩
  · rw [hpending] at hnil
    cases hnil
  · rw [hpending] at hbatch
    cases hbatch
    refine ⟨hsize.trans h.batchSize, hqueued.trans h.history, h.sound, ?_, closed ++ [current], [],
      batches ++ [batch], hpacked.close hcurrent, ?_, ?_, .inl ⟨hnone, rfl⟩⟩
    · intro ha hs i t ht
      rw [htrackers] at ht
      exact h.unfailed ha hs i t ht
    · rw [hposted, hp, List.append_assoc]
    · exact List.rel_append hholds (.cons hholds' .nil)

/-- A flush posts what is pending, unless a cancel drops it. -/
theorem flush_sends {wait : Bool} (h : Sending out start queued p) :
    Ends (flush out wait p)
      (fun ok q => Sent start queued q ∧ ((Sending out start queued q ∧ q.pending = none) ∨
        (ok = false ∧ out.cancelledAt q.checks = true)))
      (fun _ q => Sent start queued q) := by
  unfold flush
  refine (joinInflight_sends h).bind fun ok q hjoined => .get_bind ?_
  have hq := hjoined.1
  cases hpending : q.pending with
  | none => exact ⟨hq.sent, .inl ⟨hq, hpending⟩⟩
  | some batch =>
    refine .modify_bind ?_
    rw [bind_apply, isCancelled_apply]
    refine .ite (fun hcancelled => ?_) fun hgo => ?_
    · have hsent : Sent start queued
          { q with pending := none, checks := q.checks + 1 } := ⟨hq.history, hq.sent.groups⟩
      exact ⟨hsent, .inr ⟨rfl, out.cancelled_stays _ _ (Nat.le_succ _) hcancelled⟩⟩
    · have hposted : Sending out start queued (({ q with
          pending := none, checks := q.checks + 1, inflight := some batch }).log (.posted batch)) :=
        hq.posted hpending rfl rfl rfl rfl (by simp [ImportPipeline.log, postedBatches])
      unfold spawnImport
      refine .modify_bind (.ite (fun _ => ?_) fun _ => ?_)
      · exact (joinInflight_sends hposted).imp fun _ r hr => ⟨hr.1.sent, .inl hr⟩
      · exact ⟨hposted.sent, .inl ⟨hposted, rfl⟩⟩

/-- Going on after a flush means that all that was queued has been posted. -/
theorem flushAndContinue_sends {wait : Bool} (h : Sending out start queued p) :
    Ends (flushAndContinue out wait p)
      (fun go q => Sent start queued q ∧
        (go = true → Sending out start queued q ∧ q.pending = none))
      (fun _ q => Sent start queued q) := by
  unfold flushAndContinue
  refine (flush_sends h).bind fun ok q ⟨hsent, hq⟩ => .ite (fun hok => ?_) fun hok => ?_
  · exact ⟨hsent, fun _ => hq.resolve_right fun hdropped => by rw [hdropped.1] at hok; cases hok⟩
  · rw [bind_apply, isCancelled_apply]
    have hchecked : ({ q with checks := q.checks + 1 } : ImportPipeline).packing = q.packing := rfl
    refine ⟨hsent.of_packing hchecked, fun hgo => ?_⟩
    rcases hq with ⟨hsending, hnone⟩ | ⟨-, hcancelled⟩
    · exact ⟨hsending.of_packing hchecked fun _ hp => hp, hnone⟩
    · rw [hcancelled] at hgo
      cases hgo

/-- A file that failed is one that a request failed, or that had failed before. -/
theorem flushForFile_sends {idx : Nat} (h : Sending out start queued p) :
    Ends (flushForFile out idx p)
      (fun step q => Sent start queued q ∧
        (step ≠ .abort → Sending out start queued q ∧ q.pending = none) ∧
        (step = .fileFailed → out.Accepts → ¬ start.NotFailed))
      (fun _ q => Sent start queued q) := by
  unfold flushForFile
  refine (flushAndContinue_sends h).bind fun go q ⟨hsent, hq⟩ =>
    .ite (fun hgo => .get_bind (.ite (fun hfailed => ?_) fun _ => ?_)) fun _ => ?_
  · refine ⟨hsent, fun _ => hq hgo, fun _ ha hs => ?_⟩
    have hnot := (hq hgo).1.unfailed ha hs
    cases ht : q.trackers idx with
    | none =>
      rw [ht] at hfailed
      cases hfailed
    | some t =>
      rw [ht, Option.any_some, hnot idx t ht] at hfailed
      cases hfailed
  · exact ⟨hsent, fun _ => hq hgo, fun hstep => by cases hstep⟩
  · exact ⟨hsent, fun habort => absurd rfl habort, fun hstep => by cases hstep⟩

/-! Queueing. -/

/-- A chunk that does not overflow the pending batch joins it. -/
theorem Sending.push (h : Sending out start queued p) (hsound : c.chunk.Sound start.batchSize)
    (hroom : ∀ batch, p.pending = some batch →
      batch.wouldOverflow c.chunk start.batchSize maxImportBodyBytes = false)
    (hq : pushChunk c.idx c.chunk p = (.ok (), q)) : Sending out start (queued ++ [c]) q := by
  cases hq
  obtain ⟨closed, current, batches, hpacked, hposted, hholds, hpends⟩ := h.groups
  have hcurrent : ∀ d ∈ current, d.chunk.Sound start.batchSize := by
    intro d hd
    apply h.sound
    rw [← hpacked.whole]
    exact List.mem_append_right _ hd
  have hjoin : GroupWithin start.batchSize (current ++ [c]) ∧ HoldsGroup (current ++ [c])
      ((p.pending.getD (.new (((p.trackers c.idx).map FileTracker.source).getD ""))).push c.idx
        c.chunk) := by
    rcases hpends with ⟨hnone, rfl⟩ | ⟨batch, hbatch, hne, hb⟩
    · rw [hnone]
      exact ⟨groupWithin_singleton hsound, (holds_new _).push c⟩
    · rw [hbatch]
      exact ⟨groupWithin_snoc hb hcurrent hne (hroom batch hbatch), hb.push c⟩
  refine ⟨h.batchSize, ?_, ?_, h.unfailed, closed, current ++ [c], batches,
    hpacked.add hjoin.1, hposted, hholds, .inr ⟨_, rfl, by simp, hjoin.2⟩⟩
  · rw [List.flatMap_append, List.flatMap_singleton, ← List.append_assoc, ← h.history]
    rfl
  · intro d hd
    rcases List.mem_append.mp hd with hd | hd
    · exact h.sound d hd
    · rw [List.mem_singleton.mp hd]
      exact hsound

/-- What the run has come to once it has been offered more chunks: some of them have been queued,
    and all of them when no file failed. -/
def Advanced (out : Outside) (start : ImportPipeline) (queued offered : List QueuedChunk) (go : Bool)
    (q : ImportPipeline) : Prop :=
  ∃ more, more.Sublist offered ∧ Sent start (queued ++ more) q ∧
    (go = true → Sending out start (queued ++ more) q) ∧
    (go = true → out.Accepts → start.NotFailed → more = offered)

/-- Nothing has been queued by a call that offers nothing. -/
theorem Advanced.of_sending {go : Bool} (h : Sending out start queued p) :
    Advanced out start queued [] go p := by
  refine ⟨[], List.Sublist.refl _, ?_, fun _ => ?_, fun _ _ _ => rfl⟩
  · rw [List.append_nil]
    exact h.sent
  · rw [List.append_nil]
    exact h

/-- Nothing has been queued, and the run stops. -/
theorem Advanced.of_sent {offered : List QueuedChunk} (h : Sent start queued p) :
    Advanced out start queued offered false p := by
  refine ⟨[], List.nil_sublist _, ?_, fun hgo => absurd hgo Bool.false_ne_true,
    fun hgo => absurd hgo Bool.false_ne_true⟩
  rw [List.append_nil]
  exact h

/-- A flush after what was queued. -/
theorem advanced_flushed {offered : List QueuedChunk} (h : Sending out start (queued ++ offered) p)
    (idx : Nat) : Ends (flushForFile out idx p)
      (fun step q => Advanced out start queued offered (decide (step ≠ .abort)) q)
      (fun _ q => Advanced out start queued offered false q) := by
  refine (flushForFile_sends h).mono ?_ ?_
  · intro step q ⟨hsent, hsending, _⟩
    exact ⟨offered, List.Sublist.refl _, hsent, fun hgo => (hsending (of_decide_eq_true hgo)).1,
      fun _ _ _ => rfl⟩
  · intro error q hsent
    exact ⟨offered, List.Sublist.refl _, hsent, fun hgo => absurd hgo Bool.false_ne_true,
      fun hgo => absurd hgo Bool.false_ne_true⟩

/-- A chunk joins the pending batch, and what it fills is flushed. -/
theorem push_advanced (h : Sending out start queued p) (hsound : c.chunk.Sound start.batchSize)
    (hroom : ∀ batch, p.pending = some batch →
      batch.wouldOverflow c.chunk start.batchSize maxImportBodyBytes = false) :
    Ends ((do
        pushChunk c.idx c.chunk
        let p ← Op.get
        if p.pending.any (fun batch => batch.isFull p.batchSize maxImportBodyBytes) then
          flushForFile out c.idx
        else pure .continue : PushM ChunkStep) p)
      (fun step q => Advanced out start queued [c] (decide (step ≠ .abort)) q)
      (fun _ q => Advanced out start queued [c] false q) := by
  have hpush : ∀ q, pushChunk c.idx c.chunk p = (.ok (), q) → Sending out start (queued ++ [c]) q :=
    fun q hq => h.push hsound hroom hq
  have hq := hpush _ rfl
  refine .modify_bind (.get_bind (.ite (fun _ => advanced_flushed hq c.idx) fun _ => ?_))
  exact ⟨[c], List.Sublist.refl _, hq.sent, fun _ => hq, fun _ _ _ => rfl⟩

/-- **One chunk**. -/
theorem queueChunk_advanced (h : Sending out start queued p)
    (hsound : c.chunk.Sound start.batchSize) :
    Ends (queueChunk out c.idx c.chunk p)
      (fun step q => Advanced out start queued [c] (decide (step ≠ .abort)) q)
      (fun _ q => Advanced out start queued [c] false q) := by
  have hnone : ∀ {q : ImportPipeline} {step : ChunkStep}, Sent start queued q →
      (step ≠ .abort → Sending out start queued q) →
      (step = .fileFailed → out.Accepts → ¬ start.NotFailed) → step ≠ .continue →
      Advanced out start queued [c] (decide (step ≠ .abort)) q := by
    intro q step hsent hsending hfailed hstep
    refine ⟨[], List.nil_sublist _, ?_, ?_, ?_⟩
    · rw [List.append_nil]
      exact hsent
    · intro hgo
      rw [List.append_nil]
      exact hsending (of_decide_eq_true hgo)
    · intro hgo ha hs
      cases step with
      | «continue» => exact absurd rfl hstep
      | fileFailed => exact absurd hs (hfailed rfl ha)
      | abort => exact absurd rfl (of_decide_eq_true hgo)
  unfold queueChunk
  refine .get_bind (.ite (fun _ => ?_) fun hroom => ?_)
  · refine ((flushForFile_sends h).mono (fun _ _ hq => hq) fun _ _ hsent => .of_sent hsent).bind
      fun step q ⟨hsent, hsending, hfailed⟩ => ?_
    by_cases hstep : step = .continue
    · subst hstep
      obtain ⟨hq, hpending⟩ := hsending fun habort => by cases habort
      refine push_advanced hq hsound fun batch hbatch => ?_
      rw [hpending] at hbatch
      cases hbatch
    · refine .ite (fun _ => ?_) fun hno => absurd hstep hno
      exact hnone hsent (fun habort => (hsending habort).1) hfailed hstep
  · refine push_advanced h hsound fun batch hbatch => ?_
    rw [hbatch, Option.any_some, h.batchSize] at hroom
    exact Bool.eq_false_iff.mpr hroom

/-! A sequence of calls. -/

theorem finishQueueing_sends {idx : Nat} (h : Sending out start queued p) :
    Ends (finishQueueing out idx p) (fun _ q => Sending out start queued q)
      (fun _ q => Sent start queued q) := by
  have hkeeps : ∀ {γ : Type} {f : ImportPipeline → γ}, Aside f →
      Ops.Keeps f (finishQueueing out idx) := by
    intro γ f hf
    refine .bind (.modify fun q => ?_) fun _ => hf.finishFileIfSettled idx
    cases ht : q.trackers idx with
    | none => rfl
    | some t => exact hf.tracker q idx t _ ht rfl
  have hpacking := hkeeps aside_packing p
  have hfailures := hkeeps aside_failures p
  generalize finishQueueing out idx p = r at hpacking hfailures
  obtain ⟨e | a, q⟩ := r
  · exact h.sent.of_packing hpacking
  · exact h.of_packing hpacking fun _ hp => notFailed_of_failures hfailures hp

/-- **One call**. -/
theorem run_advanced {call : PipelineCall} (h : Sending out start queued p)
    (hsound : ∀ c ∈ chunksOf [call], c.chunk.Sound start.batchSize) :
    Ends (call.run out p) (fun go q => Advanced out start queued (chunksOf [call]) go q)
      (fun _ q => Advanced out start queued (chunksOf [call]) false q) := by
  cases call with
  | start idx name prepared =>
    refine .modify_bind (.of_sending (h.of_packing rfl fun _ hp => ?_))
    intro i t ht
    by_cases hi : i = idx
    · subst hi
      rw [ImportPipeline.setTracker_self] at ht
      cases ht
      rfl
    · rw [ImportPipeline.setTracker_of_ne hi] at ht
      exact hp i t ht
  | chunk c =>
    exact (queueChunk_advanced h (hsound c (List.mem_singleton_self c))).bind fun step q hq => hq
  | flush =>
    refine (flushAndContinue_sends h).mono ?_ fun _ q hsent => .of_sent hsent
    intro go q ⟨hsent, hq⟩
    cases go with
    | true => exact .of_sending (hq rfl).1
    | false => exact .of_sent hsent
  | finish idx =>
    refine ((finishQueueing_sends h).mono (fun _ _ hq => hq) fun _ q hsent => .of_sent hsent).bind
      fun _ q hq => ?_
    exact .of_sending hq

/-- What comes after what was reached. -/
theorem Advanced.trans {first second : List QueuedChunk} {go : Bool} {more : List QueuedChunk}
    (hmore : more.Sublist first) (hall : out.Accepts → start.NotFailed → more = first)
    (h : Advanced out start (queued ++ more) second go q) :
    Advanced out start queued (first ++ second) go q := by
  obtain ⟨last, hlast, hsent, hsending, hwhole⟩ := h
  rw [List.append_assoc] at hsent
  rw [List.append_assoc] at hsending
  refine ⟨more ++ last, hmore.append hlast, hsent, hsending, ?_⟩
  intro hgo ha hs
  rw [hall ha hs, hwhole hgo ha hs]

/-- A stop leaves the chunks to come unqueued. -/
theorem Advanced.stop {first : List QueuedChunk} (second : List QueuedChunk) {go : Bool}
    (h : Advanced out start queued first go q) :
    Advanced out start queued (first ++ second) false q := by
  obtain ⟨more, hmore, hsent, -, -⟩ := h
  exact ⟨more, hmore.trans (List.sublist_append_left _ _), hsent,
    fun hgo => absurd hgo Bool.false_ne_true, fun hgo => absurd hgo Bool.false_ne_true⟩

theorem runCalls_advanced : ∀ {calls : List PipelineCall} {queued : List QueuedChunk}
    {p : ImportPipeline}, Sending out start queued p →
    (∀ c ∈ chunksOf calls, c.chunk.Sound start.batchSize) →
    Ends (runCalls out calls p) (fun go q => Advanced out start queued (chunksOf calls) go q)
      (fun _ q => Advanced out start queued (chunksOf calls) false q)
  | [], queued, p, h, _ => .of_sending h
  | call :: calls, queued, p, h, hsound => by
    have hsplit : chunksOf (call :: calls) = chunksOf [call] ++ chunksOf calls := by
      rw [chunksOf, chunksOf, chunksOf, ← List.filterMap_append, List.singleton_append]
    rw [hsplit] at hsound ⊢
    have hfirst : ∀ c ∈ chunksOf [call], c.chunk.Sound start.batchSize := fun c hc =>
      hsound c (List.mem_append_left _ hc)
    have hrest : ∀ c ∈ chunksOf calls, c.chunk.Sound start.batchSize := fun c hc =>
      hsound c (List.mem_append_right _ hc)
    unfold runCalls
    refine ((run_advanced h hfirst).mono (fun _ _ hq => hq)
      fun _ _ hq => hq.stop (chunksOf calls)).bind fun go q hq => .ite (fun hgo => ?_) fun _ => ?_
    · obtain ⟨more, hmore, -, hsending, hall⟩ := hq
      refine (runCalls_advanced (hsending hgo) hrest).mono ?_ ?_
      · exact fun _ _ hr => .trans hmore (hall hgo) hr
      · exact fun _ _ hr => .trans hmore (hall hgo) hr
    · exact hq.stop (chunksOf calls)

end

/-! What is sent. -/

/-- What a sequence of calls came to: the posted batches are right and hold what was queued, in
    order. When the run was not stopped they hold all of it, and when besides no file failed all
    that the calls offered. -/
def Delivered (out : Outside) (calls : List PipelineCall) (start : ImportPipeline)
    (outcome : Except PushError Bool × ImportPipeline) : Prop :=
  ∃ queued groups batches, queued.Sublist (chunksOf calls) ∧
    outcome.2.queued = start.queued ++ queued.flatMap QueuedChunk.messages ∧
    postedBatches outcome.2.effects = postedBatches start.effects ++ batches ∧
    List.Forall₂ (RightBatch start.batchSize) groups batches ∧ groups.flatten <+: queued ∧
    (outcome.1 = .ok true → groups.flatten = queued ∧
      (out.Accepts → start.NotFailed → queued = chunksOf calls))

section
variable {out : Outside} {start q : ImportPipeline} {calls : List PipelineCall}

theorem Advanced.delivered {go : Bool} (error : PushError)
    (h : Advanced out start [] (chunksOf calls) go q) :
    Delivered out calls start (.ok false, q) ∧ Delivered out calls start (.error error, q) := by
  obtain ⟨more, hmore, hsent, -, -⟩ := h
  rw [List.nil_append] at hsent
  obtain ⟨groups, batches, hprefix, hposted, hright⟩ := hsent.groups
  exact ⟨⟨more, groups, batches, hmore, hsent.history, hposted, hright, hprefix,
      fun hgo => by cases hgo⟩,
    ⟨more, groups, batches, hmore, hsent.history, hposted, hright, hprefix,
      fun hgo => by cases hgo⟩⟩

/-- **A sequence of calls** from a pipeline with nothing pending. -/
theorem queueAll_delivered (hpending : start.pending = none)
    (hsound : ∀ c ∈ chunksOf calls, c.chunk.Sound start.batchSize) :
    Delivered out calls start (queueAll out calls start) := by
  have hends : Ends (queueAll out calls start)
      (fun go q => Delivered out calls start (.ok go, q))
      (fun error q => Delivered out calls start (.error error, q)) := by
    unfold queueAll
    refine ((runCalls_advanced (.fresh hpending) hsound).mono (fun _ _ hq => hq)
      fun error q hq => (hq.delivered error).2).bind fun go q hq =>
        .ite (fun hgo => ?_) fun _ => (hq.delivered .stuck).1
    obtain ⟨more, hmore, -, hsending, hall⟩ := hq
    rw [List.nil_append] at hsending
    have hadvanced : ∀ {r}, Sent start more r → Advanced out start [] (chunksOf calls) false r := by
      intro r hsent
      exact ⟨more, hmore, by rwa [List.nil_append], fun hgo => absurd hgo Bool.false_ne_true,
        fun hgo => absurd hgo Bool.false_ne_true⟩
    refine (flushAndContinue_sends (hsending hgo)).mono ?_ ?_
    · intro go' r ⟨hsent, hr⟩
      cases go' with
      | false => exact ((hadvanced hsent).delivered .stuck).1
      | true =>
        obtain ⟨hlast, hnone⟩ := hr rfl
        obtain ⟨groups, batches, hflat, hposted, hright⟩ := hlast.all hnone
        exact ⟨more, groups, batches, hmore, hlast.history, hposted, hright,
          hflat ▸ List.prefix_rfl, fun _ => ⟨hflat, hall hgo⟩⟩
    · intro error r hsent
      exact ((hadvanced hsent).delivered error).2
  revert hends
  generalize queueAll out calls start = r
  obtain ⟨e | go, q⟩ := r
  · exact id
  · exact id

end

/-! Chunks and batches together. -/

theorem EncodedFile.RightChunk.sound {file : EncodedFile} {batchSize : Nat} {lines : List StagedLine}
    {chunk : ImportChunk} (h : file.RightChunk batchSize lines chunk)
    (hin : ∀ l ∈ lines, l ∈ file.file.lines) : chunk.Sound batchSize where
  atLeastOne := h.atLeastOne
  atMost := h.atMost
  fits := h.fits
  whole := by
    refine ⟨file.file.headerLine :: lines.map StagedLine.line, ?_, ?_, ?_⟩
    · intro line hline
      rcases List.mem_cons.mp hline with rfl | hline
      · exact file.headerLine_isLine
      · obtain ⟨l, hl, rfl⟩ := List.mem_map.mp hline
        exact file.lines_areLines l (hin l hl)
    · rw [h.body, List.flatten_cons]
    · rw [h.fileLines, List.length_cons, List.length_cons, List.length_map, List.length_map]

/-- Every chunk of a right cut may go into a batch. -/
theorem EncodedFile.Cut.sound {file : EncodedFile} {batchSize : Nat} {chunks : List ImportChunk}
    {chunk : ImportChunk} (h : file.Cut batchSize chunks) (hchunk : chunk ∈ chunks) :
    chunk.Sound batchSize := by
  obtain ⟨groups, hflat, hright⟩ := h
  obtain ⟨lines, hlines, hl⟩ := exists_of_forall₂ hright.flip hchunk
  refine EncodedFile.RightChunk.sound hl fun l hin => ?_
  have htoSend : l ∈ file.toSend := by
    rw [← hflat]
    exact List.mem_flatten_of_mem hlines hin
  exact List.mem_of_mem_filter htoSend

/-- Whatever is queued of the chunks of these files is sent as it should be. -/
def BatchesRight (batchSize : Nat) (files : List EncodedFile) : Prop :=
  ∀ out start calls, start.batchSize = batchSize → start.pending = none →
    (∀ c ∈ chunksOf calls, ∃ file ∈ files, ∃ chunks,
      file.build batchSize = .ok chunks ∧ c.chunk ∈ chunks) →
    Delivered out calls start (queueAll out calls start)

/-- **Chunks and batches** lose no line and keep to the limits exactly when no line to be sent
    overflows a chunk together with the header, or one overflows it alone. -/
theorem chunks_and_batches (files : List EncodedFile) {batchSize : Nat} (hsize : 1 ≤ batchSize) :
    ((∀ file ∈ files, ∀ chunks, file.build batchSize = .ok chunks → file.Cut batchSize chunks) ∧
      BatchesRight batchSize files) ↔ ∀ file ∈ files, file.Fits := by
  constructor
  · intro ⟨hcut, _⟩ file hfile
    exact (cut_iff_fits hsize).mp (hcut file hfile)
  · intro hfits
    have hcut : ∀ file ∈ files, ∀ chunks, file.build batchSize = .ok chunks →
        file.Cut batchSize chunks := fun file hfile => (cut_iff_fits hsize).mpr (hfits file hfile)
    refine ⟨hcut, ?_⟩
    intro out start calls hstart hpending hoffered
    apply queueAll_delivered hpending
    intro c hc
    obtain ⟨file, hfile, chunks, hbuild, hchunk⟩ := hoffered c hc
    rw [hstart]
    exact (hcut file hfile chunks hbuild).sound hchunk

/-! A file of two messages, and one whose only message leaves no room for the header. -/

def twoLines : EncodedFile where
  name := "chat.jsonl"
  force := false
  held := fun _ => false
  file := ⟨"imessage", [104, 10], [⟨[97, 10], "g", 2⟩, ⟨[98, 10], "h", 3⟩], 0⟩
  headerLine_isLine := ⟨[104], by decide, rfl⟩
  lines_areLines := by
    intro l hl
    rcases List.mem_pair.mp hl with rfl | rfl
    · exact ⟨[97], by decide, rfl⟩
    · exact ⟨[98], by decide, rfl⟩

theorem chunks_and_batches_twoLines : twoLines.Cut 1
    [⟨[104, 10, 97, 10], [⟨"chat.jsonl", "g"⟩], [1, 2]⟩,
      ⟨[104, 10, 98, 10], [⟨"chat.jsonl", "h"⟩], [1, 3]⟩] := by
  have hfits : ∀ file ∈ [twoLines], file.Fits := by
    intro file hfile
    rw [List.mem_singleton.mp hfile]
    exact .inr (by decide)
  exact ((chunks_and_batches [twoLines] (le_refl 1)).mpr hfits).1 twoLines
    (List.mem_singleton_self _) _ (by decide)

/-- One line of a message is as long as a body may be. -/
def brimful : EncodedFile where
  name := "chat.jsonl"
  force := false
  held := fun _ => false
  file := ⟨"imessage", [104, 10],
    [⟨List.replicate (maxImportBodyBytes - 1) 97 ++ [10], "g", 2⟩], 0⟩
  headerLine_isLine := ⟨[104], by decide, rfl⟩
  lines_areLines := by
    intro l hl
    rw [List.mem_singleton.mp hl]
    refine ⟨List.replicate (maxImportBodyBytes - 1) 97, ?_, rfl⟩
    intro h
    exact absurd (List.eq_of_mem_replicate h) (by decide)

theorem brimful_overflows :
    ¬ ∀ chunks, brimful.build 1 = .ok chunks → brimful.Cut 1 chunks := by
  rw [cut_iff_fits (le_refl 1)]
  have hlength : ∀ l ∈ brimful.toSend, l.line.length = maxImportBodyBytes := by
    intro l hl
    rw [List.mem_singleton.mp (List.mem_of_mem_filter hl), List.length_append, List.length_replicate]
    rfl
  have hin : (⟨List.replicate (maxImportBodyBytes - 1) 97 ++ [10], "g", 2⟩ : StagedLine) ∈
      brimful.toSend := List.mem_filter.mpr ⟨List.mem_singleton_self _, rfl⟩
  rintro (⟨l, hl, hlong⟩ | hfits)
  · rw [hlength l hl] at hlong
    exact lt_irrefl _ hlong
  · have hboth := hfits _ hin
    rw [hlength _ hin] at hboth
    have hheader : 2 ≤ 0 := Nat.le_of_add_le_add_right (by rwa [Nat.zero_add])
    omega

end MessageCrate

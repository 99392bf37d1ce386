import MessageCrate.Push.Run

/- A push run settles every file once.

   `Driving` is what holds at the head of the import loop: the files before `nextConsume` have
   been taken up to their end, none from there on is tracked, and each file submitted and not
   taken is with a worker or waits for its turn. A turn keeps it and brings `Drive.work` down
   (`driveOnce_ends`), so the loop ends by itself; `push_settles_every_file_once` is what its
   report then says. -/
namespace MessageCrate
open Ops

/-! What a worker hands over. -/

section
variable {force : Bool} {hasMessage : StagedLine → Bool} {name : String} {b b' : ChunkBuilder}

def ChunkBuilder.allMessages (b : ChunkBuilder) : List JournalMessage :=
  b.chunks.flatMap ImportChunk.messages ++ b.messages

theorem allMessages_push (line : List UInt8) (message : JournalMessage) (fileLine : Nat) :
    (b.push line message fileLine).allMessages = b.allMessages ++ [message] := by
  unfold ChunkBuilder.push ChunkBuilder.allMessages
  split <;> simp [ChunkBuilder.sealChunk]

theorem finish_messages : b.finish.flatMap ImportChunk.messages = b.allMessages := by
  unfold ChunkBuilder.finish ChunkBuilder.allMessages
  split
  · rename_i h
    rw [List.isEmpty_iff.mp h, List.append_nil]
  · simp [ChunkBuilder.sealChunk]

/-- The chunks of a file hold its lines that the journal does not name, in order. -/
theorem pushLines_messages (lines : List StagedLine)
    (h : pushLines force hasMessage name lines b = .ok b') :
    b'.allMessages = b.allMessages ++
      (lines.filter (fun l => !(!force && hasMessage l))).map (fun l => ⟨name, l.guid⟩) := by
  induction lines generalizing b with
  | nil =>
    cases h
    simp
  | cons l lines ih =>
    unfold pushLines at h
    split at h
    · rename_i hfound
      rw [ih h, List.filter_cons_of_neg (by simpa using hfound)]
    · rename_i hnew
      split at h
      · cases h
      · rw [ih h, allMessages_push, List.filter_cons_of_pos
          (by rw [Bool.not_eq_true']; exact Bool.eq_false_iff.mpr hnew)]
        simp

end

theorem mem_foldl_record {effects : List PushEffect} {journal : RunJournal} {k : String} :
    k ∈ (effects.foldl RunJournal.record journal).state.messages ↔
      k ∈ journal.state.messages ∨ k ∈ journalledKeys effects := by
  induction effects generalizing journal with
  | nil => simp [journalledKeys]
  | cons e effects ih =>
    rw [List.foldl_cons, ih]
    cases e with
    | journalledMessages source messages how =>
      simp only [RunJournal.record, mem_messageBatchOk, journalledKeys, List.flatMap_cons,
        List.mem_append, List.mem_map, or_assoc]
    | journalledFile => simp [RunJournal.record, RunJournal.fileOk, journalledKeys]
    | journalledFailure => simp [RunJournal.record, RunJournal.recordFailure, journalledKeys]
    | posted => simp [RunJournal.record, journalledKeys]
    | acknowledged => simp [RunJournal.record, journalledKeys]
    | refused => simp [RunJournal.record, journalledKeys]

theorem mem_foldl_record_files {effects : List PushEffect} {journal : RunJournal} {k : String} :
    k ∈ (effects.foldl RunJournal.record journal).state.files ↔
      k ∈ journal.state.files ∨ k ∈ journalledFiles effects := by
  induction effects generalizing journal with
  | nil => simp [journalledFiles]
  | cons e effects ih =>
    rw [List.foldl_cons, ih]
    cases e with
    | journalledFile idx source name how =>
      simp only [RunJournal.record, mem_fileOk, journalledFiles, List.filterMap_cons,
        List.mem_cons]
      tauto
    | journalledMessages => simp [RunJournal.record, RunJournal.messageBatchOk, journalledFiles]
    | journalledFailure => simp [RunJournal.record, RunJournal.recordFailure, journalledFiles]
    | posted => simp [RunJournal.record, journalledFiles]
    | acknowledged => simp [RunJournal.record, journalledFiles]
    | refused => simp [RunJournal.record, journalledFiles]

section
variable {input : PushInput} {p q : ImportPipeline} {idx : Nat} {name : String} {d : Drive}

theorem History.hasMessage (h : History input p) {guid : String}
    (hfound : p.journal.hasMessage name guid = true) :
    input.Journalled p.effects (messageKey name guid) := by
  unfold RunJournal.hasMessage at hfound
  rw [List.contains_iff_mem, h.journal, mem_foldl_record] at hfound
  exact hfound

theorem prepareFile_covers (h : History input p) {job : PrepareJob} {file : PreparedFile}
    (hname : input.names[job.idx]? = some job.name)
    (hfile : prepareFile input p job = .prepared file) :
    input.Covers p.effects job.idx file.messages := by
  unfold prepareFile at hfile
  cases hstaged : input.out.staged job.idx with
  | error error => rw [hstaged] at hfile; cases hfile
  | ok staged =>
    rw [hstaged] at hfile
    simp only [buildImportChunks] at hfile
    cases hpush : pushLines input.cfg.force (workerFinds input p.journal job) job.name staged.lines
        (.new staged.headerLine p.batchSize maxImportBodyBytes) with
    | error error => rw [hpush] at hfile; cases hfile
    | ok b =>
      rw [hpush] at hfile
      cases hfile
      have hmessages : PreparedFile.messages ⟨staged.source, b.finish, staged.attachments⟩ =
          (staged.lines.filter (fun l => !(!input.cfg.force &&
            workerFinds input p.journal job l))).map (fun l => ⟨job.name, l.guid⟩) := by
        rw [PreparedFile.messages, finish_messages, pushLines_messages staged.lines hpush]
        rfl
      refine ⟨job.name, staged, hname, hstaged, ?_, fun l hl => ?_⟩
      · rw [hmessages]
        exact (List.filter_sublist).map _
      · by_cases hskip : (!input.cfg.force && workerFinds input p.journal job l) = true
        · right
          simp only [Bool.and_eq_true, Bool.not_eq_true', workerFinds, Bool.or_eq_true] at hskip
          refine ⟨hskip.1, ?_⟩
          rcases hskip.2 with hold | ⟨-, hnew⟩
          · exact .inl (List.contains_iff_mem.mp hold)
          · exact h.hasMessage hnew
        · left
          rw [hmessages]
          refine List.mem_map.mpr ⟨l, List.mem_filter.mpr ⟨hl, ?_⟩, rfl⟩
          rw [Bool.not_eq_true']
          exact Bool.eq_false_iff.mpr hskip

/-! The head of the loop. -/

/-- What the loop still has to do: a file to submit counts two, one with a worker two, and one
    that waits for its turn one. -/
def Drive.work (input : PushInput) (d : Drive) : Nat :=
  2 * (input.names.length - d.nextSubmit) + 2 * d.queue.inflight.length + d.queue.ready.length

/-- What holds at the head of the loop. -/
structure Driving (input : PushInput) (d : Drive) (p : ImportPipeline) : Prop
    extends Ready input p where
  consumed : ∀ i < d.nextConsume, Taken i p
  untracked : ∀ i, d.nextConsume ≤ i → p.trackers i = none
  submitted : ∀ i, d.nextConsume ≤ i → i < d.nextSubmit →
    (∃ job ∈ d.queue.inflight, job.idx = i) ∨ ∃ result ∈ d.queue.ready, result.idx = i
  bound : d.nextSubmit ≤ input.names.length
  jobs : ∀ job ∈ d.queue.inflight, input.names[job.idx]? = some job.name
  ready : ∀ result ∈ d.queue.ready, FromWorker input p result
  capacity : 0 < d.queue.capacity

theorem FromWorker.mono {result : PrepareResult} (h : FromWorker input p result)
    (hrows : ∀ i, (p.results i).isSome → (q.results i).isSome) (hlog : p.effects <+: q.effects) :
    FromWorker input q result :=
  ⟨h.name, fun hs => hrows _ (h.skipped hs), fun file hf => (h.prepared file hf).mono hlog⟩

theorem Driving.kept (h : Driving input d p) (hready : Ready input q) (hkept : KeepsFiles p q) :
    Driving input d q where
  toReady := hready
  consumed := fun i hi => (h.consumed i hi).mono (hkept.files i) (hkept.rows i)
  untracked := fun i hi => by
    have := hkept.files i
    rw [h.untracked i hi, Option.map_none, Option.map_eq_none_iff] at this
    exact this
  submitted := h.submitted
  bound := h.bound
  jobs := h.jobs
  ready := fun result hr => (h.ready result hr).mono hkept.rows hkept.effects
  capacity := h.capacity

/-! Submitting. -/

theorem submitFile_ends (h : Driving input d p) (hname : input.names[d.nextSubmit]? = some name) :
    Ends (submitFile input d.nextSubmit name d.queue p)
      (fun queue q => Driving input { d with queue, nextSubmit := d.nextSubmit + 1 } q ∧
        Drive.work input { d with queue, nextSubmit := d.nextSubmit + 1 } ≤ d.work input)
      (Failed input) := by
  have hlt : d.nextSubmit < input.names.length := (List.getElem?_eq_some_iff.mp hname).1
  unfold submitFile
  refine .get_bind (.ite (fun himported => .modify_bind (.pure ⟨?_, ?_⟩)) fun _ =>
    .pure ⟨?_, ?_⟩)
  · have hrow : RowSays input p.effects d.nextSubmit (.skipped name) := by
      refine ⟨hname, nofun, fun _ => ?_, nofun⟩
      simp only [alreadyImported, Bool.and_eq_true, decide_eq_true_eq, Bool.not_eq_true'] at himported
      refine ⟨himported.1.1, himported.1.2, ?_⟩
      have hfile : name ∈ p.journal.state.files := List.contains_iff_mem.mp himported.2
      rw [h.history.journal, mem_foldl_record_files] at hfile
      exact hfile
    have hkept : KeepsFiles p (p.setResult d.nextSubmit (.skipped name)) := kept_setResult
    have hnext := h.kept (h.toReady.setResult hrow) hkept
    refine ⟨hnext.toReady, hnext.consumed, hnext.untracked, fun i hi hs => ?_, hlt, h.jobs,
      fun result hr => ?_, h.capacity⟩
    · rcases Nat.lt_succ_iff_lt_or_eq.mp hs with hs | rfl
      · exact (h.submitted i hi hs).imp_right fun ⟨r, hr, hidx⟩ =>
          ⟨r, List.mem_append_left _ hr, hidx⟩
      · exact .inr ⟨_, List.mem_append_right _ (List.mem_singleton_self _), rfl⟩
    · rcases List.mem_append.mp hr with hr | hr
      · exact hnext.ready result hr
      · cases List.mem_singleton.mp hr
        exact ⟨hname, fun _ => by simp, nofun⟩
  · simp only [Drive.work, PrepareQueue.markSkipped, List.length_append, List.length_singleton]
    omega
  · refine ⟨h.toReady, h.consumed, h.untracked, fun i hi hs => ?_, hlt, fun job hj => ?_, h.ready,
      h.capacity⟩
    · rcases Nat.lt_succ_iff_lt_or_eq.mp hs with hs | rfl
      · exact (h.submitted i hi hs).imp_left fun ⟨job, hj, hidx⟩ =>
          ⟨job, List.mem_append_left _ hj, hidx⟩
      · exact .inl ⟨_, List.mem_append_right _ (List.mem_singleton_self _), rfl⟩
    · rcases List.mem_append.mp hj with hj | hj
      · exact h.jobs job hj
      · cases List.mem_singleton.mp hj
        exact hname
  · simp only [Drive.work, PrepareQueue.submit, List.length_append, List.length_singleton]
    omega

/-- Files are submitted until none is left or there is no room. -/
theorem submitFiles_ends (names : List String) (h : Driving input d p)
    (hnames : names = input.names.drop d.nextSubmit) :
    Ends (submitFiles input names d p)
      (fun d' q => Driving input d' q ∧ d'.work input ≤ d.work input ∧
        d'.nextConsume = d.nextConsume ∧
        (input.names.length ≤ d'.nextSubmit ∨ d'.queue.hasCapacity = false))
      (Failed input) := by
  induction names generalizing d p with
  | nil =>
    exact ⟨h, Nat.le_refl _, rfl, .inl (List.drop_eq_nil_iff.mp hnames.symm)⟩
  | cons name names ih =>
    unfold submitFiles
    refine .ite (fun _ => ?_) fun hfull => ⟨h, Nat.le_refl _, rfl, .inr (by simpa using hfull)⟩
    have hname : input.names[d.nextSubmit]? = some name := by
      rw [← List.head?_drop, ← hnames]
      rfl
    have hrest : names = input.names.drop (d.nextSubmit + 1) := by
      rw [← List.tail_drop, ← hnames]
      rfl
    refine (submitFile_ends h hname).bind fun queue q ⟨hd, hwork⟩ => ?_
    exact (ih hd hrest).imp fun d' r ⟨hd', hwork', hnext, hstop⟩ =>
      ⟨hd', hwork'.trans hwork, hnext, hstop⟩

/-! One result more, and the results that are ready. -/

theorem waitOne_ends (h : Driving input d p) (hbusy : d.queue.inflight ≠ []) :
    Ends (waitOne input d.queue p)
      (fun queue q => Driving input { d with queue } q ∧
        Drive.work input { d with queue } < d.work input)
      (Failed input) := by
  obtain ⟨q, hq⟩ : ∃ q, q = { p with arrivals := p.arrivals + 1 } := ⟨_, rfl⟩
  have hready : Ready input q := by
    rw [hq]
    exact ⟨⟨h.history.counters rfl (.refl _) (.refl _) rfl rfl rfl rfl rfl,
      ⟨h.tidy.counts, h.tidy.refused, h.tidy.settled, h.tidy.done, h.tidy.complete⟩, h.sent⟩,
      h.allQueued⟩
  have hkept : KeepsFiles p q := by
    rw [hq]
    exact ⟨rfl, rfl, fun _ => rfl, fun _ h => h, Nat.le_refl _, List.prefix_rfl⟩
  have hnext := h.kept hready hkept
  unfold waitOne
  refine .get_bind (.modify_bind ?_)
  rw [← hq]
  cases input.out.arrival p.arrivals with
  | none => exact ⟨nofun, hready.history⟩
  | some n =>
    have hpos : 0 < d.queue.inflight.length := List.length_pos_of_ne_nil hbusy
    have hlt : n % d.queue.inflight.length < d.queue.inflight.length := Nat.mod_lt _ hpos
    obtain ⟨i, hi⟩ : ∃ i, i = n % d.queue.inflight.length := ⟨_, rfl⟩
    rw [← hi] at hlt
    obtain ⟨job, hjob⟩ : ∃ job, d.queue.inflight[i]? = some job :=
      ⟨_, List.getElem?_eq_getElem hlt⟩
    simp only [← hi, hjob]
    have hmem : job ∈ d.queue.inflight := List.mem_of_getElem? hjob
    refine .pure ⟨⟨hnext.toReady, hnext.consumed, hnext.untracked, fun k hk hs => ?_, h.bound,
      fun j hj => h.jobs j (List.mem_of_mem_eraseIdx hj), fun result hr => ?_, h.capacity⟩, ?_⟩
    · rcases h.submitted k hk hs with ⟨j, hj, hidx⟩ | ⟨r, hr, hidx⟩
      · by_cases hthis : j = job
        · subst hthis
          exact .inr ⟨_, List.mem_append_right _ (List.mem_singleton_self _), hidx⟩
        · refine .inl ⟨j, List.mem_eraseIdx_iff_getElem?.mpr ?_, hidx⟩
          obtain ⟨m, hm⟩ := List.mem_iff_getElem?.mp hj
          exact ⟨m, fun he => hthis (by rw [he, hjob] at hm; exact (Option.some.inj hm).symm), hm⟩
      · exact .inr ⟨r, List.mem_append_left _ hr, hidx⟩
    · rcases List.mem_append.mp hr with hr | hr
      · exact hnext.ready result hr
      · cases List.mem_singleton.mp hr
        refine ⟨h.jobs job hmem, fun hs => ?_, fun file hf => ?_⟩
        · -- A worker never skips a file.
          simp only [prepareFile] at hs
          split at hs
          · cases hs
          · split at hs <;> cases hs
        · rw [hq]
          exact prepareFile_covers h.history (h.jobs job hmem) hf
    · simp only [Drive.work, List.length_append, List.length_singleton,
        List.length_eraseIdx_of_lt hlt]
      omega

theorem take_spec {queue queue' : PrepareQueue} {result : PrepareResult}
    (h : queue.take idx = some (result, queue')) :
    result ∈ queue.ready ∧ result.idx = idx ∧ queue'.inflight = queue.inflight ∧
      queue'.capacity = queue.capacity ∧
      queue'.ready = queue.ready.filter (fun r => decide (r.idx ≠ idx)) := by
  simp only [PrepareQueue.take, Option.map_eq_some_iff, Prod.mk.injEq] at h
  obtain ⟨r, hr, rfl, rfl⟩ := h
  exact ⟨List.mem_of_find?_eq_some hr, by simpa using List.find?_some hr, rfl, rfl, rfl⟩

theorem take_isSome {queue : PrepareQueue} (h : queue.isReady idx = true) :
    (queue.take idx).isSome := by
  simpa [PrepareQueue.isReady, PrepareQueue.take, List.find?_isSome] using h

/-- One result taken up to its end. -/
theorem Driving.consumed_next {queue : PrepareQueue} {result : PrepareResult}
    (h : Driving input d p) (htake : d.queue.take d.nextConsume = some (result, queue))
    (hready : Ready input q) (htaken : Taken result.idx q) (hkept : KeepsOthers result.idx p q) :
    Driving input { d with queue, nextConsume := d.nextConsume + 1 } q ∧
      Drive.work input { d with queue, nextConsume := d.nextConsume + 1 } < d.work input := by
  obtain ⟨hmem, hidx, hinflight, hcapacity, hrest⟩ := take_spec htake
  rw [hidx] at htaken hkept
  refine ⟨⟨hready, fun i hi => ?_, fun i hi => ?_, fun i hi hs => ?_, h.bound, ?_, fun r hr => ?_,
    hcapacity ▸ h.capacity⟩, ?_⟩
  · rcases Nat.lt_succ_iff_lt_or_eq.mp hi with hi | rfl
    · exact (h.consumed i hi).mono (hkept.files i (Nat.ne_of_lt hi)) (hkept.rows i)
    · exact htaken
  · have hi' : d.nextConsume < i := hi
    have := hkept.files i (Nat.ne_of_gt hi')
    rw [h.untracked i hi'.le, Option.map_none, Option.map_eq_none_iff] at this
    exact this
  · have hi' : d.nextConsume < i := hi
    rw [hinflight, hrest]
    exact (h.submitted i hi'.le hs).imp_right fun ⟨r, hr, hri⟩ =>
      ⟨r, List.mem_filter.mpr ⟨hr, by simp [hri, Nat.ne_of_gt hi']⟩, hri⟩
  · rw [hinflight]
    exact h.jobs
  · rw [hrest] at hr
    exact (h.ready r (List.mem_filter.mp hr).1).mono hkept.rows hkept.effects
  · have hshort : queue.ready.length < d.queue.ready.length := by
      rw [hrest]
      exact List.length_filter_lt_length_iff_exists.mpr ⟨result, hmem, by simp [hidx]⟩
    simp only [Drive.work, hinflight]
    omega

/-- Taking what is ready leads to the head of the loop or stops it; it does some of the work
    when there is a turn for a result that is ready. -/
theorem consumeReady_ends (n : Nat) (h : Driving input d p) :
    Ends (consumeReady input n d p)
      (fun o q => (∀ d', o = some d' → Driving input d' q ∧ d'.work input ≤ d.work input ∧
          (0 < n → d.queue.isReady d.nextConsume = true → d'.work input < d.work input)) ∧
        (o = none → Steady input q ∧ Stopped input.out q))
      (Failed input) := by
  induction n generalizing d p with
  | zero =>
    refine ⟨fun d' hd => ?_, nofun⟩
    cases hd
    exact ⟨h, Nat.le_refl _, fun hpos => absurd hpos (Nat.lt_irrefl 0)⟩
  | succ n ih =>
    unfold consumeReady
    cases htake : d.queue.take d.nextConsume with
    | none =>
      refine ⟨fun d' hd => ?_, nofun⟩
      cases hd
      refine ⟨h, Nat.le_refl _, fun _ hready => ?_⟩
      have := take_isSome hready
      rw [htake] at this
      cases this
    | some found =>
      obtain ⟨result, queue⟩ := found
      obtain ⟨hmem, hidx, -⟩ := take_spec htake
      have hnew : p.trackers result.idx = none := h.untracked _ (Nat.le_of_eq hidx.symm)
      refine (consumeResult_ends h.toReady hnew (h.ready result hmem)).bind
        fun go q ⟨hkept, hgo, hstop⟩ => .ite (fun htrue => ?_) fun hfalse => ?_
      · obtain ⟨hready, htaken⟩ := hgo htrue
        obtain ⟨hd, hwork⟩ := h.consumed_next htake hready htaken hkept
        refine (ih hd).imp fun o r ⟨hsome, hnone⟩ => ⟨fun d' hd' => ?_, hnone⟩
        obtain ⟨hdriving, hle, -⟩ := hsome d' hd'
        exact ⟨hdriving, hle.trans hwork.le, fun _ _ => hle.trans_lt hwork⟩
      · exact ⟨nofun, fun _ => hstop (by simpa using hfalse)⟩

/-! A turn, and the loop. -/

/-- How a turn ends: at the head of the loop with less to do, or stopped. -/
def AfterTurn (input : PushInput) (work : Nat) : DriveStep → ImportPipeline → Prop
  | .next d, q => Driving input d q ∧ d.work input < work
  | .done aborted, q => aborted = true ∧ Steady input q ∧ Stopped input.out q

theorem consumeTurn_ends {work : Nat} (h : Driving input d p) (hwork : d.work input ≤ work)
    (hless : d.work input < work ∨ d.queue.isReady d.nextConsume = true) :
    Ends (consumeTurn input d p) (AfterTurn input work) (Failed input) := by
  unfold consumeTurn
  refine (consumeReady_ends d.queue.ready.length h).bind fun o q ⟨hsome, hnone⟩ => ?_
  cases o with
  | none => exact ⟨rfl, hnone rfl⟩
  | some d' =>
    obtain ⟨hd, hle, hlt⟩ := hsome d' rfl
    refine ⟨hd, hless.elim (hle.trans_lt ·) fun hready => ?_⟩
    have hpos : 0 < d.queue.ready.length := by
      obtain ⟨r, hr, -⟩ := List.any_eq_true.mp hready
      exact List.length_pos_of_mem hr
    exact (hlt hpos hready).trans_le hwork

theorem driveOnce_ends (h : Driving input d p) (hmore : d.nextConsume < input.names.length) :
    Ends (driveOnce input d p) (AfterTurn input (d.work input)) (Failed input) := by
  -- From the flush on: files are submitted, and one result waited for if none is ready.
  have hrest : ∀ q, Driving input d q → Ends ((do
      let d ← submitFiles input (input.names.drop d.nextSubmit) d
      if d.queue.isReady d.nextConsume then consumeTurn input d
      else if d.queue.isIdle && decide (input.names.length ≤ d.nextSubmit) then pure (.done false)
      else
        let queue ← waitOne input d.queue
        consumeTurn input { d with queue } : PushM DriveStep) q)
      (AfterTurn input (d.work input)) (Failed input) := by
    intro q hq
    refine (submitFiles_ends _ hq rfl).bind fun d' r ⟨hd, hwork, hnext, hfull⟩ => ?_
    refine .ite (fun hready => consumeTurn_ends hd hwork (.inr hready)) fun hnotReady => ?_
    have hbusy : d'.queue.inflight ≠ [] := by
      intro hidle
      have hroom : d'.queue.hasCapacity = true := by
        simpa [PrepareQueue.hasCapacity, hidle] using hd.capacity
      have hsubmitted : d'.nextConsume < d'.nextSubmit := by
        rcases hfull with hfull | hfull
        · omega
        · rw [hroom] at hfull
          cases hfull
      -- The next file was submitted, so it is with a worker or ready.
      rcases hd.submitted _ (Nat.le_refl _) hsubmitted with ⟨job, hjob, -⟩ | ⟨result, hr, hidx⟩
      · rw [hidle] at hjob
        cases hjob
      · exact hnotReady (List.any_eq_true.mpr ⟨result, hr, by simp [hidx]⟩)
    refine .ite (fun hidle => ?_) fun _ => ?_
    · simp only [PrepareQueue.isIdle, Bool.and_eq_true, List.isEmpty_iff] at hidle
      exact absurd hidle.1 hbusy
    · exact (waitOne_ends hd hbusy).bind fun queue u ⟨hu, hless⟩ =>
        consumeTurn_ends hu (hless.le.trans hwork) (.inl (hless.trans_le hwork))
  unfold driveOnce
  rw [bind_apply, isCancelled_apply]
  have hchecked := h.kept h.toReady.checked keepsFiles_checked
  refine .ite (fun hc => ?_) fun _ => .get_bind ?_
  · exact ⟨rfl, hchecked.toSteady, p.checks, Nat.lt_succ_self _, hc⟩
  · refine .ite (fun _ => ?_) fun _ => hrest _ hchecked
    refine (flushAndContinue_ends hchecked.toReady).bind fun go q ⟨hheld, hk, _, _, hgo, hstop⟩ => ?_
    cases go with
    | true => exact hrest q (hchecked.kept (hgo rfl) hk)
    | false => exact ⟨rfl, hheld, hstop rfl⟩

/-- How the loop ends: with every file taken, or stopped. -/
def AfterDrive (input : PushInput) (aborted : Bool) (q : ImportPipeline) : Prop :=
  (aborted = false → Ready input q ∧ ∀ i < input.names.length, Taken i q) ∧
  (aborted = true → Steady input q ∧ Stopped input.out q)

/-- The loop ends by itself: it never takes more turns than there is work. -/
theorem drive_ends (turns : Nat) (h : Driving input d p) (hturns : d.work input < turns) :
    Ends (drive input turns d p) (AfterDrive input) (Failed input) := by
  induction turns generalizing d p with
  | zero => exact absurd hturns (Nat.not_lt_zero _)
  | succ turns ih =>
    unfold drive
    refine .ite (fun hmore => ?_) fun hdone => ?_
    · refine (driveOnce_ends h hmore).bind fun step q hq => ?_
      cases step with
      | done aborted =>
        obtain ⟨rfl, hheld, hstop⟩ := hq
        exact ⟨nofun, fun _ => ⟨hheld, hstop⟩⟩
      | next d' => exact ih hq.1 (by have := hq.2; omega)
    · exact ⟨fun _ => ⟨h.toReady, fun i hi => h.consumed i (by omega)⟩, nofun⟩

/-! The end of the run. -/

/-- Waiting for a request does not look at the cancel flag. -/
theorem joinInflight_checks (out : Outside) :
    Ops.Keeps ImportPipeline.checks (joinInflight out) := by
  have haside : Aside ImportPipeline.checks :=
    ⟨fun _ _ _ _ _ _ => rfl, fun _ _ _ => rfl, fun _ _ _ _ => rfl, fun _ _ _ _ => rfl, fun _ => rfl⟩
  exact haside.joinInflight (.inr fun _ _ _ => rfl)

/-- How a run stands once its last request is answered. -/
def AfterSettle (input : PushInput) (aborted : Bool) (q : ImportPipeline) : Prop :=
  History input q ∧ (aborted = true → Stopped input.out q) ∧
  (aborted = false → ∀ i < input.names.length, (q.results i).isSome)

/-- With nothing pending or in flight, a file that was taken has its row. -/
theorem Ready.row (h : Ready input p) (hpending : p.pending = none) (hinflight : p.inflight = none)
    (htaken : Taken idx p) : (p.results idx).isSome := by
  rcases htaken with hrow | ⟨t, ht, hcomplete⟩
  · exact hrow
  by_cases hdone : t.done = true
  · exact h.tidy.done idx t ht hdone
  -- Every message of it was answered, so it has failed or none is outstanding: it is settled.
  have hsettled : t.isSettled = true := by
    cases hfailed : t.failed with
    | some error => exact FileTracker.isSettled_iff.mpr ⟨hdone, .inl (by rw [hfailed]; nofun)⟩
    | none =>
      have hqueued := h.tidy.complete idx t ht hcomplete hfailed
      have hposted : ofFile idx p.posted = t.toSend := by
        have := h.allQueued
        rw [ImportPipeline.pendingMessages_none hpending, List.append_nil] at this
        rw [← hqueued, ← this]
      have hanswered : answeredBatches p.effects = postedBatches p.effects := by
        have := h.sent
        rw [hinflight] at this
        simpa using this
      have hsplit : (ofFile idx (messagesIn (answeredBatches p.effects))).length =
          (ofFile idx p.acked).length + (ofFile idx p.refused).length := ofFile_answered_length
      rw [hanswered] at hsplit
      have hrefused : ofFile idx p.refused = [] := by
        by_contra hne
        rcases h.tidy.refused idx t ht hne with hf | hf
        · exact hf hfailed
        · cases hf
      have hcounts := h.tidy.counts idx t ht
      have hlength : (ofFile idx p.posted).length =
          (ofFile idx p.acked).length + (ofFile idx p.refused).length := hsplit
      rw [hposted, hrefused] at hlength
      simp only [ofFile_nil, List.length_nil] at hcounts hlength
      have hzero : t.outstandingMessages = 0 := by omega
      exact FileTracker.isSettled_iff.mpr ⟨hdone, .inr ⟨hcomplete, hzero⟩⟩
  exact absurd (h.tidy.settled idx t ht hsettled) nofun

theorem settle_ends {aborted : Bool} (h : AfterDrive input aborted p) :
    Ends (settle input aborted p) (AfterSettle input) (Failed input) := by
  -- A run that is stopped waits for the request in flight, however it comes out.
  have hstopped : ∀ q, Steady input q → Stopped input.out q →
      Ends ((do
        (joinInflight input.out).ignore
        pure true : PushM Bool) q) (AfterSettle input) (Failed input) := by
    intro q hq hstop
    have hjoin : Ends (joinInflight input.out q) (fun _ => History input) (fun _ => History input) :=
      (joinInflight_ends hq).mono (fun _ _ hr => hr.1.history) fun _ _ hr => hr.2
    have hchecks := joinInflight_checks input.out q
    change AfterSettle input true (joinInflight input.out q).2
    refine ⟨?_, fun _ => hstop.mono hchecks.ge, nofun⟩
    generalize joinInflight input.out q = r at hjoin
    obtain ⟨e | a, t⟩ := r
    · exact hjoin
    · exact hjoin
  unfold settle
  cases aborted with
  | true => exact hstopped p (h.2 rfl).1 (h.2 rfl).2
  | false =>
    obtain ⟨hready, htaken⟩ := h.1 rfl
    have hchecked := hready.checked
    change Ends ((isCancelled input.out >>= _) p) _ _
    rw [bind_apply, isCancelled_apply]
    by_cases hc : input.out.cancelledAt p.checks = true
    · simp only [hc]
      exact hstopped _ hchecked.toSteady ⟨p.checks, Nat.lt_succ_self _, hc⟩
    · rw [Bool.not_eq_true] at hc
      simp only [hc]
      refine (flushAndContinue_ends hchecked).bind fun go q ⟨hheld, hk, hpending, hin, hgo, hstop⟩ => ?_
      cases go with
      | true =>
        refine ⟨hheld.history, nofun, fun _ i hi => ?_⟩
        have htaken' : Taken i q := (htaken i hi).mono (hk.files i) (hk.rows i)
        exact (hgo rfl).row hpending (hin rfl) htaken'
      | false => exact hstopped q hheld (hstop rfl)

/-! The report. -/

theorem getElem?_filterMap_range {α : Type} {g : Nat → Option α} {n : Nat}
    (h : ∀ i < n, (g i).isSome) (i : Nat) :
    ((List.range n).filterMap g)[i]? = if i < n then g i else none := by
  induction n with
  | zero => simp
  | succ n ih =>
    have hprefix := ih fun i hi => h i (hi.trans (Nat.lt_succ_self n))
    obtain ⟨a, ha⟩ := Option.isSome_iff_exists.mp (h n (Nat.lt_succ_self n))
    have hlength : ((List.range n).filterMap g).length = n := by
      rw [List.length_filterMap_eq_countP, List.countP_eq_length.mpr, List.length_range]
      exact fun j hj => h j ((List.mem_range.mp hj).trans (Nat.lt_succ_self n))
    rw [List.range_succ, List.filterMap_append, List.getElem?_append, hlength, hprefix]
    rcases Nat.lt_trichotomy i n with hi | rfl | hi
    · simp [hi, hi.trans (Nat.lt_succ_self n)]
    · simp [ha]
    · have h1 : ¬ i < n := by omega
      have h2 : ¬ i < n + 1 := by omega
      simp only [h1, h2, if_false]
      exact List.getElem?_eq_none (by simp [ha]; omega)

theorem countStatus_sum (rows : List FileResult) :
    countStatus rows .ok + countStatus rows .failed + countStatus rows .skipped +
      countStatus rows .cancelled = rows.length := by
  induction rows with
  | nil => rfl
  | cons row rows ih =>
    simp only [countStatus, List.countP_cons, List.length_cons] at ih ⊢
    cases row.status <;> simp <;> omega

/-- What is on record of a run, however it ended: no message was posted twice, what was done
    was done after what it needs, and the journal holds what was written to it. -/
structure OnRecord (input : PushInput) (p : ImportPipeline) : Prop where
  once : ∀ idx, ofFile idx p.posted = [] ∨ ∃ name file, input.names[idx]? = some name ∧
    input.out.staged idx = .ok file ∧
    (ofFile idx p.posted).Sublist (file.lines.map (fun l => ⟨name, l.guid⟩))
  ordered : ∀ before e after, p.effects = before ++ e :: after → Justified input before e
  journal : p.journal = p.effects.foldl RunJournal.record input.journal ∨
    p.journal = (p.effects.foldl RunJournal.record input.journal).compact

/-- What the report of a run says, and what happened for it to say so. -/
structure SettledOnce (input : PushInput) (report : PushReport) (p : ImportPipeline) : Prop
    extends OnRecord input p where
  files : report.results.map FileResult.file = input.names
  counts : report.conversationsOk + report.conversationsFailed + report.conversationsSkipped +
    report.conversationsCancelled = input.names.length
  ok : ∀ (idx : Nat) (row : FileResult), report.results[idx]? = some row → row.status = .ok →
    input.Delivered p.effects idx row.file
  skipped : ∀ (idx : Nat) (row : FileResult), report.results[idx]? = some row → row.status = .skipped →
    input.Imported p.effects row.file
  cancelled : ∀ row ∈ report.results, row.status = .cancelled → report.cancelled = true
  stopped : report.cancelled = true → ∃ n, input.out.cancelledAt n = true
  clean : report.ok = true → ∀ row ∈ report.results, row.status = .ok ∨ row.status = .skipped
  attempted : report.messagesAttempted = p.acked.length + report.messagesFailed
  failedMessages : report.messagesFailed = p.refused.length

/-- The row a file has in the end. -/
theorem recordCancelled_row (h : History input p) (hidx : input.names[idx]? = some name) :
    ∃ row, (recordCancelled input.names p).results idx = some row ∧ row.file = name ∧
      (p.results idx = some row ∨ (p.results idx = none ∧ row.status = .cancelled)) := by
  unfold recordCancelled
  simp only [hidx, Option.map_some, Option.some.injEq]
  cases hrow : p.results idx with
  | some row =>
    have := (h.rows idx row hrow).file
    rw [hidx] at this
    exact ⟨row, rfl, (Option.some.inj this).symm, .inl rfl⟩
  | none =>
    cases ht : p.trackers idx with
    | some t =>
      have := (h.covers idx t ht).1
      rw [hidx] at this
      exact ⟨_, rfl, (Option.some.inj this).symm, .inr ⟨rfl, rfl⟩⟩
    | none => exact ⟨_, rfl, rfl, .inr ⟨rfl, rfl⟩⟩

theorem History.once (h : History input p) (idx : Nat) :
    ofFile idx p.posted = [] ∨ ∃ name file, input.names[idx]? = some name ∧
      input.out.staged idx = .ok file ∧
      (ofFile idx p.posted).Sublist (file.lines.map (fun l => ⟨name, l.guid⟩)) := by
  have hsub : (ofFile idx p.posted).Sublist (ofFile idx p.queued) :=
    ofFile_sublist ((List.sublist_append_left _ _).trans h.queued)
  have hsend := h.toSend idx
  cases ht : p.trackers idx with
  | none =>
    rw [ht] at hsend
    rw [List.prefix_nil.mp hsend] at hsub
    exact .inl (List.sublist_nil.mp hsub)
  | some t =>
    rw [ht] at hsend
    obtain ⟨-, name, file, hname, hfile, hlines, -⟩ := h.covers idx t ht
    exact .inr ⟨name, file, hname, hfile, (hsub.trans hsend.sublist).trans hlines⟩

theorem History.onRecord (h : History input p) : OnRecord input p :=
  ⟨h.once, h.ordered, .inl h.journal⟩

theorem driving_new : Driving input ⟨.start (max input.cfg.prepareAhead 1), 0, 0⟩
    (.new (max input.cfg.batchSize 1) input.journal) where
  history := ⟨.refl _, .refl _, fun _ => List.prefix_rfl, nofun, rfl, rfl,
    fun before e after heq => by simp [ImportPipeline.new] at heq, rfl, nofun⟩
  tidy := ⟨nofun, nofun, nofun, nofun, nofun⟩
  sent := rfl
  allQueued := rfl
  consumed := fun _ hi => absurd hi (Nat.not_lt_zero _)
  untracked := fun _ _ => rfl
  submitted := fun _ _ hi => absurd hi (Nat.not_lt_zero _)
  bound := Nat.zero_le _
  jobs := nofun
  ready := nofun
  capacity := Nat.lt_of_lt_of_le Nat.zero_lt_one (Nat.le_max_right _ _)

/-- The report of a run whose last request is answered. -/
theorem AfterSettle.report {aborted cancelled : Bool} {r p' : ImportPipeline}
    (h : AfterSettle input aborted r) (hcancelled : cancelled = input.out.cancelledAt r.checks)
    (hresults : q.results = (recordCancelled input.names r).results)
    (hacc : q.accounting = r.accounting) (heffects : p'.effects = r.effects)
    (hjournal : p'.journal = r.journal ∨ p'.journal = r.journal.compact) :
    SettledOnce input (q.report input aborted cancelled) p' := by
  obtain ⟨hhist, hstop, hrows⟩ := h
  have hrow : ∀ idx name, input.names[idx]? = some name → ∃ row, q.results idx = some row ∧
      row.file = name ∧ (r.results idx = some row ∨
        (r.results idx = none ∧ row.status = .cancelled)) := by
    rw [hresults]
    exact fun idx name hidx => recordCancelled_row hhist hidx
  have hsome : ∀ i < input.names.length, (q.results i).isSome := fun i hi => by
    obtain ⟨row, hr, -⟩ := hrow i _ (List.getElem?_eq_getElem hi)
    rw [hr]
    rfl
  have hget : ∀ i : Nat, (q.intoResults input.names.length)[i]? =
      if i < input.names.length then q.results i else none := getElem?_filterMap_range hsome
  have hfiles : (q.intoResults input.names.length).map FileResult.file = input.names := by
    apply List.ext_getElem?
    intro i
    rw [List.getElem?_map, hget]
    split
    · rename_i hi
      obtain ⟨row, hr, hname, -⟩ := hrow i _ (List.getElem?_eq_getElem hi)
      rw [hr, List.getElem?_eq_getElem hi, ← hname]
      rfl
    · rename_i hi
      rw [List.getElem?_eq_none (Nat.le_of_not_lt hi)]
      rfl
  -- A row of the report is one that was written, or a cancelled one for a file without.
  have hcases : ∀ (idx : Nat) (row : FileResult),
      (q.intoResults input.names.length)[idx]? = some row → idx < input.names.length ∧
      (r.results idx = some row ∨ (r.results idx = none ∧ row.status = .cancelled)) := by
    intro idx row hidx
    rw [hget] at hidx
    split at hidx
    · rename_i hi
      obtain ⟨row', hr, -, hcase⟩ := hrow idx _ (List.getElem?_eq_getElem hi)
      cases hr.symm.trans hidx
      exact ⟨hi, hcase⟩
    · cases hidx
  -- A file without a row means that the run was stopped.
  have hmissing : ∀ i < input.names.length, r.results i = none → aborted = true := by
    intro i hi hnone
    cases aborted with
    | true => rfl
    | false =>
      have := hrows rfl i hi
      rw [hnone] at this
      cases this
  have hposted : p'.posted = r.posted := by rw [ImportPipeline.posted, heffects]; rfl
  have hacked : p'.acked = r.acked := by rw [ImportPipeline.acked, heffects]; rfl
  have hrefused : p'.refused = r.refused := by rw [ImportPipeline.refused, heffects]; rfl
  have hrecord : OnRecord input p' := by
    refine ⟨by rw [hposted]; exact hhist.once, by rw [heffects]; exact hhist.ordered, ?_⟩
    rw [heffects, ← hhist.journal]
    exact hjournal
  refine ⟨hrecord, hfiles, ?_, ?_, ?_, ?_, ?_, ?_, ?_, ?_⟩
  · have hlength : (q.intoResults input.names.length).length = input.names.length := by
      rw [← List.length_map (f := FileResult.file), hfiles]
    simp only [ImportPipeline.report]
    rw [countStatus_sum, hlength]
  · intro idx row hidx hok
    rw [heffects]
    rcases (hcases idx row hidx).2 with hr | ⟨-, hc⟩
    · exact (hhist.rows idx row hr).ok hok
    · rw [hok] at hc
      cases hc
  · intro idx row hidx hskipped
    rw [heffects]
    rcases (hcases idx row hidx).2 with hr | ⟨-, hc⟩
    · exact (hhist.rows idx row hr).skipped hskipped
    · rw [hskipped] at hc
      cases hc
  · intro row hrow' hc
    obtain ⟨idx, hidx⟩ := List.mem_iff_getElem?.mp hrow'
    obtain ⟨hi, hcase⟩ := hcases idx row hidx
    rcases hcase with hr | ⟨hnone, -⟩
    · exact absurd hc (hhist.rows idx row hr).notCancelled
    · obtain ⟨n, hn, hset⟩ := hstop (hmissing idx hi hnone)
      change cancelled = true
      rw [hcancelled]
      exact input.out.cancelled_stays n _ hn.le hset
  · intro hc
    exact ⟨r.checks, hcancelled ▸ hc⟩
  · intro hok row hrow'
    simp only [ImportPipeline.report, Bool.and_eq_true, decide_eq_true_eq, Bool.not_eq_true'] at hok
    obtain ⟨idx, hidx⟩ := List.mem_iff_getElem?.mp hrow'
    obtain ⟨hi, hcase⟩ := hcases idx row hidx
    have hfailed : row.status ≠ .failed := by
      have := List.countP_eq_zero.mp hok.1 row hrow'
      simpa using this
    rcases hcase with hr | ⟨hnone, -⟩
    · have hnot := (hhist.rows idx row hr).notCancelled
      cases hs : row.status with
      | ok => exact .inl rfl
      | skipped => exact .inr rfl
      | failed => exact absurd hs hfailed
      | cancelled => exact absurd hs hnot
    · rw [hmissing idx hi hnone] at hok
      cases hok.2
  · rw [hacked]
    simp only [ImportPipeline.report, hacc]
    rw [hhist.attempted, hhist.failed]
  · rw [hrefused]
    simp only [ImportPipeline.report, hacc]
    exact hhist.failed

/-- Every run comes to its report or fails; the loop never runs out of turns. -/
theorem pushRun_ends :
    Ends (pushRun input) (SettledOnce input)
      (fun error p => error ≠ .stuck ∧ OnRecord input p) := by
  unfold pushRun run
  refine .ite (fun _ => ⟨nofun, driving_new.history.onRecord⟩) fun _ => ?_
  have hwork : Drive.work input ⟨.start (max input.cfg.prepareAhead 1), 0, 0⟩ < input.turns := by
    simp [Drive.work, PrepareQueue.start, PushInput.turns]
  refine ((drive_ends _ driving_new hwork).mono (fun _ _ h => h)
    fun _ _ h => ⟨h.1, h.2.onRecord⟩).bind fun _ q hq => ?_
  refine ((settle_ends hq).mono (fun _ _ h => h)
    fun _ _ h => ⟨h.1, h.2.onRecord⟩).bind fun aborted r hr => .modify_bind ?_
  rw [bind_apply, isCancelled_apply]
  refine .get_bind (.ite (fun _ => .modify_bind (.pure ?_)) fun _ => .pure ?_)
  · exact hr.report rfl rfl rfl rfl (.inr rfl)
  · exact hr.report rfl rfl rfl rfl (.inl rfl)

end

theorem pushRun_onRecord (input : PushInput) : OnRecord input (pushRun input).2 := by
  have hends : Ends (pushRun input) (SettledOnce input)
      (fun error p => error ≠ .stuck ∧ OnRecord input p) := pushRun_ends
  generalize pushRun input = r at hends ⊢
  obtain ⟨error | report, p⟩ := r
  · exact hends.2
  · exact hends.toOnRecord

theorem pushRun_settled {input : PushInput} {report : PushReport}
    (h : (pushRun input).1 = .ok report) : SettledOnce input report (pushRun input).2 := by
  have hends : Ends (pushRun input) (SettledOnce input)
      (fun error p => error ≠ .stuck ∧ OnRecord input p) := pushRun_ends
  rw [Prod.fst_eq_iff.mp h] at hends
  exact hends

/-- A run that returns a report has settled every file once. -/
theorem push_settles_every_file_once (input : PushInput) (report : PushReport)
    (p : ImportPipeline) (h : pushRun input = (.ok report, p)) : SettledOnce input report p := by
  have hsettled := pushRun_settled (congrArg Prod.fst h)
  rwa [h] at hsettled

/-- Two files of two messages each, sent one message a request; the second request is
    refused. -/
def twoFiles : PushInput where
  names := ["a.jsonl", "b.jsonl"]
  cfg := ⟨.append, false, 1, 2⟩
  file := []
  url := "https://vault.test"
  username := "alice"
  out :=
    { cancelledAt := fun _ => false
      cancelled_stays := fun _ _ _ h => h
      staged := fun idx =>
        .ok ⟨"imessage", [1], [⟨[2], "g" ++ toString idx, 2⟩, ⟨[3], "h" ++ toString idx, 3⟩], 0⟩
      looksLate := fun _ _ => true
      arrival := fun _ => some 1
      answer := fun n => if n = 1 then .refused ⟨"503", none⟩ else .ok ⟨1, 1, 0⟩
      appended := fun _ => .synced
      compacted := true }

/-- Its report. -/
def twoFilesReport : PushReport :=
  { ok := false, cancelled := false, mode := .append, conversationsTotal := 2
    conversationsOk := 1, conversationsFailed := 1, conversationsSkipped := 0
    conversationsCancelled := 0, messagesAttempted := 4, messagesInserted := 3
    messagesDeduped := 0, messagesFailed := 1
    results := [⟨"a.jsonl", .failed, some "503", 0, 0⟩, ⟨"b.jsonl", .ok, none, 2, 0⟩] }

theorem push_settles_every_file_once_refused :
    SettledOnce twoFiles twoFilesReport (pushRun twoFiles).2 := by
  have hreport : (pushRun twoFiles).1 = .ok twoFilesReport := by decide +kernel
  exact push_settles_every_file_once _ _ _ (Prod.fst_eq_iff.mp hreport)

end MessageCrate

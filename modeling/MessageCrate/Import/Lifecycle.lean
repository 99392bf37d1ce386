import MessageCrate.Import.Messages
import MessageCrate.Import.Runs

/- The lifecycle of an Import Run.

   `Acts.writes` says once what a step of a request may write of the runs: nothing, a new
   running run, a change to a running one that keeps it running, or the close of one. Every
   fact of a run over the steps of any requests is read off it.

   What is proved:
     1. `Acts.writes`: what one act does.
     2. `lifecycle_step`, `lifecycle_steps`: the invariant (`Lifecycle`), kept by a step and
        by any number.
     3. `finished_step`: a finished run and its issues never change.
     4. `stamped_step`: a message is committed under a run only while the run is running.
     5. `import_run_lifecycle`: all of it, from the empty tables. -/
namespace MessageCrate
open Grouping SqlTable Table

/-! The guarded update. -/

section
variable {accountId importId : Int} {set : Change ImportRow} {t t' : Table ImportRow}
  {r : ImportRow}

theorem isRunningOf_iff : r.isRunningOf accountId importId = true ↔
    r.id = importId ∧ r.accountId = accountId ∧ r.status = .running := by
  unfold ImportRow.isRunningOf
  simp

theorem updateRunning_eq_some (h : updateRunning accountId importId set t = some t') :
    t' = t.update (whileRunning accountId importId set) ∧
      ∃ r ∈ t.rows, r.id = importId ∧ r.accountId = accountId ∧ r.status = .running := by
  unfold updateRunning at h
  split at h
  · next hany =>
    cases h
    obtain ⟨r, hr, hrun⟩ := List.any_eq_true.mp hany
    exact ⟨rfl, r, hr, isRunningOf_iff.mp hrun⟩
  · cases h

/-- The update changes a row exactly when the account's run is running. -/
theorem updateRunning_isSome (hr : r ∈ t.rows) :
    (updateRunning r.accountId r.id set t).isSome = true ↔ r.status = .running := by
  constructor
  · intro h
    obtain ⟨t', ht'⟩ := Option.isSome_iff_exists.mp h
    obtain ⟨-, r', hr', hid, -, hrun⟩ := updateRunning_eq_some ht'
    rw [← Table.eq_of_id_eq hr' hr hid]
    exact hrun
  · intro hrun
    have hany : t.rows.any (ImportRow.isRunningOf r.accountId r.id) = true :=
      List.any_eq_true.mpr ⟨r, hr, isRunningOf_iff.mpr ⟨rfl, rfl, hrun⟩⟩
    unfold updateRunning
    rw [if_pos hany]
    rfl

/-- A row the update does not name is left alone. -/
theorem whileRunning_of_not (h : ¬ (r.id = importId ∧ r.status = .running)) :
    (whileRunning accountId importId set).apply r = r := by
  refine if_neg fun hrun => h ?_
  obtain ⟨hid, -, hstatus⟩ := isRunningOf_iff.mp hrun
  exact ⟨hid, hstatus⟩

/-- Where a row of the updated table comes from. -/
theorem mem_whileRunning {r' : ImportRow}
    (hr' : r' ∈ (t.update (whileRunning accountId importId set)).rows) :
    ∃ r ∈ t.rows, r'.id = r.id ∧
      ((r.isRunningOf accountId importId = true ∧ r' = set.apply r) ∨
        (r.isRunningOf accountId importId = false ∧ r' = r)) := by
  obtain ⟨r, hr, rfl⟩ := List.mem_map.mp hr'
  refine ⟨r, hr, (whileRunning accountId importId set).id_apply r, ?_⟩
  cases hrun : r.isRunningOf accountId importId with
  | true => exact Or.inl ⟨rfl, if_pos hrun⟩
  | false => exact Or.inr ⟨rfl, if_neg (by simp [hrun])⟩

/-- A row keeps its place through the update. -/
theorem exists_whileRunning (hr : r ∈ t.rows) :
    ∃ r' ∈ (t.update (whileRunning accountId importId set)).rows, r'.id = r.id :=
  ⟨_, List.mem_map.mpr ⟨r, hr, rfl⟩, (whileRunning accountId importId set).id_apply r⟩

end

/-! Reading a run. -/

theorem requireRunningImport_ok {accountId importId : Int} {t : Table ImportRow} {row : ImportRow}
    (h : requireRunningImport accountId importId t = .ok row) :
    row ∈ t.rows ∧ row.id = importId ∧ row.accountId = accountId ∧ row.status = .running := by
  unfold requireRunningImport getOwnedImport at h
  cases hfind : t.rows.find? (fun r => r.id = importId ∧ r.accountId = accountId) with
  | none =>
    rw [hfind] at h
    cases h
  | some r =>
    rw [hfind] at h
    by_cases hstatus : r.status = .running
    · have hrow : (Except.ok r : Except ImportLookupError ImportRow) = .ok row := by
        simpa [hstatus, bind, Except.bind, pure, Except.pure] using h
      cases hrow
      obtain ⟨hid, hacc⟩ := by simpa using List.find?_some hfind
      exact ⟨List.mem_of_find?_eq_some hfind, hid, hacc, hstatus⟩
    · simp [hstatus, bind, Except.bind, throw, throwThe, MonadExceptOf.throw] at h

theorem requireRunningImport_of_running {t : Table ImportRow} {r : ImportRow} (hr : r ∈ t.rows)
    (hrun : r.status = .running) : requireRunningImport r.accountId r.id t = .ok r := by
  have hfind : t.rows.find? (fun r' => r'.id = r.id ∧ r'.accountId = r.accountId) = some r := by
    cases h : t.rows.find? (fun r' => r'.id = r.id ∧ r'.accountId = r.accountId) with
    | none =>
      have := List.find?_eq_none.mp h r hr
      simp at this
    | some r' =>
      have hid : r'.id = r.id := by
        have := List.find?_some h
        simp only [decide_eq_true_eq] at this
        exact this.1
      rw [Table.eq_of_id_eq (List.mem_of_find?_eq_some h) hr hid]
  unfold requireRunningImport getOwnedImport
  rw [hfind]
  simp [hrun, bind, Except.bind, pure, Except.pure]

/-! Completing a run. -/

section
variable {now : String} {accountId importId : Int} {args : CompleteImportArgs} {db : Db}
  {imports imports' : Table ImportRow} {issues issues' : Table ImportIssueRow}

theorem completeImport_ok
    (h : completeImport now accountId importId args db imports issues = .ok (imports', issues')) :
    (∃ r ∈ imports.rows, r.id = importId ∧ r.accountId = accountId ∧ r.status = .running) ∧
      (∃ messageCount attachmentCount bytesUploaded, imports' = imports.update
        (whileRunning accountId importId
          (args.outcome now messageCount attachmentCount bytesUploaded))) ∧
      issues' = issues.insertOrIgnoreAll (args.issues.map (fun issue => issue.new importId now)) := by
  unfold completeImport at h
  cases hkinds : args.issues.forM (fun issue => validateIssueKind issue.kind) with
  | error e =>
    rw [hkinds] at h
    cases h
  | ok u =>
    rw [hkinds] at h
    cases hreq : requireRunningImport accountId importId imports with
    | error e =>
      rw [hreq] at h
      cases h
    | ok existing =>
      rw [hreq] at h
      simp only [bind, Except.bind] at h
      split at h
      · cases h
      · next imports₁ hupdate =>
        cases h
        obtain ⟨heq, hrun⟩ := updateRunning_eq_some hupdate
        exact ⟨hrun, ⟨_, _, _, heq⟩, rfl⟩

/-- A completion whose issues are of the stored kinds goes through exactly when the run is
running. -/
theorem completeImport_isOk_iff {r : ImportRow} (hr : r ∈ imports.rows)
    (hkinds : ∀ issue ∈ args.issues, issue.kind = "error" ∨ issue.kind = "skip") :
    (∃ out, completeImport now r.accountId r.id args db imports issues = .ok out) ↔
      r.status = .running := by
  constructor
  · rintro ⟨⟨imports', issues'⟩, h⟩
    obtain ⟨⟨r', hr', hid, -, hrun⟩, -, -⟩ := completeImport_ok h
    rw [← Table.eq_of_id_eq hr' hr hid]
    exact hrun
  · intro hrun
    have hvalid : args.issues.forM (fun issue => validateIssueKind issue.kind) = .ok () := by
      generalize args.issues = l at hkinds
      induction l with
      | nil => rfl
      | cons issue l ih =>
        have hone : validateIssueKind issue.kind = .ok () :=
          if_pos (hkinds issue List.mem_cons_self)
        show (validateIssueKind issue.kind >>= fun _ => l.forM _) = _
        rw [hone]
        exact ih fun issue' h => hkinds issue' (List.mem_cons_of_mem _ h)
    have hsome (set : Change ImportRow) : ∃ t, updateRunning r.accountId r.id set imports = some t :=
      Option.isSome_iff_exists.mp ((updateRunning_isSome hr).mpr hrun)
    unfold completeImport
    rw [hvalid, requireRunningImport_of_running hr hrun]
    simp only [bind, Except.bind]
    split
    · next hnone =>
      obtain ⟨t, ht⟩ := hsome _
      rw [ht] at hnone
      cases hnone
    · exact ⟨_, rfl⟩

end

/-! What an act writes. -/

/-- The run an act closed. -/
def closedBy : Pending ⊕ Answer → Option Int
  | .inr (.closed importId) => some importId
  | _ => none

/-- The account an act opens a run of, if it is a start. -/
def opens : Pending → Option Int
  | .start args _ => some args.accountId
  | _ => none

/-- What an act may write of the runs and their issues. What a batch imports under never
changes. -/
inductive RunWrites (x x' : World) (opened : Option Int) : Option Int → Prop
  | nothing (himports : x'.imports = x.imports) (hissues : x'.issues = x.issues) :
      RunWrites x x' opened none
  | opens (row : ImportRow) (himports : x'.imports.rows = x.imports.rows ++ [row])
      (hid : row.id = x.imports.nextId) (hrun : row.status = .running) (hstage : row.stage ≠ none)
      (haccount : opened = some row.accountId) (hissues : x'.issues = x.issues) :
      RunWrites x x' opened none
  | changes {accountId importId : Int} {set : Change ImportRow}
      (hset : ∀ r : ImportRow, r.status = .running →
        (set.apply r).status = .running ∧ (set.apply r).stage ≠ none)
      (hsame : ∀ r, BatchContext.fromRow (set.apply r) = BatchContext.fromRow r)
      (himports : x'.imports = x.imports.update (whileRunning accountId importId set))
      (hissues : x'.issues = x.issues) : RunWrites x x' opened none
  | closes {accountId importId : Int} {set : Change ImportRow}
      (hrun : ∃ r ∈ x.imports.rows, r.id = importId ∧ r.accountId = accountId ∧
        r.status = .running)
      (hset : ∀ r : ImportRow, (set.apply r).status ≠ .running ∧ (set.apply r).stage = none)
      (hsame : ∀ r, BatchContext.fromRow (set.apply r) = BatchContext.fromRow r)
      (himports : x'.imports = x.imports.update (whileRunning accountId importId set))
      (hissues : ∃ added, x'.issues.rows = x.issues.rows ++ added ∧
        ∀ issue ∈ added, issue.importId = importId) : RunWrites x x' opened (some importId)

section
variable {sha256Hex : ByteArray → String} {rfc3339Secs : String → Option Int} {locked : List Int}
  {x x' : World} {p : Pending} {out : Pending ⊕ Answer}

theorem startImport_eq_some {now : String} {args : StartImportArgs} {t t' : Table ImportRow}
    {i : Int} (h : startImport now args t = some (t', i)) :
    i = t.nextId ∧ t'.rows = t.rows ++ [(args.new now).row i] := by
  obtain ⟨t₁, hins, hpair⟩ := Option.map_eq_some_iff.mp h
  cases hpair
  exact ⟨rfl, (insert_eq_some hins).2⟩

theorem Acts.writes (h : Acts sha256Hex rfc3339Secs locked x p x' out) :
    RunWrites x x' (opens p) (closedBy out) := by
  cases h with
  | start h =>
    rename_i args credential now imports importId
    obtain ⟨hid, hrows⟩ := startImport_eq_some h
    have hold : ∀ r ∈ x.imports.rows, (recordCredential importId credential).apply r = r := by
      intro r hr
      refine if_neg fun he => id_ne_nextId hr ?_
      rw [← hid]
      exact he
    refine .opens ((recordCredential importId credential).apply ((args.new now).row importId))
      ?_ ?_ ?_ ?_ ?_ rfl
    · show (imports.rows.map _) = _
      rw [hrows, List.map_append, List.map_singleton, (List.map_congr_left hold).trans (List.map_id _)]
    · rw [← hid]
      exact (recordCredential importId credential).id_apply _
    · unfold recordCredential
      simp only
      split <;> rfl
    · unfold recordCredential
      simp only
      split <;> exact Option.some_ne_none _
    · unfold recordCredential
      simp only
      split <;> rfl
  | startRefused h => exact .nothing rfl rfl
  | setStage h =>
    obtain ⟨heq, -⟩ := updateRunning_eq_some h
    exact .changes (fun r hr => ⟨hr, Option.some_ne_none _⟩) (fun _ => rfl) heq rfl
  | setStageMissed h => exact .nothing rfl rfl
  | discard h =>
    obtain ⟨heq, hrun⟩ := updateRunning_eq_some h
    exact .closes hrun (fun r => ⟨by simp, rfl⟩) (fun _ => rfl) heq ⟨[], by simp, by simp⟩
  | discardMissed h => exact .nothing rfl rfl
  | discardRunning h => exact .nothing rfl rfl
  | discardRunningNone h => exact .nothing rfl rfl
  | whyNotRunning => exact .nothing rfl rfl
  | complete h =>
    rename_i accountId importId args now imports issues
    obtain ⟨hrun, ⟨messageCount, attachmentCount, bytesUploaded, heq⟩, hissues⟩ :=
      completeImport_ok h
    refine .closes hrun (fun r => ⟨?_, rfl⟩) (fun _ => rfl) heq ?_
    · show args.status.status ≠ .running
      cases args.status <;> simp [CompletedStatus.status]
    · obtain ⟨added, hrows, hadded⟩ := insertOrIgnoreAll_spec
        (args.issues.map (fun issue => issue.new importId now)) x.issues
      refine ⟨added, by rw [hissues]; exact hrows, fun issue hissue => ?_⟩
      obtain ⟨-, n, hn, hrow⟩ := hadded issue hissue
      obtain ⟨input, -, rfl⟩ := List.mem_map.mp hn
      rw [hrow]
      rfl
  | completeRefused h => exact .nothing rfl rfl
  | batch h => exact .nothing rfl rfl
  | batchRefused h => exact .nothing rfl rfl
  | batchLock h => exact .nothing rfl rfl
  | batchCommit hrun h =>
    split
    · exact .nothing rfl rfl
    · exact .nothing rfl rfl
  | batchDedupe h => exact .nothing rfl rfl
  | fails => exact .nothing rfl rfl

end

/-! The invariant. -/

/-- How often the answers say the run was closed. -/
def closes (answers : List Answer) (importId : Int) : Nat := answers.count (.closed importId)

/-- A run has a stage as long as it is running, and one answer closed it once it is not. -/
structure Lifecycle (x : World) (answers : List Answer) : Prop where
  stage_iff : ∀ r ∈ x.imports.rows, r.stage ≠ none ↔ r.status = .running
  closes_eq : ∀ r ∈ x.imports.rows,
    closes answers r.id = if r.status = .running then 0 else 1
  known : ∀ i, closes answers i ≠ 0 → ∃ r ∈ x.imports.rows, r.id = i

/-- The issues recorded for one run. -/
def World.issuesOf (x : World) (importId : Int) : List ImportIssueRow :=
  x.issues.rows.filter (fun issue => issue.importId = importId)

section
variable {x x' : World} {opened closed : Option Int} {answers answers' : List Answer}

/-- A written world keeps the invariant, when the answers say what was closed. -/
theorem lifecycle_writes (h : RunWrites x x' opened closed) (hl : Lifecycle x answers)
    (hanswers : ∀ i, closes answers' i = closes answers i + if closed = some i then 1 else 0) :
    Lifecycle x' answers' := by
  cases h with
  | nothing himports hissues =>
    have hcount : ∀ i, closes answers' i = closes answers i := fun i => by simpa using hanswers i
    refine ⟨?_, ?_, ?_⟩
    · rw [himports]
      exact hl.stage_iff
    · rw [himports]
      intro r hr
      rw [hcount, hl.closes_eq r hr]
    · rw [himports]
      intro i hi
      rw [hcount] at hi
      exact hl.known i hi
  | opens row himports hid hrun hstage haccount hissues =>
    have hcount : ∀ i, closes answers' i = closes answers i := fun i => by simpa using hanswers i
    refine ⟨?_, ?_, ?_⟩
    · rw [himports]
      intro r hr
      rcases List.mem_append.mp hr with hr | hr
      · exact hl.stage_iff r hr
      · obtain rfl := List.mem_singleton.mp hr
        exact ⟨fun _ => hrun, fun _ => hstage⟩
    · rw [himports]
      intro r hr
      rw [hcount]
      rcases List.mem_append.mp hr with hr | hr
      · exact hl.closes_eq r hr
      · -- No answer closed a run of this id: it would be a run of the table.
        obtain rfl := List.mem_singleton.mp hr
        rw [if_pos hrun]
        by_contra hne
        obtain ⟨r', hr', hr'id⟩ := hl.known r.id hne
        exact id_ne_nextId hr' (hr'id.trans hid)
    · rw [himports]
      intro i hi
      rw [hcount] at hi
      obtain ⟨r, hr, hrid⟩ := hl.known i hi
      exact ⟨r, List.mem_append_left _ hr, hrid⟩
  | changes hset hsame himports hissues =>
    rename_i accountId importId set
    have hcount : ∀ i, closes answers' i = closes answers i := fun i => by simpa using hanswers i
    refine ⟨?_, ?_, ?_⟩
    · rw [himports]
      intro r' hr'
      obtain ⟨r, hr, -, ⟨hrun, rfl⟩ | ⟨-, rfl⟩⟩ := mem_whileRunning hr'
      · obtain ⟨hstatus, hstage⟩ := hset r (isRunningOf_iff.mp hrun).2.2
        exact ⟨fun _ => hstatus, fun _ => hstage⟩
      · exact hl.stage_iff r' hr
    · rw [himports]
      intro r' hr'
      obtain ⟨r, hr, hid, ⟨hrun, rfl⟩ | ⟨-, rfl⟩⟩ := mem_whileRunning hr'
      · have hrunning := (isRunningOf_iff.mp hrun).2.2
        rw [hcount, hid, hl.closes_eq r hr, if_pos hrunning, if_pos (hset r hrunning).1]
      · rw [hcount, hl.closes_eq r' hr]
    · intro i hi
      rw [hcount] at hi
      obtain ⟨r, hr, hrid⟩ := hl.known i hi
      obtain ⟨r', hr', hid⟩ := exists_whileRunning (t := x.imports) hr
      rw [himports]
      exact ⟨r', hr', hid.trans hrid⟩
  | closes hrun hset hsame himports hissues =>
    rename_i accountId importId set
    obtain ⟨row, hrow, hrowid, hrowacc, hrowrun⟩ := hrun
    refine ⟨?_, ?_, ?_⟩
    · rw [himports]
      intro r' hr'
      obtain ⟨r, hr, -, ⟨-, rfl⟩ | ⟨-, rfl⟩⟩ := mem_whileRunning hr'
      · exact ⟨fun h => absurd (hset r).2 h, fun h => absurd h (hset r).1⟩
      · exact hl.stage_iff r' hr
    · rw [himports]
      intro r' hr'
      obtain ⟨r, hr, hid, ⟨hrun, rfl⟩ | ⟨hrun, rfl⟩⟩ := mem_whileRunning hr'
      · -- The run that was closed.
        obtain ⟨hrid, -, hrunning⟩ := isRunningOf_iff.mp hrun
        rw [hanswers, hid, hl.closes_eq r hr, if_pos hrunning, if_neg (hset r).1, if_pos (by rw [hrid])]
      · -- Another run: the one closed was running, and is the only one of its id.
        have hne : some importId ≠ some r'.id := by
          intro he
          have hsame : r' = row :=
            Table.eq_of_id_eq hr hrow ((Option.some.inj he).symm.trans hrowid.symm)
          rw [hsame, isRunningOf_iff.mpr ⟨hrowid, hrowacc, hrowrun⟩] at hrun
          cases hrun
        rw [hanswers, hl.closes_eq r' hr, if_neg hne, Nat.add_zero]
    · intro i hi
      rw [himports]
      by_cases hi' : importId = i
      · obtain ⟨r', hr', hid⟩ := exists_whileRunning (t := x.imports) hrow
        exact ⟨r', hr', hid.trans (hrowid.trans hi')⟩
      · rw [hanswers, if_neg fun h => hi' (Option.some.inj h), Nat.add_zero] at hi
        obtain ⟨r, hr, hrid⟩ := hl.known i hi
        obtain ⟨r', hr', hid⟩ := exists_whileRunning (t := x.imports) hr
        exact ⟨r', hr', hid.trans hrid⟩

/-- A finished run is never written again. -/
theorem finished_writes (h : RunWrites x x' opened closed) {r : ImportRow} (hr : r ∈ x.imports.rows)
    (hdone : r.status ≠ .running) : r ∈ x'.imports.rows ∧ x'.issuesOf r.id = x.issuesOf r.id := by
  cases h with
  | nothing himports hissues =>
    refine ⟨by rw [himports]; exact hr, ?_⟩
    unfold World.issuesOf
    rw [hissues]
  | opens row himports hid hrun hstage haccount hissues =>
    refine ⟨by rw [himports]; exact List.mem_append_left _ hr, ?_⟩
    unfold World.issuesOf
    rw [hissues]
  | changes hset hsame himports hissues =>
    refine ⟨?_, ?_⟩
    · rw [himports]
      exact List.mem_map.mpr ⟨r, hr, whileRunning_of_not fun h => hdone h.2⟩
    · unfold World.issuesOf
      rw [hissues]
  | closes hrun hset hsame himports hissues =>
    rename_i accountId importId set
    refine ⟨?_, ?_⟩
    · rw [himports]
      exact List.mem_map.mpr ⟨r, hr, whileRunning_of_not fun h => hdone h.2⟩
    · -- The issues added are of the run that was running.
      obtain ⟨row, hrow, hrowid, -, hrowrun⟩ := hrun
      obtain ⟨added, hrows, hadded⟩ := hissues
      have hne : r.id ≠ importId := by
        intro hid
        rw [Table.eq_of_id_eq hr hrow (hid.trans hrowid.symm)] at hdone
        exact hdone hrowrun
      unfold World.issuesOf
      rw [hrows, List.filter_append]
      have hnone : added.filter (fun issue => decide (issue.importId = r.id)) = [] := by
        refine List.filter_eq_nil_iff.mpr fun issue hissue => ?_
        rw [hadded issue hissue]
        simpa using fun he => hne he.symm
      rw [hnone, List.append_nil]

end

/-! Steps. -/

section
variable {sha256Hex : ByteArray → String} {rfc3339Secs : String → Option Int} {locked : List Int}
  {x x' : World} {p : Pending} {out : Pending ⊕ Answer} {st st' : Server}

theorem closes_cons (answer : Answer) (answers : List Answer) (i : Int) :
    closes (answer :: answers) i =
      closes answers i + if closedBy (.inr answer) = some i then 1 else 0 := by
  unfold closes
  rw [List.count_cons]
  cases answer <;> simp [closedBy]

/-- What a step writes, and what it answers about it. -/
theorem Step.writes (h : Step sha256Hex rfc3339Secs st st') :
    ∃ opened closed, RunWrites st.world st'.world opened closed ∧
      ∀ i, closes st'.answers i = closes st.answers i + if closed = some i then 1 else 0 := by
  cases h with
  | arrives p hp => exact ⟨none, none, .nothing rfl rfl, fun i => by simp⟩
  | next h => exact ⟨_, none, h.writes, fun i => by simp⟩
  | done h => exact ⟨_, _, h.writes, closes_cons _ _⟩

theorem lifecycle_step (h : Step sha256Hex rfc3339Secs st st')
    (hl : Lifecycle st.world st.answers) : Lifecycle st'.world st'.answers := by
  obtain ⟨opened, closed, hw, hanswers⟩ := h.writes
  exact lifecycle_writes hw hl hanswers

theorem lifecycle_steps (h : Steps sha256Hex rfc3339Secs st st')
    (hl : Lifecycle st.world st.answers) : Lifecycle st'.world st'.answers := by
  induction h with
  | refl => exact hl
  | tail _ hstep ih => exact lifecycle_step hstep ih

/-- A finished run and its issues stay as they are. -/
theorem finished_steps (h : Steps sha256Hex rfc3339Secs st st') {r : ImportRow}
    (hr : r ∈ st.world.imports.rows) (hdone : r.status ≠ .running) :
    r ∈ st'.world.imports.rows ∧ st'.world.issuesOf r.id = st.world.issuesOf r.id := by
  induction h with
  | refl => exact ⟨hr, rfl⟩
  | tail _ hstep ih =>
    obtain ⟨hmem, hissues⟩ := ih
    obtain ⟨opened, closed, hw, -⟩ := hstep.writes
    obtain ⟨hmem', hissues'⟩ := finished_writes hw hmem hdone
    exact ⟨hmem', hissues'.trans hissues⟩

/-! Messages. -/

theorem sameBut_dedupeChange (a : Account) (m : MessageRow) :
    ((dedupeChange a).apply m).SameBut m := by
  unfold dedupeChange MessageRow.SameBut
  simp only
  split <;> rfl

/-- A message an act leaves was there before, or carries the id of a running run. -/
theorem Acts.stamped (h : Acts sha256Hex rfc3339Secs locked x p x' out) {m : MessageRow}
    (hm : m ∈ x'.db.messages.rows) {i : Int} (hi : m.importId = some i) :
    (∃ m₀ ∈ x.db.messages.rows, m.SameBut m₀) ∨
      ∃ r ∈ x'.imports.rows, r.id = i ∧ r.status = .running := by
  cases h with
  | batchCommit hrun h =>
    rename_i context mode row handles w batch db stats
    rcases promoteAppend_origin h hm with ⟨m₀, hm₀, hsame, -⟩ | ⟨sm, hsm, -, -, -, himport⟩
    · exact Or.inl ⟨m₀, hm₀, hsame⟩
    · right
      obtain ⟨-, -, hstamp, -⟩ := batch.own sm hsm
      obtain ⟨hmem, hid, -, hstatus⟩ := requireRunningImport_ok hrun
      rw [himport, hstamp] at hi
      exact ⟨row, hmem, hid.trans (Option.some.inj hi), hstatus⟩
  | batchDedupe h =>
    obtain ⟨m₀, hm₀, rfl⟩ := List.mem_map.mp hm
    exact Or.inl ⟨m₀, hm₀, sameBut_dedupeChange _ m₀⟩
  | _ => exact Or.inl ⟨m, hm, MessageRow.SameBut.refl m⟩

theorem stamped_step (h : Step sha256Hex rfc3339Secs st st') {m : MessageRow}
    (hm : m ∈ st'.world.db.messages.rows) {i : Int} (hi : m.importId = some i) :
    (∃ m₀ ∈ st.world.db.messages.rows, m.SameBut m₀) ∨
      ∃ r ∈ st'.world.imports.rows, r.id = i ∧ r.status = .running := by
  cases h with
  | arrives p hp => exact Or.inl ⟨m, hm, MessageRow.SameBut.refl m⟩
  | next h => exact h.stamped hm hi
  | done h => exact h.stamped hm hi

end

/-! The lifecycle. -/

/-- The server with no runs yet, over any messages. -/
def Server.initial (db : Db) : Server := ⟨⟨Table.empty, Table.empty, db, []⟩, [], []⟩

/-- How Import Runs stand at one moment, and what may still happen to them. -/
structure RunsInOrder (sha256Hex : ByteArray → String) (rfc3339Secs : String → Option Int)
    (st : Server) : Prop where
  one_running : ∀ r ∈ st.world.imports.rows, ∀ r' ∈ st.world.imports.rows,
    r.accountId = r'.accountId → r.status = .running → r'.status = .running → r = r'
  stage_iff : ∀ r ∈ st.world.imports.rows, r.stage ≠ none ↔ r.status = .running
  finished : ∀ r ∈ st.world.imports.rows, r.status ≠ .running →
    ∀ st', Steps sha256Hex rfc3339Secs st st' →
      r ∈ st'.world.imports.rows ∧ st'.world.issuesOf r.id = st.world.issuesOf r.id
  /-- Of all the discards and completions so far, one closed each finished run. -/
  closed_once : ∀ r ∈ st.world.imports.rows,
    closes st.answers r.id = if r.status = .running then 0 else 1
  /-- The next discard or completion of a run goes through exactly when it is running. -/
  discard_iff : ∀ r ∈ st.world.imports.rows, ∀ now,
    (discardImport now r.accountId r.id st.world.imports).isSome = true ↔ r.status = .running
  complete_iff : ∀ r ∈ st.world.imports.rows, ∀ now args,
    (∀ issue ∈ args.issues, issue.kind = "error" ∨ issue.kind = "skip") →
      ((∃ t, completeImport now r.accountId r.id args st.world.db st.world.imports
        st.world.issues = .ok t) ↔ r.status = .running)
  /-- A message the next step commits under a run is committed while the run is running. -/
  stamped : ∀ st', Step sha256Hex rfc3339Secs st st' → ∀ m ∈ st'.world.db.messages.rows, ∀ i,
    m.importId = some i → (∃ m₀ ∈ st.world.db.messages.rows, m.SameBut m₀) ∨
      ∃ r ∈ st'.world.imports.rows, r.id = i ∧ r.status = .running

/-- **The lifecycle of an Import Run.** Whatever requests take turns, in every state they
reach the runs are in order. -/
theorem import_run_lifecycle (sha256Hex : ByteArray → String) (rfc3339Secs : String → Option Int)
    (db : Db) (st : Server) (h : Steps sha256Hex rfc3339Secs (Server.initial db) st) :
    RunsInOrder sha256Hex rfc3339Secs st := by
  have hinit : Lifecycle (Server.initial db).world (Server.initial db).answers := {
    stage_iff := fun _ hr => nomatch hr
    closes_eq := fun _ hr => nomatch hr
    known := fun _ hi => absurd rfl hi }
  have hl := lifecycle_steps h hinit
  refine ⟨?_, hl.stage_iff, ?_, hl.closes_eq, ?_, ?_, ?_⟩
  · intro r hr r' hr' hacc hrun hrun'
    refine eq_of_key_eq (k := r.accountId) hr hr' (if_pos hrun) ?_
    rw [hacc]
    exact if_pos hrun'
  · intro r hr hdone st' hsteps
    exact finished_steps hsteps hr hdone
  · intro r hr now
    exact updateRunning_isSome hr
  · intro r hr now args hkinds
    exact completeImport_isOk_iff hr hkinds
  · intro st' hstep m hm i hi
    exact stamped_step hstep hm hi

/-- A batch of one message, of the run `1`. -/
def firstBatch : StagedBatch ⟨1, 1, "imessage", .append, false⟩ where
  staging := {
    conversations := ⟨[⟨1, 1, 7, "individual", none, none, "alex.vcrate"⟩], by decide, by decide⟩
    participants := Table.empty
    messages := ⟨[{
      id := 1
      conversationId := 1
      accountId := 1
      source := "imessage"
      guid := "g-7"
      guid_ne := by decide
      timestamp := "2024-01-01T00:00:00Z"
      isFromMe := 0
      senderHandleId := some 7
      ownerHandleId := none
      service := none
      subject := none
      body := none
      isAnnouncement := 0
      isReply := 0
      threadOriginatorGuid := none
      threadOriginatorPart := none
      numReplies := 0
      sortOrder := 0
      importId := some 1 }], by decide, by decide⟩
    attachments := Table.empty
    tapbacks := Table.empty }
  own := by decide

def firstArgs : StartImportArgs :=
  ⟨1, "imessage", "append", false, none, .parse, none, none, none, none, none⟩

def firstCredential : RunCredentialColumns := ⟨"session", none, none, none, none⟩

def firstOutcome : CompleteImportArgs :=
  ⟨.completed, some 1, some 0, some 0, none, none, none, none, none, none, []⟩

/-- The runs once the run `1` is open, and once it is completed. -/
def openedRuns : Table ImportRow := ⟨[(firstArgs.new "2024-01-01").row 1], by decide, by decide⟩

def firstRuns : Table ImportRow := openedRuns.update (recordCredential 1 firstCredential)

def completedRuns : Table ImportRow :=
  firstRuns.update (whileRunning 1 1 (firstOutcome.outcome "2024-01-02" 1 0 0))

/-- A run started, a batch of it committed, and the run completed after a discard of what is
running has looked and before it writes. -/
theorem import_run_lifecycle_started :
    ∃ st : Server,
      (∃ r ∈ st.world.imports.rows, r.id = 1 ∧ r.status = .completed) ∧
      (∃ m ∈ st.world.db.messages.rows, m.importId = some 1) ∧
      (∃ error, st.answers = [.refused error, .closed 1, .stored 1, .started 1]) ∧
      RunsInOrder (fun _ => "key") (fun _ => some 0) st := by
  obtain ⟨⟨db, stats⟩, hpromote, hrows⟩ := Option.map_eq_some_iff.mp
    (show (promoteAppend (fun _ => "key") (fun _ => some 0)
        ⟨fun _ => "+15550001", fun _ _ => false⟩ Walk.inserted .append 1 false []
        firstBatch.staging Db.empty).map (fun r => r.1.messages.rows.map
          (fun m => (m.id, m.importId))) = some [(1, some 1)] by decide +kernel)
  have hstart : startImport "2024-01-01" firstArgs Table.empty = some (openedRuns, 1) := rfl
  have hopen : Step (fun _ => "key") (fun _ => some 0)
      ⟨(Server.initial Db.empty).world, [] ++ .start firstArgs firstCredential :: [], []⟩
      ⟨⟨firstRuns, Table.empty, Db.empty, []⟩, [] ++ [], [.started 1]⟩ := .done (.start hstart)
  have hbatch : Step (fun _ => "key") (fun _ => some 0)
      ⟨⟨firstRuns, Table.empty, Db.empty, []⟩, [] ++ .batch 1 1 :: [], [.started 1]⟩ _ :=
    .next (.batch rfl)
  have hlock : Step (fun _ => "key") (fun _ => some 0)
      ⟨⟨firstRuns, Table.empty, Db.empty, []⟩,
        [] ++ .batchWaiting ⟨1, 1, "imessage", .append, false⟩ :: [], [.started 1]⟩ _ :=
    .next (.batchLock (by simp))
  have hcommit : Step (fun _ => "key") (fun _ => some 0)
      ⟨⟨firstRuns, Table.empty, Db.empty, []⟩,
        [] ++ .batchLocked ⟨1, 1, "imessage", .append, false⟩ .append :: [], [.started 1]⟩
      ⟨⟨firstRuns, Table.empty, db, [⟨1, firstBatch.guids⟩]⟩, [] ++ [],
        [.stored 1, .started 1]⟩ := .done (.batchCommit rfl hpromote)
  have hlook : Step (fun _ => "key") (fun _ => some 0)
      ⟨⟨firstRuns, Table.empty, db, [⟨1, firstBatch.guids⟩]⟩, [] ++ .discardRunning 1 :: [],
        [.stored 1, .started 1]⟩ _ := .next (.discardRunning rfl)
  have hcomplete : completeImport "2024-01-02" 1 1 firstOutcome db firstRuns Table.empty =
      .ok (completedRuns, Table.empty) := rfl
  have hclose : Step (fun _ => "key") (fun _ => some 0)
      ⟨⟨firstRuns, Table.empty, db, [⟨1, firstBatch.guids⟩]⟩,
        [] ++ .complete 1 1 firstOutcome :: [.discard 1 1], [.stored 1, .started 1]⟩ _ :=
    .done (.complete hcomplete)
  have hmissed : discardImport "2024-01-02" 1 1 completedRuns = none := rfl
  have hmiss : Step (fun _ => "key") (fun _ => some 0)
      ⟨⟨completedRuns, Table.empty, db, [⟨1, firstBatch.guids⟩]⟩, [] ++ .discard 1 1 :: [],
        [.closed 1, .stored 1, .started 1]⟩ _ := .next (.discardMissed hmissed)
  have hwhy : Step (fun _ => "key") (fun _ => some 0)
      ⟨⟨completedRuns, Table.empty, db, [⟨1, firstBatch.guids⟩]⟩, [] ++ .whyNotRunning 1 1 :: [],
        [.closed 1, .stored 1, .started 1]⟩ _ := .done .whyNotRunning
  have hstored := Steps.tail (.tail (.tail (.tail (.tail (.tail (.refl (Server.initial Db.empty))
    (.arrives (.start firstArgs firstCredential) trivial)) hopen) (.arrives (.batch 1 1) trivial))
    hbatch) hlock) hcommit
  have hraced := Steps.tail (.tail (.tail (.tail (.tail (.tail hstored
    (.arrives (.discardRunning 1) trivial)) hlook) (.arrives (.complete 1 1 firstOutcome) trivial))
    hclose) hmiss) hwhy
  refine ⟨_, ?_, ?_, ⟨_, rfl⟩,
    import_run_lifecycle (fun _ => "key") (fun _ => some 0) Db.empty _ hraced⟩
  · exact ⟨_, List.mem_singleton.mpr rfl, rfl, rfl⟩
  · have hmem : (1, some 1) ∈ db.messages.rows.map (fun m => (m.id, m.importId)) := by
      rw [hrows]
      exact List.mem_singleton.mpr rfl
    obtain ⟨m, hm, hid⟩ := List.mem_map.mp hmem
    exact ⟨m, hm, congrArg Prod.snd hid⟩

end MessageCrate

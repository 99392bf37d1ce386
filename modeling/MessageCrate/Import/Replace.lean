import MessageCrate.Import.Lifecycle

/- A replace run.

   A run in mode `replace` wipes its source on a batch that commits while no message carries
   the run's id. Whether one does is read before the import's transaction, under the lock of
   the account; `Serial` is what that lock gives any order of steps. `Replacing` is what
   holds of one run of an account, from its start to the account's next run.

   What is proved:
     1. `Acts.messages`: what an act may do to the messages: nothing, commit a batch
        (`BatchCommits`), or dedupe (`BatchDedupes`).
     2. `serial_step`: when a batch that is to wipe commits, no message carries its run's id.
     3. `replacing_step`: each step of a run keeps `Replacing`.
     4. `replace_run_replaces_once`: what a replace run leaves.
     5. `replace_run_touches_another_source`: a run that dedupes also writes the keys of
        messages of other sources. -/
namespace MessageCrate
open Grouping SqlTable Table

/-! What an act does to the messages. -/

/-- A batch committed under a context, in a mode. -/
structure BatchCommits (context : BatchContext) (mode : ImportMode) (guids : List String)
    (x x' : World) : Prop where
  running : ∃ r ∈ x.imports.rows, r.id = context.importId ∧ r.accountId = context.account ∧
    r.status = .running
  commits : x'.commits = ⟨context.importId, guids⟩ :: x.commits
  owned : x'.db.Owned
  /-- A message was there and not wiped, or is one of the batch's. -/
  origin : ∀ m ∈ x'.db.messages.rows,
    (∃ m₀ ∈ x.db.messages.rows, m.SameBut m₀ ∧
      (mode = .replace → m₀.accountId = context.account → m₀.source ≠ context.source)) ∨
    (m.accountId = context.account ∧ m.source = context.source ∧
      m.importId = some context.importId ∧ ∃ guid ∈ guids, m.guid = some guid)
  /-- A message that is not wiped stays. -/
  keeps : ∀ m ∈ x.db.messages.rows,
    (mode = .replace → m.accountId = context.account → m.source ≠ context.source) →
    ∃ m' ∈ x'.db.messages.rows, m'.SameBut m ∧
      (m'.duplicateOf = m.duplicateOf ∨ (m'.duplicateOf = none ∧ mode = .replace ∧
        ∃ k ∈ x.db.messages.rows, k.source = context.source ∧ k.accountId = context.account ∧
          m.duplicateOf = some k.id)) ∧
      ((m.accountId = context.account → context.dedupe = false) → m'.contentKey = m.contentKey)
  held : ∀ guid ∈ guids, ∃ m ∈ x'.db.messages.rows,
    m.guidKey = some (context.account, context.source, guid)

/-- A dedupe run over the account of a context. -/
structure BatchDedupes (context : BatchContext) (x x' : World) : Prop where
  commits : x'.commits = x.commits
  owned : x'.db.Owned
  origin : ∀ m ∈ x'.db.messages.rows, ∃ m₀ ∈ x.db.messages.rows, m.SameBut m₀
  /-- Another account's messages are left alone. -/
  keeps : ∀ m ∈ x.db.messages.rows, ∃ m' ∈ x'.db.messages.rows, m'.SameBut m ∧
    (m.accountId ≠ context.account → m' = m)

section
variable {sha256Hex : ByteArray → String} {rfc3339Secs : String → Option Int} {locked : List Int}
  {x x' : World} {p : Pending} {out : Pending ⊕ Answer}

theorem mem_sourcesToWipe {mode : ImportMode} {source source' : String} :
    source' ∈ sourcesToWipe mode source ↔ mode = .replace ∧ source' = source := by
  cases mode <;> simp [sourcesToWipe]

theorem batchCommits_of_promote {context : BatchContext} {mode : ImportMode} {row : ImportRow}
    {handles : Handles} {w : Walk} {batch : StagedBatch context} {stats : PromoteStats}
    (hrun : requireRunningImport context.account context.importId x.imports = .ok row)
    (h : promoteAppend sha256Hex rfc3339Secs handles w mode context.account context.dedupe
      (sourcesToWipe mode context.source) batch.staging x.db = some (x'.db, stats))
    (hcommits : x'.commits = ⟨context.importId, batch.guids⟩ :: x.commits) (ho : x.db.Owned) :
    BatchCommits context mode batch.guids x x' where
  running := ⟨row, requireRunningImport_ok hrun⟩
  commits := hcommits
  owned := promoteAppend_owned h ho
  origin := by
    intro m hm
    rcases promoteAppend_origin h hm with ⟨m₀, hm₀, hsame, hnot⟩ | ⟨sm, hsm, hacc, hsrc, hguid, hrunid⟩
    · refine Or.inl ⟨m₀, hm₀, hsame, fun hmode hacc hsrc => ?_⟩
      have hof := (ho.isOfSource_iff hm₀).mpr ⟨hsrc, hacc⟩
      rw [hnot hmode _ (mem_sourcesToWipe.mpr ⟨hmode, rfl⟩)] at hof
      cases hof
    · obtain ⟨hacc', hsrc', hrunid', -⟩ := batch.own sm hsm
      exact Or.inr ⟨hacc.trans hacc', hsrc.trans hsrc', hrunid.trans hrunid', sm.guid,
        List.mem_map.mpr ⟨sm, hsm, rfl⟩, hguid⟩
  keeps := by
    intro m hm hnot
    obtain ⟨m', hm', hsame, hdup, hkey⟩ := promoteAppend_keeps h ho hm fun hmode hacc hsrc =>
      hnot hmode hacc (mem_sourcesToWipe.mp hsrc).2
    refine ⟨m', hm', hsame, hdup.imp_right ?_, hkey⟩
    rintro ⟨hnone, hmode, k, hk, hsrc, hacc, hpoints⟩
    exact ⟨hnone, hmode, k, hk, (mem_sourcesToWipe.mp hsrc).2, hacc, hpoints⟩
  held := by
    intro guid hguid
    obtain ⟨sm, hsm, rfl⟩ := List.mem_map.mp hguid
    obtain ⟨hacc, hsrc, -, hconv⟩ := batch.own sm hsm
    obtain ⟨m, hm, hkey⟩ := promoteAppend_holds h hsm hacc hconv
    exact ⟨m, hm, by rw [hkey, hacc, hsrc]⟩

theorem batchDedupes_of_dedupe {context : BatchContext} {handles : Handles} {w : Walk}
    {stats : DedupeStats} {a : Account}
    (h : dedupeCrossSource sha256Hex rfc3339Secs w none 2 (x.db.account handles context.account) =
      some (stats, a))
    (hdb : x'.db = x.db.setMessages (x.db.messages.update (dedupeChange a)))
    (hcommits : x'.commits = x.commits) (ho : x.db.Owned) : BatchDedupes context x x' := by
  have hrows : x'.db.messages.rows = x.db.messages.rows.map (dedupeChange a).apply := by
    rw [hdb]
    rfl
  have horigin : ∀ m ∈ x'.db.messages.rows, ∃ m₀ ∈ x.db.messages.rows, m.SameBut m₀ := by
    intro m hm
    rw [hrows] at hm
    obtain ⟨m₀, hm₀, rfl⟩ := List.mem_map.mp hm
    exact ⟨m₀, hm₀, sameBut_dedupeChange a m₀⟩
  refine ⟨hcommits, ho.of_origin (by rw [hdb]; rfl) horigin, horigin, fun m hm => ?_⟩
  refine ⟨_, by rw [hrows]; exact List.mem_map.mpr ⟨m, hm, rfl⟩, sameBut_dedupeChange a m, ?_⟩
  intro hacc
  -- The run's messages are the account's.
  have hnone : a.messages.find? (fun y => y.id == m.id) = none := by
    refine List.find?_eq_none.mpr fun y hy hid => hacc ?_
    have hmem : y.id ∈ (x.db.account handles context.account).messages.map Message.id := by
      rw [← dedupeCrossSource_ids h]
      exact List.mem_map.mpr ⟨y, hy, rfl⟩
    obtain ⟨y₀, hy₀, hid₀⟩ := List.mem_map.mp hmem
    obtain ⟨r, hr, rfl⟩ := List.mem_map.mp hy₀
    obtain ⟨hr, hracc⟩ := List.mem_filter.mp hr
    have hrm : r = m := Table.eq_of_id_eq hr hm (Eq.trans hid₀ (beq_iff_eq.mp hid))
    rw [hrm, ho.accountOf hm, decide_eq_true_eq] at hracc
    exact Option.some.inj hracc
  show (dedupeChange a).apply m = m
  unfold dedupeChange
  simp only [hnone]

/-- **What an act does to the messages**, and to the batches committed. -/
theorem Acts.messages (h : Acts sha256Hex rfc3339Secs locked x p x' out) (ho : x.db.Owned) :
    (x'.db = x.db ∧ x'.commits = x.commits) ∨
      (∃ context mode guids, p = .batchLocked context mode ∧
        BatchCommits context mode guids x x') ∨
      ∃ context, p = .batchDedupe context ∧ BatchDedupes context x x' := by
  cases h with
  | batchCommit hrun h =>
    exact Or.inr (Or.inl ⟨_, _, _, rfl, batchCommits_of_promote hrun h rfl ho⟩)
  | batchDedupe h => exact Or.inr (Or.inr ⟨_, rfl, batchDedupes_of_dedupe h rfl rfl ho⟩)
  | _ => exact Or.inl ⟨rfl, rfl⟩

end

/-! Rows of the runs. -/

section
variable {x x' : World} {opened closed : Option Int}

/-- A run is never deleted, and what it imports under never changes. -/
theorem RunWrites.exists_row (h : RunWrites x x' opened closed) {r : ImportRow}
    (hr : r ∈ x.imports.rows) :
    ∃ r' ∈ x'.imports.rows, BatchContext.fromRow r' = BatchContext.fromRow r := by
  have hset {accountId importId : Int} {set : Change ImportRow}
      (hsame : ∀ r, BatchContext.fromRow (set.apply r) = BatchContext.fromRow r)
      (himports : x'.imports = x.imports.update (whileRunning accountId importId set)) :
      ∃ r' ∈ x'.imports.rows, BatchContext.fromRow r' = BatchContext.fromRow r := by
    refine ⟨(whileRunning accountId importId set).apply r, ?_, ?_⟩
    · rw [himports]
      exact List.mem_map.mpr ⟨r, hr, rfl⟩
    · unfold whileRunning
      simp only
      split
      · exact hsame r
      · rfl
  cases h with
  | nothing himports hissues => exact ⟨r, by rw [himports]; exact hr, rfl⟩
  | opens row himports hid hrun hstage haccount hissues =>
    exact ⟨r, by rw [himports]; exact List.mem_append_left _ hr, rfl⟩
  | changes hkeep hsame himports hissues => exact hset hsame himports
  | closes hrun hdone hsame himports hissues => exact hset hsame himports

/-- A run of the written table was there, and was running if it is; or it is a new one. -/
theorem RunWrites.row_origin (h : RunWrites x x' opened closed) {r' : ImportRow}
    (hr' : r' ∈ x'.imports.rows) :
    (∃ r ∈ x.imports.rows, BatchContext.fromRow r' = BatchContext.fromRow r ∧
      (r'.status = .running → r.status = .running)) ∨ r'.id = x.imports.nextId := by
  cases h with
  | nothing himports hissues =>
    rw [himports] at hr'
    exact Or.inl ⟨r', hr', rfl, id⟩
  | opens row himports hid hrun hstage haccount hissues =>
    rw [himports] at hr'
    rcases List.mem_append.mp hr' with hr' | hr'
    · exact Or.inl ⟨r', hr', rfl, id⟩
    · rw [List.mem_singleton.mp hr']
      exact Or.inr hid
  | changes hkeep hsame himports hissues =>
    rw [himports] at hr'
    obtain ⟨r, hr, -, ⟨hrun, rfl⟩ | ⟨-, rfl⟩⟩ := mem_whileRunning hr'
    · exact Or.inl ⟨r, hr, hsame r, fun _ => (isRunningOf_iff.mp hrun).2.2⟩
    · exact Or.inl ⟨r', hr, rfl, id⟩
  | closes hrun hdone hsame himports hissues =>
    rw [himports] at hr'
    obtain ⟨r, hr, -, ⟨-, rfl⟩ | ⟨-, rfl⟩⟩ := mem_whileRunning hr'
    · exact Or.inl ⟨r, hr, hsame r, fun hrunning => absurd hrunning (hdone r).1⟩
    · exact Or.inl ⟨r', hr, rfl, id⟩

end

/-! The lock. -/

/-- What a request imports under, once it knows. -/
def Pending.context : Pending → Option BatchContext
  | .batchWaiting context => some context
  | .batchLocked context _ => some context
  | .batchDedupe context => some context
  | _ => none

/-- What the account lock gives: no two requests hold one account's, a batch imports under
a run of the table, and while a batch that is to wipe holds the lock no message carries its
run's id. -/
structure Serial (st : Server) : Prop where
  owned : st.world.db.Owned
  known : ∀ p ∈ st.pending, ∀ context, p.context = some context →
    ∃ r ∈ st.world.imports.rows, BatchContext.fromRow r = context
  nodup : (st.pending.filterMap Pending.lockedAccount).Nodup
  fresh : ∀ context, Pending.batchLocked context .replace ∈ st.pending →
    hasMessages context.importId st.world.db = false

section
variable {sha256Hex : ByteArray → String} {rfc3339Secs : String → Option Int} {locked : List Int}
  {x x' : World} {p q : Pending} {out : Pending ⊕ Answer} {before after : List Pending}
  {answers : List Answer} {st st' : Server}

theorem hasMessages_false {importId : Int} {db : Db} : hasMessages importId db = false ↔
    ∀ m ∈ db.messages.rows, m.importId ≠ some importId := by
  unfold hasMessages
  simp

/-- Where a request's context comes from. -/
theorem Acts.next_context (h : Acts sha256Hex rfc3339Secs locked x p x' (.inl q)) {c : BatchContext}
    (hc : q.context = some c) :
    p.context = some c ∨ ∃ r ∈ x.imports.rows, BatchContext.fromRow r = c := by
  generalize hout : (Sum.inl q : Pending ⊕ Answer) = out at h
  cases h with
  | setStageMissed h => cases hout; cases hc
  | discardMissed h => cases hout; cases hc
  | discardRunning h => cases hout; cases hc
  | batch h =>
    cases hout
    exact Or.inr ⟨_, (requireRunningImport_ok h).1, Option.some.inj hc⟩
  | batchLock h => cases hout; exact Or.inl hc
  | batchCommit hrun h =>
    split at hout
    · cases hout; exact Or.inl hc
    · cases hout
  | _ => cases hout

/-- A request takes a lock only when no other request holds it. -/
theorem Acts.next_locked (h : Acts sha256Hex rfc3339Secs locked x p x' (.inl q)) {a : Int}
    (ha : q.lockedAccount = some a) : p.lockedAccount = some a ∨ a ∉ locked := by
  generalize hout : (Sum.inl q : Pending ⊕ Answer) = out at h
  cases h with
  | setStageMissed h => cases hout; cases ha
  | discardMissed h => cases hout; cases ha
  | discardRunning h => cases hout; cases ha
  | batch h => cases hout; cases ha
  | batchLock h =>
    cases hout
    right
    rw [← Option.some.inj ha]
    exact h
  | batchCommit hrun h =>
    split at hout
    · cases hout; exact Or.inl ha
    · cases hout
  | _ => cases hout

/-- A batch that is to wipe was let in while no message carried its run's id. -/
theorem Acts.next_fresh (h : Acts sha256Hex rfc3339Secs locked x p x' (.inl q))
    {context : BatchContext} (hq : q = .batchLocked context .replace) :
    hasMessages context.importId x'.db = false := by
  subst hq
  generalize hout : (Sum.inl (Pending.batchLocked context .replace) : Pending ⊕ Answer) = out at h
  cases h with
  | batchLock h =>
    obtain ⟨rfl, hmode⟩ := Pending.batchLocked.inj (Sum.inl.inj hout)
    unfold BatchContext.batchMode at hmode
    split at hmode
    · next hfirst => exact hfirst.2
    · cases hmode
  | batchCommit hrun h =>
    split at hout <;> cases hout
  | _ => cases hout

/-- No batch commits while another of its account holds the lock, so the one that holds it
finds what it read. -/
theorem Acts.keeps_fresh (h : Acts sha256Hex rfc3339Secs locked x p x' out)
    (hs : Serial ⟨x, before ++ p :: after, answers⟩) {context : BatchContext}
    (hc : Pending.batchLocked context .replace ∈ before ++ after) :
    hasMessages context.importId x'.db = false := by
  have hmem : Pending.batchLocked context .replace ∈ before ++ p :: after :=
    List.perm_middle.mem_iff.mpr (List.mem_cons_of_mem _ hc)
  have hnone := hasMessages_false.mp (hs.fresh context hmem)
  refine hasMessages_false.mpr fun m hm hrun => ?_
  rcases h.messages hs.owned with ⟨hdb, -⟩ | ⟨c, mode, guids, rfl, hcommit⟩ | ⟨c, rfl, hdedupe⟩
  · rw [hdb] at hm
    exact hnone m hm hrun
  · rcases hcommit.origin m hm with ⟨m₀, hm₀, hsame, -⟩ | ⟨-, -, hstamp, -⟩
    · exact hnone m₀ hm₀ (hsame.importId_eq.symm.trans hrun)
    · -- The two contexts are of one run, so of one account, whose lock both hold.
      rw [hstamp] at hrun
      obtain ⟨r, hr, hrid, hracc, -⟩ := hcommit.running
      obtain ⟨r', hr', rfl⟩ := hs.known _ hmem context rfl
      have hrr : r = r' := Table.eq_of_id_eq hr hr' (hrid.trans (Option.some.inj hrun))
      have hnd := (List.perm_middle.filterMap Pending.lockedAccount).nodup_iff.mp hs.nodup
      refine (List.nodup_cons.mp hnd).1 (List.mem_filterMap.mpr ⟨_, hc, ?_⟩)
      show some r'.accountId = some c.account
      rw [← hracc, hrr]
  · obtain ⟨m₀, hm₀, hsame⟩ := hdedupe.origin m hm
    exact hnone m₀ hm₀ (hsame.importId_eq.symm.trans hrun)

theorem Acts.owned (h : Acts sha256Hex rfc3339Secs locked x p x' out) (ho : x.db.Owned) :
    x'.db.Owned := by
  rcases h.messages ho with ⟨hdb, -⟩ | ⟨_, _, _, -, hcommit⟩ | ⟨_, -, hdedupe⟩
  · rw [hdb]
    exact ho
  · exact hcommit.owned
  · exact hdedupe.owned

/-- The lock's invariant, of what a step leaves under way. -/
theorem Acts.serial (h : Acts sha256Hex rfc3339Secs locked x p x' out)
    (hs : Serial ⟨x, before ++ p :: after, answers⟩) (answers' : List Answer) :
    Serial ⟨x', before ++ after, answers'⟩ where
  owned := h.owned hs.owned
  known := by
    intro p' hp' context hcontext
    obtain ⟨r, hr, rfl⟩ := hs.known p'
      (List.perm_middle.mem_iff.mpr (List.mem_cons_of_mem _ hp')) context hcontext
    obtain ⟨r', hr', hsame⟩ := h.writes.exists_row hr
    exact ⟨r', hr', hsame⟩
  nodup := by
    have hnd := (List.perm_middle.filterMap Pending.lockedAccount).nodup_iff.mp hs.nodup
    exact hnd.sublist ((List.sublist_cons_self _ _).filterMap _)
  fresh := fun context hc => h.keeps_fresh hs hc

theorem serial_step (h : Step sha256Hex rfc3339Secs st st') (hs : Serial st) : Serial st' := by
  cases h with
  | arrives p hp =>
    -- A request that arrives knows no context and holds no lock.
    have hcontext : p.context = none ∧ p.lockedAccount = none := by
      cases p <;> first | exact ⟨rfl, rfl⟩ | exact hp.elim
    refine ⟨hs.owned, ?_, ?_, ?_⟩
    · intro p' hp' context hc
      rcases List.mem_cons.mp hp' with rfl | hp'
      · rw [hcontext.1] at hc
        cases hc
      · exact hs.known p' hp' context hc
    · rw [List.filterMap_cons_none hcontext.2]
      exact hs.nodup
    · intro context hc
      rcases List.mem_cons.mp hc with rfl | hc
      · cases hcontext.1
      · exact hs.fresh context hc
  | next h =>
    rename_i x x' before after p q answers
    have hrest := h.serial hs answers
    have hperm : (before ++ q :: after).Perm (q :: (before ++ after)) := List.perm_middle
    refine ⟨hrest.owned, ?_, ?_, ?_⟩
    · intro p' hp' context hc
      rcases List.mem_cons.mp (hperm.mem_iff.mp hp') with rfl | hp'
      · rcases h.next_context hc with hc | ⟨r, hr, rfl⟩
        · obtain ⟨r, hr, rfl⟩ := hs.known p (List.perm_middle.mem_iff.mpr List.mem_cons_self)
            context hc
          exact h.writes.exists_row hr
        · exact h.writes.exists_row hr
      · exact hrest.known p' hp' context hc
    · rw [(hperm.filterMap Pending.lockedAccount).nodup_iff]
      cases hq : q.lockedAccount with
      | none =>
        rw [List.filterMap_cons_none hq]
        exact hrest.nodup
      | some a =>
        rw [List.filterMap_cons_some hq]
        refine List.nodup_cons.mpr ⟨?_, hrest.nodup⟩
        rcases h.next_locked hq with hp | hfree
        · have hnd := (List.perm_middle.filterMap Pending.lockedAccount).nodup_iff.mp hs.nodup
          rw [List.filterMap_cons_some hp] at hnd
          exact (List.nodup_cons.mp hnd).1
        · exact hfree
    · intro context hc
      rcases List.mem_cons.mp (hperm.mem_iff.mp hc) with hq | hc
      · exact h.next_fresh hq.symm
      · exact hrest.fresh context hc
  | done h => exact h.serial hs _

end

/-! One run. -/

/-- Whether a batch of the run has committed. -/
def World.Committed (x : World) (importId : Int) : Prop := ∃ c ∈ x.commits, c.importId = importId

/-- The guids of the run's committed batches. -/
def World.guidsOf (x : World) (importId : Int) : List String :=
  (x.commits.filter (fun c => c.importId = importId)).flatMap Commit.guids

/-- Whether the message is the account's, of the run's source. -/
def BatchContext.Of (run : BatchContext) (m : MessageRow) : Prop :=
  m.accountId = run.account ∧ m.source = run.source

/-- No dedupe of the account is under way. -/
def Quiet (account : Int) (pending : List Pending) : Prop :=
  ∀ context, Pending.batchDedupe context ∈ pending → context.account ≠ account

/-- What holds of the account's messages while it runs, when they were those of `db₀` at its
start. -/
structure Replaced (run : BatchContext) (db₀ : Db) (x : World) : Prop where
  stamped : ∀ m ∈ x.db.messages.rows, m.importId = some run.importId →
    run.Of m ∧ ∃ guid ∈ x.guidsOf run.importId, m.guid = some guid
  replaced : x.Committed run.importId → ∀ m ∈ x.db.messages.rows, run.Of m →
    m.importId = some run.importId
  held : ∀ guid ∈ x.guidsOf run.importId, ∃ m ∈ x.db.messages.rows,
    m.guidKey = some (run.account, run.source, guid)
  kept : ∀ m₀ ∈ db₀.messages.rows, m₀.accountId = run.account →
    (m₀.source = run.source → ¬ x.Committed run.importId) →
    ∃ m ∈ x.db.messages.rows, m.SameBut m₀
  old : ∀ m ∈ x.db.messages.rows, m.accountId = run.account →
    (m.source = run.source → ¬ x.Committed run.importId) →
    ∃ m₀ ∈ db₀.messages.rows, m.SameBut m₀

/-- What holds of one replace run of an account from its start, when the requests under way
were `pending₀`, to the account's next run. -/
structure Replacing (run : BatchContext) (db₀ : Db) (pending₀ : List Pending) (st : Server) :
    Prop where
  serial : Serial st
  replace : run.mode = .replace
  row : ∃ r ∈ st.world.imports.rows, BatchContext.fromRow r = run
  only : ∀ r ∈ st.world.imports.rows, r.accountId = run.account → r.status = .running →
    r.id = run.importId
  appends : Pending.batchLocked run .append ∈ st.pending → st.world.Committed run.importId
  quiet : run.dedupe = false → Quiet run.account pending₀ → Quiet run.account st.pending
  messages : Replaced run db₀ st.world

section
variable {sha256Hex : ByteArray → String} {rfc3339Secs : String → Option Int} {locked : List Int}
  {x x' : World} {p q : Pending} {out : Pending ⊕ Answer} {before after : List Pending}
  {answers : List Answer} {st st' : Server} {run : BatchContext} {db₀ : Db}
  {pending₀ : List Pending}

theorem committed_cons {commit : Commit} {importId : Int}
    (h : x'.commits = commit :: x.commits) :
    x'.Committed importId ↔ commit.importId = importId ∨ x.Committed importId := by
  unfold World.Committed
  rw [h]
  simp

theorem guidsOf_cons {commit : Commit} {importId : Int} (h : x'.commits = commit :: x.commits)
    {guid : String} : guid ∈ x'.guidsOf importId ↔
      (commit.importId = importId ∧ guid ∈ commit.guids) ∨ guid ∈ x.guidsOf importId := by
  unfold World.guidsOf
  rw [h, List.filter_cons]
  by_cases hid : commit.importId = importId <;> simp [hid]

theorem committed_of_guid {importId : Int} {guid : String} (h : guid ∈ x.guidsOf importId) :
    x.Committed importId := by
  obtain ⟨c, hc, -⟩ := List.mem_flatMap.mp h
  obtain ⟨hc, hid⟩ := List.mem_filter.mp hc
  exact ⟨c, hc, by simpa using hid⟩

theorem guidKey_sameBut {m m₀ : MessageRow} (h : m.SameBut m₀) : m.guidKey = m₀.guidKey := by
  unfold MessageRow.guidKey
  rw [h.guid_eq, h.accountId_eq, h.source_eq]

theorem guidKey_eq_some {m : MessageRow} {account : Int} {source guid : String} :
    m.guidKey = some (account, source, guid) ↔
      m.accountId = account ∧ m.source = source ∧ m.guid = some guid ∧ guid ≠ "" := by
  unfold MessageRow.guidKey
  cases hg : m.guid with
  | none => simp
  | some g =>
    by_cases hne : g = ""
    · simp only [hne, ne_eq, not_true_eq_false, if_false, Option.some.injEq]
      constructor
      · intro h
        cases h
      · rintro ⟨-, -, rfl, h⟩
        exact absurd rfl h
    · simp only [ne_eq, hne, not_false_eq_true, if_true, Option.some.injEq, Prod.mk.injEq]
      constructor
      · rintro ⟨rfl, rfl, rfl⟩
        exact ⟨rfl, rfl, rfl, hne⟩
      · rintro ⟨rfl, rfl, rfl, -⟩
        exact ⟨rfl, rfl, rfl⟩

/-- A batch of the account that commits is the run's. -/
theorem Replacing.context_eq (hr : Replacing run db₀ pending₀ st) {context : BatchContext}
    {mode : ImportMode} {guids : List String}
    (hp : Pending.batchLocked context mode ∈ st.pending)
    (h : BatchCommits context mode guids st.world x') (hacc : context.account = run.account) :
    context = run := by
  obtain ⟨r, hrow, hid, hracc, hrunning⟩ := h.running
  obtain ⟨r', hrow', rfl⟩ := hr.serial.known _ hp context rfl
  obtain ⟨r₁, hrow₁, hr₁⟩ := hr.row
  have hrid := hr.only r hrow (hracc.trans hacc) hrunning
  have hr₁id : r₁.id = run.importId := congrArg BatchContext.importId hr₁
  rw [← hr₁, Table.eq_of_id_eq hrow₁ hrow (hr₁id.trans hrid.symm),
    Table.eq_of_id_eq hrow' hrow hid.symm]

/-- What leaves the account's messages alone, and what is committed of the run, leaves all of
it alone. -/
theorem Replaced.mono (hr : Replaced run db₀ x)
    (hcommitted : x'.Committed run.importId ↔ x.Committed run.importId)
    (hguids : ∀ guid, guid ∈ x'.guidsOf run.importId ↔ guid ∈ x.guidsOf run.importId)
    (hkeeps : ∀ m ∈ x.db.messages.rows, m.accountId = run.account →
      ∃ m' ∈ x'.db.messages.rows, m'.SameBut m)
    (horigin : ∀ m' ∈ x'.db.messages.rows, (∃ m ∈ x.db.messages.rows, m'.SameBut m) ∨
      (m'.accountId ≠ run.account ∧ m'.importId ≠ some run.importId)) : Replaced run db₀ x' where
  stamped := by
    intro m' hm' hid
    rcases horigin m' hm' with ⟨m, hm, hsame⟩ | ⟨-, hne⟩
    · obtain ⟨⟨hacc, hsrc⟩, guid, hguid, hg⟩ :=
        hr.stamped m hm (hsame.importId_eq.symm.trans hid)
      exact ⟨⟨hsame.accountId_eq.trans hacc, hsame.source_eq.trans hsrc⟩, guid,
        (hguids guid).mpr hguid, hsame.guid_eq.trans hg⟩
    · exact absurd hid hne
  replaced := by
    intro hc m' hm' hof
    rcases horigin m' hm' with ⟨m, hm, hsame⟩ | ⟨hne, -⟩
    · rw [hsame.importId_eq]
      exact hr.replaced (hcommitted.mp hc) m hm
        ⟨hsame.accountId_eq.symm.trans hof.1, hsame.source_eq.symm.trans hof.2⟩
    · exact absurd hof.1 hne
  held := by
    intro guid hguid
    obtain ⟨m, hm, hkey⟩ := hr.held guid ((hguids guid).mp hguid)
    obtain ⟨m', hm', hsame⟩ := hkeeps m hm (guidKey_eq_some.mp hkey).1
    exact ⟨m', hm', (guidKey_sameBut hsame).trans hkey⟩
  kept := by
    intro m₀ hm₀ hacc hfree
    obtain ⟨m, hm, hsame⟩ := hr.kept m₀ hm₀ hacc fun hsrc hc => hfree hsrc (hcommitted.mpr hc)
    obtain ⟨m', hm', hsame'⟩ := hkeeps m hm (hsame.accountId_eq.trans hacc)
    exact ⟨m', hm', hsame'.trans hsame⟩
  old := by
    intro m' hm' hacc hfree
    rcases horigin m' hm' with ⟨m, hm, hsame⟩ | ⟨hne, -⟩
    · obtain ⟨m₀, hm₀, hsame₀⟩ := hr.old m hm (hsame.accountId_eq.symm.trans hacc)
        fun hsrc hc => hfree (hsame.source_eq.trans hsrc) (hcommitted.mpr hc)
      exact ⟨m₀, hm₀, hsame.trans hsame₀⟩
    · exact absurd hacc hne

/-- The run's own batch, committed. -/
theorem Replaced.commits (hr : Replaced run db₀ x) {mode : ImportMode} {guids : List String}
    (h : BatchCommits run mode guids x x')
    (hfresh : mode = .replace → ∀ m ∈ x.db.messages.rows, m.importId ≠ some run.importId)
    (happend : mode = .append → x.Committed run.importId) : Replaced run db₀ x' := by
  have hc : x'.Committed run.importId := (committed_cons h.commits).mpr (Or.inl rfl)
  -- What was there before and is still there, of the source, carries the run's id.
  have hmine : ∀ m ∈ x.db.messages.rows, run.Of m →
      (mode = .replace → m.accountId = run.account → m.source ≠ run.source) →
      m.importId = some run.importId := by
    intro m hm hof hnot
    cases mode with
    | replace => exact absurd hof.2 (hnot rfl hof.1)
    | append => exact hr.replaced (happend rfl) m hm hof
  refine ⟨?_, ?_, ?_, ?_, ?_⟩
  · intro m' hm' hid
    rcases h.origin m' hm' with ⟨m, hm, hsame, -⟩ | ⟨hacc, hsrc, -, guid, hguid, hg⟩
    · obtain ⟨⟨hacc, hsrc⟩, guid, hguid, hg⟩ :=
        hr.stamped m hm (hsame.importId_eq.symm.trans hid)
      exact ⟨⟨hsame.accountId_eq.trans hacc, hsame.source_eq.trans hsrc⟩, guid,
        (guidsOf_cons h.commits).mpr (Or.inr hguid), hsame.guid_eq.trans hg⟩
    · exact ⟨⟨hacc, hsrc⟩, guid, (guidsOf_cons h.commits).mpr (Or.inl ⟨rfl, hguid⟩), hg⟩
  · intro _ m' hm' hof
    rcases h.origin m' hm' with ⟨m, hm, hsame, hnot⟩ | ⟨-, -, hid, -⟩
    · rw [hsame.importId_eq]
      exact hmine m hm ⟨hsame.accountId_eq.symm.trans hof.1, hsame.source_eq.symm.trans hof.2⟩ hnot
    · exact hid
  · intro guid hguid
    rcases (guidsOf_cons h.commits).mp hguid with ⟨-, hguid⟩ | hguid
    · exact h.held guid hguid
    · obtain ⟨m, hm, hkey⟩ := hr.held guid hguid
      obtain ⟨hacc, hsrc, -⟩ := guidKey_eq_some.mp hkey
      have hid := hr.replaced (committed_of_guid hguid) m hm ⟨hacc, hsrc⟩
      obtain ⟨m', hm', hsame, -⟩ := h.keeps m hm fun hmode => absurd hid (hfresh hmode m hm)
      exact ⟨m', hm', (guidKey_sameBut hsame).trans hkey⟩
  · intro m₀ hm₀ hacc hfree
    have hsrc : m₀.source ≠ run.source := fun hsrc => hfree hsrc hc
    obtain ⟨m, hm, hsame⟩ := hr.kept m₀ hm₀ hacc fun h => absurd h hsrc
    obtain ⟨m', hm', hsame', -⟩ := h.keeps m hm fun _ _ => by
      rw [hsame.source_eq]
      exact hsrc
    exact ⟨m', hm', hsame'.trans hsame⟩
  · intro m' hm' hacc hfree
    have hsrc : m'.source ≠ run.source := fun hsrc => hfree hsrc hc
    rcases h.origin m' hm' with ⟨m, hm, hsame, -⟩ | ⟨-, hsrc', -⟩
    · obtain ⟨m₀, hm₀, hsame₀⟩ := hr.old m hm (hsame.accountId_eq.symm.trans hacc)
        fun h => absurd (hsame.source_eq.trans h) hsrc
      exact ⟨m₀, hm₀, hsame.trans hsame₀⟩
    · exact absurd hsrc' hsrc

/-- An act keeps what holds of the messages. -/
theorem Replacing.acts (hr : Replacing run db₀ pending₀ ⟨x, before ++ p :: after, answers⟩)
    (h : Acts sha256Hex rfc3339Secs locked x p x' out) : Replaced run db₀ x' := by
  have hp : p ∈ before ++ p :: after := List.perm_middle.mem_iff.mpr List.mem_cons_self
  rcases h.messages hr.serial.owned with ⟨hdb, hcommits⟩ | ⟨c, mode, guids, rfl, hcommit⟩ |
    ⟨c, rfl, hdedupe⟩
  · refine hr.messages.mono ?_ ?_ ?_ ?_
    · unfold World.Committed
      rw [hcommits]
    · intro guid
      unfold World.guidsOf
      rw [hcommits]
    · intro m hm _
      exact ⟨m, by rw [hdb]; exact hm, MessageRow.SameBut.refl m⟩
    · intro m hm
      rw [hdb] at hm
      exact Or.inl ⟨m, hm, MessageRow.SameBut.refl m⟩
  · by_cases hacc : c.account = run.account
    · obtain rfl := hr.context_eq hp hcommit hacc
      refine hr.messages.commits hcommit ?_ ?_
      · rintro rfl
        exact hasMessages_false.mp (hr.serial.fresh c hp)
      · rintro rfl
        exact hr.appends hp
    · -- Another account's batch, so another run's.
      have hne : c.importId ≠ run.importId := by
        intro hid
        obtain ⟨r, hrow, hrid, hracc, -⟩ := hcommit.running
        obtain ⟨r₁, hrow₁, rfl⟩ := hr.row
        have hrr : r = r₁ := Table.eq_of_id_eq hrow hrow₁ (hrid.trans hid)
        rw [hrr] at hracc
        exact hacc hracc.symm
      refine hr.messages.mono ?_ ?_ ?_ ?_
      · rw [committed_cons hcommit.commits]
        exact or_iff_right hne
      · intro guid
        rw [guidsOf_cons hcommit.commits]
        exact or_iff_right fun h => hne h.1
      · intro m hm hmacc
        obtain ⟨m', hm', hsame, -⟩ := hcommit.keeps m hm fun _ h => absurd (h.symm.trans hmacc) hacc
        exact ⟨m', hm', hsame⟩
      · intro m hm
        rcases hcommit.origin m hm with ⟨m₀, hm₀, hsame, -⟩ | ⟨hmacc, -, hid, -⟩
        · exact Or.inl ⟨m₀, hm₀, hsame⟩
        · rw [hmacc, hid]
          exact Or.inr ⟨hacc, fun h => hne (Option.some.inj h)⟩
  · refine hr.messages.mono ?_ ?_ ?_ ?_
    · unfold World.Committed
      rw [hdedupe.commits]
    · intro guid
      unfold World.guidsOf
      rw [hdedupe.commits]
    · intro m hm _
      obtain ⟨m', hm', hsame, -⟩ := hdedupe.keeps m hm
      exact ⟨m', hm', hsame⟩
    · intro m hm
      exact Or.inl (hdedupe.origin m hm)

theorem Acts.committed (h : Acts sha256Hex rfc3339Secs locked x p x' out) (ho : x.db.Owned)
    {importId : Int} (hc : x.Committed importId) : x'.Committed importId := by
  rcases h.messages ho with ⟨-, hcommits⟩ | ⟨_, _, _, -, hcommit⟩ | ⟨_, -, hdedupe⟩
  · unfold World.Committed
    rw [hcommits]
    exact hc
  · exact (committed_cons hcommit.commits).mpr (Or.inr hc)
  · unfold World.Committed
    rw [hdedupe.commits]
    exact hc

/-- A batch of the run is let in to append only after one has committed. -/
theorem Acts.next_append (h : Acts sha256Hex rfc3339Secs locked x p x' (.inl q))
    (hr : Replaced run db₀ x) (hmode : run.mode = .replace) (hq : q = .batchLocked run .append) :
    x.Committed run.importId := by
  subst hq
  generalize hout : (Sum.inl (Pending.batchLocked run .append) : Pending ⊕ Answer) = out at h
  cases h with
  | batchLock h =>
    obtain ⟨rfl, happend⟩ := Pending.batchLocked.inj (Sum.inl.inj hout)
    unfold BatchContext.batchMode at happend
    split at happend
    · cases happend
    · next hnot =>
      have hmsgs : hasMessages run.importId x.db = true := by simpa [hmode] using hnot
      unfold hasMessages at hmsgs
      obtain ⟨m, hm, hid⟩ := List.any_eq_true.mp hmsgs
      obtain ⟨-, guid, hguid, -⟩ := hr.stamped m hm (by simpa using hid)
      exact committed_of_guid hguid
  | batchCommit hrun h =>
    split at hout <;> cases hout
  | _ => cases hout

/-- A dedupe follows a committed batch that dedupes. -/
theorem Acts.next_dedupe (h : Acts sha256Hex rfc3339Secs locked x p x' (.inl q)) (ho : x.db.Owned)
    {context : BatchContext} (hq : q = .batchDedupe context) :
    context.dedupe = true ∧ ∃ mode guids, p = .batchLocked context mode ∧
      BatchCommits context mode guids x x' := by
  have hmsgs := h.messages ho
  subst hq
  generalize hout : (Sum.inl (Pending.batchDedupe context) : Pending ⊕ Answer) = out at h
  cases h with
  | batchCommit hrun h =>
    split at hout
    · next hdedupe =>
      obtain rfl := Pending.batchDedupe.inj (Sum.inl.inj hout)
      exact ⟨hdedupe, _, _, rfl, batchCommits_of_promote hrun h rfl ho⟩
    · cases hout
  | _ => cases hout

/-- The run is still the account's newest. -/
def Server.Newest (st : Server) (run : BatchContext) : Prop :=
  ∀ r ∈ st.world.imports.rows, r.accountId = run.account → r.id ≤ run.importId

theorem Step.newest (h : Step sha256Hex rfc3339Secs st st') (hn : st'.Newest run) :
    st.Newest run := by
  intro r hr hacc
  obtain ⟨opened, closed, hw, -⟩ := h.writes
  obtain ⟨r', hr', hsame⟩ := hw.exists_row hr
  have hid : r'.id = r.id := congrArg BatchContext.importId hsame
  have hacc' : r'.accountId = r.accountId := congrArg BatchContext.account hsame
  rw [← hid]
  exact hn r' hr' (hacc'.trans hacc)

/-- **One step of a replace run.** -/
theorem replacing_step (h : Step sha256Hex rfc3339Secs st st')
    (hr : Replacing run db₀ pending₀ st) (hn : st'.Newest run) :
    Replacing run db₀ pending₀ st' := by
  obtain ⟨opened, closed, hw, -⟩ := h.writes
  have hserial := serial_step h hr.serial
  have hrow : ∃ r ∈ st'.world.imports.rows, BatchContext.fromRow r = run := by
    obtain ⟨r, hrold, rfl⟩ := hr.row
    exact hw.exists_row hrold
  have honly : ∀ r ∈ st'.world.imports.rows, r.accountId = run.account → r.status = .running →
      r.id = run.importId := by
    intro r' hr' hacc hrunning
    rcases hw.row_origin hr' with ⟨r, hrold, hsame, hwas⟩ | hid
    · have hid : r'.id = r.id := congrArg BatchContext.importId hsame
      have hacc' : r'.accountId = r.accountId := congrArg BatchContext.account hsame
      rw [hid]
      exact hr.only r hrold (hacc'.symm.trans hacc) (hwas hrunning)
    · -- A new run would be the account's newest.
      obtain ⟨r, hrold, hrun⟩ := hr.row
      have hle := hn r' hr' hacc
      have hmax := id_le_maxId hrold
      have hrid : r.id = run.importId := congrArg BatchContext.importId hrun
      have hid' : r'.id = st.world.imports.maxId + 1 := hid
      have hmax' : r.id ≤ st.world.imports.maxId := hmax
      omega
  cases h with
  | arrives p hp =>
    refine ⟨hserial, hr.replace, hrow, honly, ?_, ?_, hr.messages⟩
    · intro hmem
      rcases List.mem_cons.mp hmem with rfl | hmem
      · exact hp.elim
      · exact hr.appends hmem
    · intro hdedupe hquiet context hmem
      rcases List.mem_cons.mp hmem with rfl | hmem
      · exact hp.elim
      · exact hr.quiet hdedupe hquiet context hmem
  | next h =>
    rename_i x x' before after p q answers
    have hrest {p' : Pending} (hp' : p' ∈ before ++ after) : p' ∈ before ++ p :: after :=
      List.perm_middle.mem_iff.mpr (List.mem_cons_of_mem _ hp')
    refine ⟨hserial, hr.replace, hrow, honly, ?_, ?_, hr.acts h⟩
    · intro hmem
      rcases List.mem_cons.mp (List.perm_middle.mem_iff.mp hmem) with hq | hmem
      · exact h.committed hr.serial.owned (h.next_append hr.messages hr.replace hq.symm)
      · exact h.committed hr.serial.owned (hr.appends (hrest hmem))
    · intro hdedupe hquiet context hmem hacc
      rcases List.mem_cons.mp (List.perm_middle.mem_iff.mp hmem) with hq | hmem
      · obtain ⟨htrue, mode, guids, rfl, hcommit⟩ := h.next_dedupe hr.serial.owned hq.symm
        have hp : Pending.batchLocked context mode ∈ before ++ .batchLocked context mode :: after :=
          List.perm_middle.mem_iff.mpr List.mem_cons_self
        rw [hr.context_eq hp hcommit hacc, hdedupe] at htrue
        cases htrue
      · exact hr.quiet hdedupe hquiet context (hrest hmem) hacc
  | done h =>
    rename_i x x' before after p answers answer
    have hrest {p' : Pending} (hp' : p' ∈ before ++ after) : p' ∈ before ++ p :: after :=
      List.perm_middle.mem_iff.mpr (List.mem_cons_of_mem _ hp')
    refine ⟨hserial, hr.replace, hrow, honly, ?_, ?_, hr.acts h⟩
    · intro hmem
      exact h.committed hr.serial.owned (hr.appends (hrest hmem))
    · intro hdedupe hquiet context hmem
      exact hr.quiet hdedupe hquiet context (hrest hmem)

theorem replacing_steps (h : Steps sha256Hex rfc3339Secs st st')
    (hr : Replacing run db₀ pending₀ st) (hn : st'.Newest run) :
    Replacing run db₀ pending₀ st' := by
  induction h with
  | refl => exact hr
  | tail _ hstep ih => exact replacing_step hstep (ih (hstep.newest hn)) hn

/-! The messages a step keeps. -/

/-- What a step does to a message of the account it must not wipe: it stays, and where
nothing dedupes only a flag that pointed at a message now gone is cleared. -/
def Keeps (quiet : Prop) (x x' : World) (m : MessageRow) : Prop :=
  ∃ m' ∈ x'.db.messages.rows, m'.SameBut m ∧ (quiet → m'.contentKey = m.contentKey ∧
    (m'.duplicateOf = m.duplicateOf ∨ (m'.duplicateOf = none ∧
      ∃ k ∈ x.db.messages.rows, m.duplicateOf = some k.id ∧
        ∀ k' ∈ x'.db.messages.rows, ¬ k'.SameBut k)))

/-- A wiped message is gone: what has its id after the step is a message of the batch. -/
theorem BatchCommits.gone {context : BatchContext} {guids : List String}
    (h : BatchCommits context .replace guids x x') {k : MessageRow}
    (hk : k ∈ x.db.messages.rows) (hsrc : k.source = context.source)
    (hacc : k.accountId = context.account)
    (hfresh : hasMessages context.importId x.db = false) {k' : MessageRow}
    (hk' : k' ∈ x'.db.messages.rows) : ¬ k'.SameBut k := by
  intro hsame
  rcases h.origin k' hk' with ⟨m, hm, hsame', hnot⟩ | ⟨-, -, hid, -⟩
  · have hmk : m = k := Table.eq_of_id_eq hm hk (hsame'.id_eq.symm.trans hsame.id_eq)
    rw [hmk] at hnot
    exact hnot rfl hacc hsrc
  · exact hasMessages_false.mp hfresh k hk (hsame.importId_eq.symm.trans hid)

theorem Replacing.keeps (hr : Replacing run db₀ pending₀ ⟨x, before ++ p :: after, answers⟩)
    (h : Acts sha256Hex rfc3339Secs locked x p x' out) {m : MessageRow}
    (hm : m ∈ x.db.messages.rows) (hacc : m.accountId = run.account)
    (hmine : m.source = run.source → m.importId = some run.importId) :
    Keeps (run.dedupe = false ∧ Quiet run.account pending₀) x x' m := by
  have hp : p ∈ before ++ p :: after := List.perm_middle.mem_iff.mpr List.mem_cons_self
  rcases h.messages hr.serial.owned with ⟨hdb, -⟩ | ⟨c, mode, guids, rfl, hcommit⟩ |
    ⟨c, rfl, hdedupe⟩
  · exact ⟨m, by rw [hdb]; exact hm, MessageRow.SameBut.refl m, fun _ => ⟨rfl, Or.inl rfl⟩⟩
  · have hrun : c.account = run.account → c = run := hr.context_eq hp hcommit
    obtain ⟨m', hm', hsame, hdup, hkey⟩ := hcommit.keeps m hm fun hmode hmacc hsrc => by
      -- A batch of the run that wipes finds no message of the run.
      subst hmode
      obtain rfl := hrun (hmacc.symm.trans hacc)
      exact hasMessages_false.mp (hr.serial.fresh c hp) m hm (hmine hsrc)
    refine ⟨m', hm', hsame, fun hquiet => ⟨hkey fun hmacc => ?_, ?_⟩⟩
    · rw [hrun (hmacc.symm.trans hacc)]
      exact hquiet.1
    · refine hdup.imp_right ?_
      rintro ⟨hnone, rfl, k, hk, hsrc, hkacc, hpoints⟩
      refine ⟨hnone, k, hk, hpoints, fun k' hk' => ?_⟩
      exact hcommit.gone hk hsrc hkacc (hr.serial.fresh c hp) hk'
  · obtain ⟨m', hm', hsame, hother⟩ := hdedupe.keeps m hm
    refine ⟨m', hm', hsame, fun hquiet => ?_⟩
    have hne := hr.quiet hquiet.1 hquiet.2 c hp
    obtain rfl := hother fun h => hne (h.symm.trans hacc)
    exact ⟨rfl, Or.inl rfl⟩

theorem Replacing.keeps_step (hr : Replacing run db₀ pending₀ st)
    (h : Step sha256Hex rfc3339Secs st st') {m : MessageRow}
    (hm : m ∈ st.world.db.messages.rows) (hacc : m.accountId = run.account)
    (hmine : m.source = run.source → m.importId = some run.importId) :
    Keeps (run.dedupe = false ∧ Quiet run.account pending₀) st.world st'.world m := by
  cases h with
  | arrives p hp => exact ⟨m, hm, MessageRow.SameBut.refl m, fun _ => ⟨rfl, Or.inl rfl⟩⟩
  | next h => exact hr.keeps h hm hacc hmine
  | done h => exact hr.keeps h hm hacc hmine

end

/-! The run as a whole. -/

/-- The context a run opened with these arguments gives its batches. -/
def StartImportArgs.context (args : StartImportArgs) (importId : Int) : BatchContext where
  account := args.accountId
  importId := importId
  source := args.source
  mode := if args.mode = "replace" then .replace else .append
  dedupe := args.dedupe

/-- The server once a run has started, with no batch committed since. -/
def Server.started (st : Server) (credential : RunCredentialColumns) (imports : Table ImportRow)
    (importId : Int) : Server :=
  ⟨⟨imports.update (recordCredential importId credential), st.world.issues, st.world.db, []⟩,
    st.pending, .started importId :: st.answers⟩

/-- With no request under way there is nothing to serialise. -/
theorem serial_idle {x : World} (ho : x.db.Owned) (answers : List Answer) :
    Serial ⟨x, [], answers⟩ :=
  ⟨ho, by simp, by simp, by simp⟩

section
variable {sha256Hex : ByteArray → String} {rfc3339Secs : String → Option Int} {st₀ st : Server}
  {args : StartImportArgs} {credential : RunCredentialColumns} {now : String}
  {imports : Table ImportRow} {importId : Int}

/-- What holds at the start of a run. -/
theorem replacing_started (hmode : args.mode = "replace") (hserial : Serial st₀)
    (hruns : ∀ m ∈ st₀.world.db.messages.rows, ∀ i, m.importId = some i →
      ∃ r ∈ st₀.world.imports.rows, r.id = i)
    (hstart : startImport now args st₀.world.imports = some (imports, importId)) :
    Replacing (args.context importId) st₀.world.db st₀.pending
      (st₀.started credential imports importId) := by
  -- A start computes no hash and reads no time.
  have hact : Acts (fun _ => "") (fun _ => none) [] st₀.world (.start args credential)
      ⟨imports.update (recordCredential importId credential), st₀.world.issues, st₀.world.db,
        st₀.world.commits⟩ (.inr (.started importId)) := .start hstart
  obtain ⟨hid, hrows⟩ := startImport_eq_some hstart
  -- The row the run opened with, as its credential leaves it.
  have hrow : ∃ r ∈ (imports.update (recordCredential importId credential)).rows,
      BatchContext.fromRow r = args.context importId ∧ r.status = .running := by
    refine ⟨(recordCredential importId credential).apply ((args.new now).row importId), ?_, ?_⟩
    · refine List.mem_map.mpr ⟨_, ?_, rfl⟩
      rw [hrows]
      exact List.mem_append_right _ (List.mem_singleton.mpr rfl)
    · unfold recordCredential
      simp only
      split <;> exact ⟨rfl, rfl⟩
  have hnone : ∀ m ∈ st₀.world.db.messages.rows, m.importId ≠ some importId := by
    intro m hm hrun
    obtain ⟨r, hr, hrid⟩ := hruns m hm importId hrun
    exact id_ne_nextId hr (hrid.trans hid)
  have hcommitted : ¬ (st₀.started credential imports importId).world.Committed importId := by
    rintro ⟨c, hc, -⟩
    exact absurd hc List.not_mem_nil
  refine ⟨⟨hserial.owned, ?_, hserial.nodup, hserial.fresh⟩, if_pos hmode, ?_, ?_, ?_,
    fun _ h => h, ⟨?_, fun hc => absurd hc hcommitted, ?_, ?_, ?_⟩⟩
  · intro p hp context hc
    obtain ⟨r, hr, rfl⟩ := hserial.known p hp context hc
    exact hact.writes.exists_row hr
  · obtain ⟨r, hr, hcontext, -⟩ := hrow
    exact ⟨r, hr, hcontext⟩
  · intro r hr hacc hrunning
    obtain ⟨r₁, hr₁, hcontext, hrunning₁⟩ := hrow
    have hacc₁ : r₁.accountId = args.accountId := congrArg BatchContext.account hcontext
    have hid₁ : r₁.id = importId := congrArg BatchContext.importId hcontext
    have hsame : r = r₁ := by
      refine eq_of_key_eq (k := args.accountId) hr hr₁ ?_ ?_
      · exact (if_pos hrunning).trans (congrArg some hacc)
      · exact (if_pos hrunning₁).trans (congrArg some hacc₁)
    rw [hsame]
    exact hid₁
  · intro hp
    -- A batch under way imports under a run that was there, so under another.
    obtain ⟨r, hr, hcontext⟩ := hserial.known _ hp _ rfl
    have hrid : r.id = importId := congrArg BatchContext.importId hcontext
    exact absurd (hrid.trans hid) (id_ne_nextId hr)
  · intro m hm hrun
    exact absurd hrun (hnone m hm)
  · intro guid hguid
    exact absurd (committed_of_guid hguid) hcommitted
  · intro m hm _ _
    exact ⟨m, hm, MessageRow.SameBut.refl m⟩
  · intro m hm _ _
    exact ⟨m, hm, MessageRow.SameBut.refl m⟩

/-- What a replace run has done to the account's messages, which were those of `db₀`, and
what its next step may do. `quiet` says that nothing dedupes. -/
structure ReplacesOnce (sha256Hex : ByteArray → String) (rfc3339Secs : String → Option Int)
    (run : BatchContext) (quiet : Prop) (db₀ : Db) (st : Server) : Prop where
  /-- Once a batch has committed, the source's messages are those of the run's guids. -/
  only_committed : st.world.Committed run.importId → ∀ m ∈ st.world.db.messages.rows, run.Of m →
    m.importId = some run.importId ∧ ∃ guid ∈ st.world.guidsOf run.importId, m.guid = some guid
  one_each : st.world.Committed run.importId → ∀ guid ∈ st.world.guidsOf run.importId,
    ∃! m, m ∈ st.world.db.messages.rows ∧ run.Of m ∧ m.guid = some guid
  /-- Until then the account's messages are those it had. -/
  until_committed : ¬ st.world.Committed run.importId →
    (∀ m₀ ∈ db₀.messages.rows, m₀.accountId = run.account →
      ∃ m ∈ st.world.db.messages.rows, m.SameBut m₀) ∧
    ∀ m ∈ st.world.db.messages.rows, m.accountId = run.account →
      ∃ m₀ ∈ db₀.messages.rows, m.SameBut m₀
  /-- The messages of other sources stay what they were. -/
  others : (∀ m₀ ∈ db₀.messages.rows, m₀.accountId = run.account → m₀.source ≠ run.source →
      ∃ m ∈ st.world.db.messages.rows, m.SameBut m₀) ∧
    ∀ m ∈ st.world.db.messages.rows, m.accountId = run.account → m.source ≠ run.source →
      ∃ m₀ ∈ db₀.messages.rows, m.SameBut m₀
  /-- The next step wipes no message of the run. -/
  mine_kept : ∀ st', Step sha256Hex rfc3339Secs st st' → ∀ m ∈ st.world.db.messages.rows,
    m.importId = some run.importId → Keeps quiet st.world st'.world m
  others_kept : ∀ st', Step sha256Hex rfc3339Secs st st' → ∀ m ∈ st.world.db.messages.rows,
    m.accountId = run.account → m.source ≠ run.source → Keeps quiet st.world st'.world m

/-- **A replace run replaces once.** Whatever messages an account has and whatever requests
take turns, from a replace run's start to the account's next run. -/
theorem replace_run_replaces_once (hmode : args.mode = "replace") (hserial : Serial st₀)
    (hruns : ∀ m ∈ st₀.world.db.messages.rows, ∀ i, m.importId = some i →
      ∃ r ∈ st₀.world.imports.rows, r.id = i)
    (hstart : startImport now args st₀.world.imports = some (imports, importId))
    (h : Steps sha256Hex rfc3339Secs (st₀.started credential imports importId) st)
    (hnewest : st.Newest (args.context importId)) :
    ReplacesOnce sha256Hex rfc3339Secs (args.context importId)
      (args.dedupe = false ∧ Quiet args.accountId st₀.pending) st₀.world.db st := by
  have hr := replacing_steps h (replacing_started hmode hserial hruns hstart) hnewest
  refine ⟨?_, ?_, fun hc => ⟨?_, ?_⟩, ⟨?_, ?_⟩, ?_, ?_⟩
  · intro hc m hm hof
    have hid := hr.messages.replaced hc m hm hof
    exact ⟨hid, (hr.messages.stamped m hm hid).2⟩
  · intro hc guid hguid
    obtain ⟨m, hm, hkey⟩ := hr.messages.held guid hguid
    obtain ⟨hacc, hsrc, hg, hne⟩ := guidKey_eq_some.mp hkey
    refine ⟨m, ⟨hm, ⟨hacc, hsrc⟩, hg⟩, ?_⟩
    rintro m' ⟨hm', ⟨hacc', hsrc'⟩, hg'⟩
    exact eq_of_key_eq hm' hm (guidKey_eq_some.mpr ⟨hacc', hsrc', hg', hne⟩) hkey
  · intro m₀ hm₀ hacc
    exact hr.messages.kept m₀ hm₀ hacc fun _ => hc
  · intro m hm hacc
    exact hr.messages.old m hm hacc fun _ => hc
  · intro m₀ hm₀ hacc hsrc
    exact hr.messages.kept m₀ hm₀ hacc fun h => absurd h hsrc
  · intro m hm hacc hsrc
    exact hr.messages.old m hm hacc fun h => absurd h hsrc
  · intro st' hstep m hm hid
    exact hr.keeps_step hstep hm (hr.messages.stamped m hm hid).1.1 fun _ => hid
  · intro st' hstep m hm hacc hsrc
    exact hr.keeps_step hstep hm hacc fun h => absurd h hsrc

end

/-- A message without a content key, received at the same time as any other. -/
def twoSourcesMessage (id : Int) (source guid : String) : MessageRow where
  id := id
  conversationId := 1
  accountId := 1
  source := source
  guid := some guid
  timestamp := "2024-01-01T00:00:00Z"
  isFromMe := 0
  senderHandleId := some 7
  ownerHandleId := none
  service := none
  subject := none
  body := none
  isAnnouncement := 0
  isReply := 0
  threadOriginatorGuid := none
  threadOriginatorPart := none
  numReplies := 0
  sortOrder := 0
  contentKey := none
  duplicateOf := none
  importId := none

/-- An account with one message of each of two sources, neither with a content key. -/
def twoSources : Db where
  conversations := ⟨[⟨1, 1, 7, "individual", none, none, "phone.vcrate"⟩], by decide, by decide⟩
  participants := Table.empty
  messages := ⟨[twoSourcesMessage 1 "imessage" "g-1", twoSourcesMessage 2 "sms" "g-2"],
    by decide, by decide⟩
  attachments := Table.empty
  tapbacks := Table.empty
  messagesFts := []
  triggers := true

/-- A batch of one message, of the run `1`. -/
def replacingBatch : StagedBatch ⟨1, 1, "imessage", .replace, true⟩ where
  staging := {
    conversations := ⟨[⟨1, 1, 7, "individual", none, none, "phone.vcrate"⟩], by decide, by decide⟩
    participants := Table.empty
    messages := ⟨[{
      id := 1
      conversationId := 1
      accountId := 1
      source := "imessage"
      guid := "g-3"
      guid_ne := by decide
      timestamp := "2024-01-01T00:00:00Z"
      isFromMe := 0
      senderHandleId := some 7
      ownerHandleId := none
      service := none
      subject := none
      body := none
      isAnnouncement := 0
      isReply := 0
      threadOriginatorGuid := none
      threadOriginatorPart := none
      numReplies := 0
      sortOrder := 0
      importId := some 1 }], by decide, by decide⟩
    attachments := Table.empty
    tapbacks := Table.empty }
  own := by decide

/-- The run `1`: it replaces one of the sources, and dedupes. -/
def replacingArgs : StartImportArgs :=
  ⟨1, "imessage", "replace", true, none, .parse, none, none, none, none, none⟩

def replacingCredential : RunCredentialColumns := ⟨"session", none, none, none, none⟩

def beforeReplacing : Server := ⟨⟨Table.empty, Table.empty, twoSources, []⟩, [], []⟩

/-- The runs once the run `1` is open. -/
def replacingRuns : Table ImportRow :=
  ⟨[(replacingArgs.new "2024-01-01").row 1], by decide, by decide⟩

/-- The run's start, the run discarded before any batch, and its first batch committed. -/
theorem replacing_runs :
    startImport "2024-01-01" replacingArgs beforeReplacing.world.imports =
      some (replacingRuns, 1) ∧
    (∃ st, Steps (fun _ => "key") (fun _ => some 0)
        (beforeReplacing.started replacingCredential replacingRuns 1) st ∧
      (∀ r ∈ st.world.imports.rows, r.id = 1 ∧ r.status = .cancelled) ∧
      ¬ st.world.Committed 1 ∧ st.world.db = twoSources) ∧
    ∃ st, Steps (fun _ => "key") (fun _ => some 0)
        (beforeReplacing.started replacingCredential replacingRuns 1) st ∧
      (∀ r ∈ st.world.imports.rows, r.id = 1) ∧ st.world.guidsOf 1 = ["g-3"] ∧
      st.world.db.messages.rows.map (fun m => (m.id, m.source, m.contentKey)) =
        [(2, "sms", some "key"), (3, "imessage", some "key")] := by
  refine ⟨rfl, ?_, ?_⟩
  · have hdiscard : discardImport "2024-01-02" 1 1
        (beforeReplacing.started replacingCredential replacingRuns 1).world.imports = some _ := rfl
    have hstep : Step (fun _ => "key") (fun _ => some 0)
        ⟨(beforeReplacing.started replacingCredential replacingRuns 1).world,
          [] ++ .discard 1 1 :: [], [.started 1]⟩ _ := .done (.discard hdiscard)
    refine ⟨_, .tail (.tail (.refl _) (.arrives (.discard 1 1) trivial)) hstep, ?_, ?_, rfl⟩
    · intro r hr
      rw [List.mem_singleton.mp hr]
      exact ⟨rfl, rfl⟩
    · rintro ⟨c, hc, -⟩
      exact absurd hc List.not_mem_nil
  · obtain ⟨⟨db, stats⟩, hpromote, hrows⟩ := Option.map_eq_some_iff.mp
      (show (promoteAppend (fun _ => "key") (fun _ => some 0)
          ⟨fun _ => "+15550001", fun _ _ => false⟩ Walk.inserted .replace 1 true ["imessage"]
          replacingBatch.staging twoSources).map (fun r => r.1.messages.rows.map
            (fun m => (m.id, m.source, m.contentKey))) =
        some [(2, "sms", some "key"), (3, "imessage", some "key")] by decide +kernel)
    have hbatch : Step (fun _ => "key") (fun _ => some 0)
        ⟨(beforeReplacing.started replacingCredential replacingRuns 1).world,
          [] ++ .batch 1 1 :: [], [.started 1]⟩ _ := .next (.batch rfl)
    have hlock : Step (fun _ => "key") (fun _ => some 0)
        ⟨(beforeReplacing.started replacingCredential replacingRuns 1).world,
          [] ++ .batchWaiting ⟨1, 1, "imessage", .replace, true⟩ :: [], [.started 1]⟩ _ :=
      .next (.batchLock (by simp))
    have hcommit : Step (fun _ => "key") (fun _ => some 0)
        ⟨(beforeReplacing.started replacingCredential replacingRuns 1).world,
          [] ++ .batchLocked ⟨1, 1, "imessage", .replace, true⟩ .replace :: [], [.started 1]⟩ _ :=
      .next (.batchCommit rfl hpromote)
    refine ⟨_, .tail (.tail (.tail (.tail (.refl _) (.arrives (.batch 1 1) trivial)) hbatch) hlock)
      hcommit, ?_, rfl, hrows⟩
    intro r hr
    rw [List.mem_singleton.mp hr]
    rfl

/-- **What a replace run does besides replacing.** A run discarded before any batch committed
leaves a message of its source, though no guid was committed; and the first batch of a run
that dedupes writes the content key of a message of another source. -/
theorem replace_run_touches_another_source :
    (∃ st, Steps (fun _ => "key") (fun _ => some 0)
        (beforeReplacing.started replacingCredential replacingRuns 1) st ∧
      (∀ r ∈ st.world.imports.rows, r.id = 1 ∧ r.status = .cancelled) ∧
      ¬ ∀ m ∈ st.world.db.messages.rows, m.accountId = 1 → m.source = "imessage" →
        ∃ guid ∈ st.world.guidsOf 1, m.guid = some guid) ∧
    ∃ st, Steps (fun _ => "key") (fun _ => some 0)
        (beforeReplacing.started replacingCredential replacingRuns 1) st ∧
      ∃ m ∈ twoSources.messages.rows, m.source = "sms" ∧
        ∀ m' ∈ st.world.db.messages.rows, m'.id = m.id → m' ≠ { m with duplicateOf := none } := by
  obtain ⟨-, ⟨st, hsteps, hdone, hnone, hdb⟩, st', hsteps', -, -, hrows⟩ := replacing_runs
  refine ⟨⟨st, hsteps, hdone, fun h => ?_⟩, st', hsteps', twoSourcesMessage 2 "sms" "g-2", ?_, rfl, ?_⟩
  · obtain ⟨guid, hguid, -⟩ := h (twoSourcesMessage 1 "imessage" "g-1")
      (by rw [hdb]; exact List.mem_cons_self) rfl rfl
    exact hnone (committed_of_guid hguid)
  · exact List.mem_cons_of_mem _ List.mem_cons_self
  · intro m' hm' hid he
    have hmem : (m'.id, m'.source, m'.contentKey) ∈ st'.world.db.messages.rows.map
        (fun m => (m.id, m.source, m.contentKey)) := List.mem_map.mpr ⟨m', hm', rfl⟩
    rw [hrows, he] at hmem
    revert hmem
    decide

/-- The run `1` with its first batch committed, in place of the source's one message. -/
theorem replace_run_replaces_once_imessage :
    ∃ st, Steps (fun _ => "key") (fun _ => some 0)
        (beforeReplacing.started replacingCredential replacingRuns 1) st ∧
      st.world.guidsOf 1 = ["g-3"] ∧
      ReplacesOnce (fun _ => "key") (fun _ => some 0) (replacingArgs.context 1)
        (replacingArgs.dedupe = false ∧ Quiet 1 []) twoSources st := by
  obtain ⟨hstart, -, st, hsteps, hids, hguids, -⟩ := replacing_runs
  have howned : twoSources.Owned := by
    unfold Db.Owned
    decide
  refine ⟨st, hsteps, hguids, replace_run_replaces_once rfl (serial_idle howned []) ?_ hstart hsteps
    fun r hr _ => (hids r hr).le⟩
  intro m hm i hi
  rcases List.mem_cons.mp hm with rfl | hm
  · cases hi
  · rw [List.mem_singleton.mp hm] at hi
    cases hi

end MessageCrate

import MessageCrate.Lib.Runs
import MessageCrate.Server.ExportPages

/- An Export Run hands its list over once.

   `Sane` holds of every state: a run that is running has the rows of its list, and a client has
   what is still there of the places before its offset (`ClientSane`). A page that was loaded after
   the run had closed is empty, and nobody is answered with it.

   1. `Sane.write`, `Sane.startExportRun`, `Sane.finishExport`, `Sane.recordPage`,
      `ClientSane.receive`: what each step keeps; `Sane.next`: any step.
   2. `later_run`: what any number of steps do to a run, to its list and to what clients have.
   3. `exists_offsets`: the page loop ends, and its pages cover every place.
   4. `hands_over_once`: these of every state that is reached. -/
namespace MessageCrate.ExportRuns
open MessagePages

/-! What holds of every state. -/

section
variable {plan : Nat → Plan} {s s' : State} {p : Plan} {c : Client}

/-- A run and how many places it listed. -/
def ExportRun.size (run : ExportRun) : Int × Int := (run.id, run.messageCount)

def State.list (s : State) (p : Plan) : List Key :=
  inOrder (directionOf p.order) (s.listed p.exportId)

def State.Running (s : State) (exportId : Int) : Prop :=
  ∃ run ∈ s.exports, run.id = exportId ∧ run.status = .running

/-- The request is one that the server answers, for a run that listed `total` places. -/
structure Ready (s : State) (p : Plan) (c : Client) (total : Nat) : Prop where
  run : ((p.exportId, (total : Int)) : Int × Int) ∈ s.exports.map ExportRun.size
  total_eq : total = (s.listed p.exportId).length
  limit_pos : 0 < p.limit
  limit_le : p.limit ≤ maxListLimit
  offset_lt : c.offset < 2 ^ 63

structure ClientSane (s : State) (p : Plan) (c : Client) : Prop where
  start_le : p.start ≤ c.offset
  /-- Before there is the run nothing has been handed over. -/
  fresh : (∀ run ∈ s.exports, run.id ≠ p.exportId) → c.offset = p.start ∧ c.phase ≠ .done
  asked : c.phase ≠ .done → Covers s (s.list p) p.start c.offset (c.received.map Item.key)
  done : c.phase = .done →
    Covers s (s.list p) p.start (s.list p).length (c.received.map Item.key)
  counted : ∀ total, c.phase = .counted total → Ready s p c total
  /-- A page that was loaded when the run had closed is empty, and is not answered with. -/
  loaded : ∀ total items, c.phase = .loaded total items → Ready s p c total ∧
    (s.Running p.exportId →
      Covers s (s.list p) c.offset (c.offset + p.limit) (items.map Item.key))

structure Sane (plan : Nat → Plan) (s : State) : Prop where
  runs : (s.exports.map ExportRun.id).Nodup
  dated : ∀ m ∈ s.tables.db.messages, s.made m.id < s.now
  listed_dated : ∀ r, ∀ k ∈ s.listed r, k.made < s.now
  listed_once : ∀ r, (s.listed r).Nodup
  listed_fits : ∀ r, (s.listed r).length < 2 ^ 63
  unlisted : ∀ r, (∀ run ∈ s.exports, run.id ≠ r) → s.rows r = [] ∧ s.listed r = []
  counted : ∀ run ∈ s.exports, run.messageCount = (s.listed run.id).length ∧
    run.messagesDelivered ≤ run.messageCount
  places : ∀ run ∈ s.exports, run.status = .running →
    s.rows run.id = (s.listed run.id).zipIdx.map (s.place run.id)
  clients : ∀ n, ClientSane s (plan n) (s.clients n)

theorem mem_size_iff {r m : Int} : ((r, m) : Int × Int) ∈ s.exports.map ExportRun.size ↔
    ∃ run ∈ s.exports, run.id = r ∧ run.messageCount = m := by
  rw [List.mem_map]
  refine exists_congr fun run => and_congr_right fun _ => ?_
  exact Prod.mk.injEq _ _ _ _ ▸ Iff.rfl

/-- A step that keeps the runs, the lists and what is gone keeps a client's state. -/
theorem ClientSane.mono (h : ClientSane s p c) (hlisted : s'.listed p.exportId = s.listed p.exportId)
    (hholds : ∀ k ∈ s.listed p.exportId, s'.Holds k → s.Holds k)
    (hruns : s.exports.map ExportRun.size ⊆ s'.exports.map ExportRun.size)
    (hrunning : s'.Running p.exportId → s.Running p.exportId) : ClientSane s' p c := by
  have hlist : s'.list p = s.list p := by
    unfold State.list
    rw [hlisted]
  have hback : ∀ k ∈ s.list p, s'.Holds k → s.Holds k := fun k hk => hholds k (mem_inOrder.mp hk)
  have hready : ∀ total, Ready s p c total → Ready s' p c total := by
    intro total hr
    exact ⟨hruns hr.run, hlisted ▸ hr.total_eq, hr.limit_pos, hr.limit_le, hr.offset_lt⟩
  constructor
  · exact h.start_le
  · intro hno
    refine h.fresh fun run hrun hid => ?_
    obtain ⟨run', hrun', hid', -⟩ := mem_size_iff.mp (hruns (mem_size_iff.mpr ⟨run, hrun, hid, rfl⟩))
    exact hno run' hrun' hid'
  · rw [hlist]
    exact fun hphase => (h.asked hphase).mono hback
  · rw [hlist]
    exact fun hphase => (h.done hphase).mono hback
  · exact fun total hphase => hready total (h.counted total hphase)
  · rw [hlist]
    intro total items hphase
    obtain ⟨hr, hcovers⟩ := h.loaded total items hphase
    exact ⟨hready total hr, fun hrun => (hcovers (hrunning hrun)).mono hback⟩

theorem sane_initial (plan : Nat → Plan) (tables : Tables) : Sane plan (initial plan tables) := by
  constructor
  · exact List.nodup_nil
  · exact fun m _ => Nat.zero_lt_one
  · exact fun r k hk => absurd hk List.not_mem_nil
  · exact fun r => List.nodup_nil
  · exact fun r => Nat.two_pow_pos 63
  · exact fun r _ => ⟨rfl, rfl⟩
  · exact fun run hrun => absurd hrun List.not_mem_nil
  · exact fun run hrun => absurd hrun List.not_mem_nil
  · intro n
    constructor
    · exact Nat.le_refl _
    · exact fun _ => ⟨rfl, Phase.noConfusion⟩
    · exact fun _ => Covers.none _ _ _
    · exact Phase.noConfusion
    · exact fun total => Phase.noConfusion
    · exact fun total items => Phase.noConfusion

theorem Sane.setClient (h : Sane plan s) {n : Nat} (hc : ClientSane s (plan n) c) :
    Sane plan (s.setClient n c) := by
  refine ⟨h.runs, h.dated, h.listed_dated, h.listed_once, h.listed_fits, h.unlisted, h.counted,
    h.places, fun n' => ?_⟩
  have hset : (s.setClient n c).clients n' = if n' = n then c else s.clients n' := by
    unfold State.setClient
    exact Function.update_apply _ _ _ _
  rw [hset]
  split
  · next heq =>
    rw [heq]
    exact hc.mono rfl (fun _ _ hk => hk) (List.Subset.refl _) id
  · exact (h.clients n').mono rfl (fun _ _ hk => hk) (List.Subset.refl _) id

/-- Steps on the requests: a client's request moves on, and what it has stays. -/
theorem ClientSane.rephase (h : ClientSane s p c) {phase : Phase} (hbefore : c.phase ≠ .done)
    (hafter : phase ≠ .done) (hcounted : ∀ total, phase = .counted total → Ready s p c total)
    (hloaded : ∀ total items, phase = .loaded total items → Ready s p c total ∧
      (s.Running p.exportId →
        Covers s (s.list p) c.offset (c.offset + p.limit) (items.map Item.key))) :
    ClientSane s p { c with phase := phase } := by
  constructor
  · exact h.start_le
  · exact fun hno => ⟨(h.fresh hno).1, hafter⟩
  · exact fun _ => h.asked hbefore
  · exact fun hphase => absurd hphase hafter
  · intro total hphase
    have hr := hcounted total hphase
    exact ⟨hr.run, hr.total_eq, hr.limit_pos, hr.limit_le, hr.offset_lt⟩
  · intro total items hphase
    obtain ⟨hr, hcovers⟩ := hloaded total items hphase
    exact ⟨⟨hr.run, hr.total_eq, hr.limit_pos, hr.limit_le, hr.offset_lt⟩, hcovers⟩

theorem ClientSane.refuse (h : ClientSane s p c) (hbefore : c.phase ≠ .done) (error : ApiError) :
    ClientSane s p { c with phase := .refused error } :=
  h.rephase hbefore Phase.noConfusion (fun _ => Phase.noConfusion) (fun _ _ => Phase.noConfusion)

theorem ClientSane.ask (h : ClientSane s p c) (hbefore : c.phase ≠ .done) :
    ClientSane s p { c with phase := .asking } :=
  h.rephase hbefore Phase.noConfusion (fun _ => Phase.noConfusion) (fun _ _ => Phase.noConfusion)

/-- No statement of a page reads what is in the trash. -/
theorem Sane.setTrashed (h : Sane plan s) (trashed : List Int) :
    Sane plan { s with trashed := trashed } :=
  ⟨h.runs, h.dated, h.listed_dated, h.listed_once, h.listed_fits, h.unlisted, h.counted, h.places,
    fun n => (h.clients n).mono rfl (fun _ _ hk => hk) (List.Subset.refl _) id⟩

end

/-! Steps. -/

section steps
variable {plan : Nat → Plan} {s s' : State} {p : Plan} {c : Client}

/-- What is there after another request's transaction: what it deletes is gone, under whatever id
there are messages then. -/
theorem holds_write {deleted : List Int} {tables : Tables}
    (hkept : ∀ m ∈ s.tables.db.messages, m.id ∉ deleted → ∃ m' ∈ tables.db.messages, m'.id = m.id)
    {k : Key} (hk : k.made < s.now) :
    (write deleted tables s).Holds k ↔ s.Holds k ∧ k.id ∉ deleted := by
  have hmade : (write deleted tables s).made k.id =
      if s.tables.db.messages.any (fun m => m.id = k.id) ∧ k.id ∉ deleted then s.made k.id
      else s.now := rfl
  constructor
  · rintro ⟨-, hmk⟩
    rw [hmade] at hmk
    split at hmk
    · next hold =>
      obtain ⟨m, hm, hid⟩ := List.any_eq_true.mp hold.1
      exact ⟨⟨⟨m, hm, of_decide_eq_true hid⟩, hmk⟩, hold.2⟩
    · omega
  · rintro ⟨⟨⟨m, hm, hid⟩, hmk⟩, hnot⟩
    obtain ⟨m', hm', hid'⟩ := hkept m hm (hid ▸ hnot)
    refine ⟨⟨m', hm', hid'.trans hid⟩, ?_⟩
    rw [hmade, if_pos ⟨List.any_eq_true.mpr ⟨m, hm, decide_eq_true hid⟩, hnot⟩]
    exact hmk

/-- **Another request's transaction.** A message that it deletes leaves its place empty, and one
that it makes is none of those that were listed. -/
theorem Sane.write (h : Sane plan s) {deleted : List Int} {tables : Tables}
    (hkept : ∀ m ∈ s.tables.db.messages, m.id ∉ deleted → ∃ m' ∈ tables.db.messages, m'.id = m.id) :
    Sane plan (write deleted tables s) := by
  set t := ExportRuns.write deleted tables s with ht
  have hmade : ∀ i, t.made i =
      if s.tables.db.messages.any (fun m => m.id = i) ∧ i ∉ deleted then s.made i else s.now :=
    fun i => rfl
  have hholds : ∀ k : Key, k.made < s.now → (t.Holds k ↔ s.Holds k ∧ k.id ∉ deleted) :=
    fun k hk => holds_write hkept hk
  have hrows : ∀ r, t.rows r = (s.rows r).map (emptied deleted) := by
    intro r
    have hexport : ∀ e, (emptied deleted e).exportId = e.exportId := by
      intro e
      unfold emptied
      split <;> rfl
    unfold State.rows
    rw [ht]
    unfold ExportRuns.write
    simp only [List.filter_map, Function.comp_def, hexport]
  constructor
  · exact h.runs
  · intro m hm
    rw [hmade]
    split
    · next hold =>
      obtain ⟨m', hm', hid⟩ := List.any_eq_true.mp hold.1
      rw [← of_decide_eq_true hid]
      exact Nat.lt_succ_of_lt (h.dated m' hm')
    · exact Nat.lt_succ_self _
  · exact fun r k hk => Nat.lt_succ_of_lt (h.listed_dated r k hk)
  · exact h.listed_once
  · exact h.listed_fits
  · intro r hno
    obtain ⟨hnone, hlisted⟩ := h.unlisted r hno
    rw [hrows, hnone]
    exact ⟨rfl, hlisted⟩
  · exact h.counted
  · intro run hrun hrunning
    rw [hrows, h.places run hrun hrunning, List.map_map]
    refine List.map_congr_left fun q hq => ?_
    have hdated := h.listed_dated run.id q.1 (List.fst_mem_of_mem_zipIdx hq)
    unfold Function.comp State.place emptied
    simp only
    by_cases hold : s.Holds q.1
    · rw [if_pos hold]
      by_cases hgone : q.1.id ∈ deleted
      · have hnot : ¬ t.Holds q.1 := fun hnew => ((hholds q.1 hdated).mp hnew).2 hgone
        rw [if_neg hnot, Option.any_some, if_pos (decide_eq_true hgone)]
      · rw [if_pos ((hholds q.1 hdated).mpr ⟨hold, hgone⟩), Option.any_some,
          if_neg (fun hd => hgone (of_decide_eq_true hd))]
    · have hnot : ¬ t.Holds q.1 := fun hnew => hold ((hholds q.1 hdated).mp hnew).1
      rw [if_neg hold, if_neg hnot]
      rfl
  · intro n
    refine (h.clients n).mono rfl (fun k hk hnew => ?_) (List.Subset.refl _) id
    exact ((hholds k (h.listed_dated _ k hk)).mp hnew).1

/-- The runs changed one by one, and nothing else. -/
theorem Sane.mapRuns (h : Sane plan s) {f : ExportRun → ExportRun}
    (hsize : ∀ run, (f run).size = run.size)
    (hstatus : ∀ run, (f run).status = .running → run.status = .running)
    (hdelivered : ∀ run ∈ s.exports, (f run).messagesDelivered ≤ run.messageCount) :
    Sane plan { s with exports := s.exports.map f } := by
  have hsizes : (s.exports.map f).map ExportRun.size = s.exports.map ExportRun.size := by
    rw [List.map_map]
    exact List.map_congr_left fun run _ => hsize run
  have hid : ∀ run, (f run).id = run.id := fun run => congrArg Prod.fst (hsize run)
  have hcount : ∀ run, (f run).messageCount = run.messageCount := fun run =>
    congrArg Prod.snd (hsize run)
  constructor
  · have hids : (s.exports.map f).map ExportRun.id = s.exports.map ExportRun.id := by
      rw [List.map_map]
      exact List.map_congr_left fun run _ => hid run
    simp only [hids]
    exact h.runs
  · exact h.dated
  · exact h.listed_dated
  · exact h.listed_once
  · exact h.listed_fits
  · intro r hno
    refine h.unlisted r fun run hrun hrunid => ?_
    exact hno (f run) (List.mem_map_of_mem hrun) ((hid run).trans hrunid)
  · intro run' hrun'
    obtain ⟨run, hrun, rfl⟩ := List.mem_map.mp hrun'
    rw [hid, hcount]
    exact ⟨(h.counted run hrun).1, hdelivered run hrun⟩
  · intro run' hrun' hrunning
    obtain ⟨run, hrun, rfl⟩ := List.mem_map.mp hrun'
    rw [hid]
    exact h.places run hrun (hstatus run hrunning)
  · refine fun n => (h.clients n).mono rfl (fun _ _ hk => hk) ?_ ?_
    · exact fun x hx => hsizes.symm ▸ hx
    · rintro ⟨run', hrun', hrunid, hrunning⟩
      obtain ⟨run, hrun, rfl⟩ := List.mem_map.mp hrun'
      exact ⟨run, hrun, (hid run).symm.trans hrunid, hstatus run hrunning⟩

/-- The list of a run that is not running deleted. -/
theorem Sane.dropRows (h : Sane plan s) {r : Int} (hclosed : ¬ s.Running r) :
    Sane plan { s with exportMessages := s.exportMessages.filter (fun e => e.exportId ≠ r) } := by
  have hrows : ∀ r', (s.exportMessages.filter (fun e => e.exportId ≠ r)).filter
      (fun e => e.exportId = r') = if r' = r then [] else s.rows r' := by
    intro r'
    rw [List.filter_filter]
    split
    · next heq =>
      refine List.filter_eq_nil_iff.mpr fun e _ => ?_
      rw [heq]
      simp
    · next hne =>
      unfold State.rows
      refine List.filter_congr fun e _ => ?_
      rw [← Bool.decide_and]
      exact decide_eq_decide.mpr ⟨fun he => he.1, fun he => ⟨he, fun her => hne (he.symm.trans her)⟩⟩
  constructor
  · exact h.runs
  · exact h.dated
  · exact h.listed_dated
  · exact h.listed_once
  · exact h.listed_fits
  · intro r' hno
    refine ⟨(hrows r').trans ?_, (h.unlisted r' hno).2⟩
    split
    · rfl
    · exact (h.unlisted r' hno).1
  · exact h.counted
  · intro run hrun hrunning
    refine (hrows run.id).trans ?_
    rw [if_neg fun heq => hclosed ⟨run, hrun, heq, hrunning⟩]
    exact h.places run hrun hrunning
  · exact fun n => (h.clients n).mono rfl (fun _ _ hk => hk) (List.Subset.refl _) id

theorem run_unique (h : Sane plan s) {run run' : ExportRun} (hrun : run ∈ s.exports)
    (hrun' : run' ∈ s.exports) (hid : run.id = run'.id) : run = run' :=
  List.inj_on_of_nodup_map h.runs hrun hrun' hid

/-- **A run closed.** -/
theorem Sane.finishExport (h : Sane plan s) {accountId exportId : Int} {status : ExportStatus}
    (hstatus : status ≠ .running) :
    Sane plan (finishExport accountId exportId status s).1 := by
  unfold ExportRuns.finishExport
  split
  · next hany =>
    have hclosed := h.mapRuns (f := fun run =>
      if run.id = exportId ∧ run.accountId = accountId ∧ run.status = .running then
        { run with status := status } else run)
      (fun run => by split <;> rfl)
      (fun run => by
        split
        · exact fun heq => absurd heq hstatus
        · exact id)
      (fun run hrun => by
        split <;> exact (h.counted run hrun).2)
    refine hclosed.dropRows ?_
    rintro ⟨run', hrun', hid, hrunning⟩
    obtain ⟨run, hrun, rfl⟩ := List.mem_map.mp hrun'
    obtain ⟨open_, hopen, hthis⟩ := List.any_eq_true.mp hany
    obtain ⟨hoid, hoacc, horun⟩ := of_decide_eq_true hthis
    by_cases hsame : run.id = exportId ∧ run.accountId = accountId ∧ run.status = .running
    · rw [if_pos hsame] at hrunning
      exact hstatus hrunning
    · rw [if_neg hsame] at hid
      rw [run_unique h hrun hopen (hid.trans hoid.symm)] at hsame
      exact hsame ⟨hoid, hoacc, horun⟩
  · exact h

/-- **A page recorded.** -/
theorem Sane.recordPage (h : Sane plan s) {total : Nat} (hr : Ready s p c total) :
    Sane plan (recordPage p c total s).1 := by
  have hle : (sqlInt (reached total c.offset p.limit) : Int) ≤ total := by
    unfold sqlInt reached
    split <;> omega
  refine h.mapRuns (fun run => ?_) (fun run => ?_) (fun run hrun => ?_)
  · split <;> rfl
  · split <;> exact id
  · have hcount := (h.counted run hrun).2
    split
    · next hthis =>
      simp only
      split
      · obtain ⟨run', hrun', hid', htotal⟩ := mem_size_iff.mp hr.run
        rw [run_unique h hrun hrun' (hthis.1.trans hid'.symm), htotal]
        exact hle
      · exact hcount
    · exact hcount

end steps

/-! A run is created. -/

section create
variable {plan : Nat → Plan} {s s' : State} {accountId exportId : Int}
  {filter : MessagePages.Message → Bool}

/-- The joins keep each message once. -/
theorem map_row_messagesFrom_tables (tables : Tables) :
    (messagesFrom tables.db).map MessagePages.Message.row = tables.db.messages := by
  have hall : ∀ m ∈ tables.db.messages,
      tables.db.conversations.any (fun c => c.id = m.conversationId) = true := by
    intro m hm
    obtain ⟨c, hc, hid⟩ := tables.conversation m hm
    exact List.any_eq_true.mpr ⟨c, hc, decide_eq_true hid⟩
  have hjoined : ∀ m : MessagePages.MessageRow,
      tables.db.conversations.any (fun c => c.id = m.conversationId) →
      ∃ c ∈ tables.db.conversations, c.id = m.conversationId := fun m hm =>
    (List.any_eq_true.mp hm).imp fun c hc => ⟨hc.1, of_decide_eq_true hc.2⟩
  have hmap := map_row_messagesFrom hjoined
  rw [List.filter_eq_self.mpr hall, List.filter_eq_self.mpr] at hmap
  · exact hmap
  · intro r hr
    obtain ⟨m, hm, hr⟩ := List.mem_flatMap.mp hr
    rw [row_of_mem_joinRow hr]
    exact hall m hm

/-- What a run lists. -/
def keysOf (filter : MessagePages.Message → Bool) (s : State) : List Key :=
  (matching filter s).map (fun r => ⟨r.id, s.made r.id⟩)

theorem holds_of_mem_keysOf {k : Key} (hk : k ∈ keysOf filter s) : s.Holds k := by
  obtain ⟨r, hr, rfl⟩ := List.mem_map.mp hk
  have hfrom := (List.mem_filter.mp (Keyset.mem_orderBy.mp hr)).1
  refine ⟨⟨r.row, ?_, rfl⟩, rfl⟩
  rw [← map_row_messagesFrom_tables s.tables]
  exact List.mem_map_of_mem hfrom

theorem perm_matching (filter : MessagePages.Message → Bool) (s : State) :
    (matching filter s).Perm ((messagesFrom s.tables.db).filter filter) := Keyset.perm_orderBy

theorem nodup_keysOf (filter : MessagePages.Message → Bool) (s : State) :
    (keysOf filter s).Nodup := by
  refine List.Nodup.of_map Key.id ?_
  have hids : (keysOf filter s).map Key.id = (matching filter s).map MessagePages.Message.id := by
    unfold keysOf
    rw [List.map_map]
    rfl
  have hall : (messagesFrom s.tables.db).map MessagePages.Message.id =
      s.tables.db.messages.map MessagePages.MessageRow.id := by
    rw [← map_row_messagesFrom_tables s.tables, List.map_map]
    rfl
  rw [hids, ((perm_matching filter s).map _).nodup_iff]
  refine List.Nodup.sublist (List.filter_sublist.map _) ?_
  rw [hall]
  exact s.tables.db.messageIds

theorem length_keysOf_lt (filter : MessagePages.Message → Bool) (s : State) :
    (keysOf filter s).length < 2 ^ 63 := by
  have hle : (keysOf filter s).length ≤ s.tables.db.messages.length := by
    unfold keysOf
    rw [List.length_map, (perm_matching filter s).length_eq, ← map_row_messagesFrom_tables s.tables,
      List.length_map]
    exact List.length_filter_le _ _
  exact lt_of_le_of_lt hle s.tables.db.counted

/-- Each place of a new list has its message. -/
theorem rows_matching (filter : MessagePages.Message → Bool) (exportId : Int) (s : State) :
    (matching filter s).zipIdx.map (fun r =>
        (⟨exportId, (r.2 : Int) + 1, some r.1.id⟩ : ExportMessage)) =
      (keysOf filter s).zipIdx.map (s.place exportId) := by
  unfold keysOf
  rw [List.zipIdx_map, List.map_map]
  refine List.map_congr_left fun r hr => ?_
  have hmem : (⟨r.1.id, s.made r.1.id⟩ : Key) ∈ keysOf filter s :=
    List.mem_map_of_mem (List.fst_mem_of_mem_zipIdx hr)
  unfold Function.comp State.place Prod.map
  rw [if_pos (holds_of_mem_keysOf hmem)]
  rfl

/-- Every place of a list whose messages are there is counted. -/
theorem length_messagesAt {ps : List (Key × Nat)} (h : ∀ p ∈ ps, s.Holds p.1) :
    ((ps.map (s.place exportId)).flatMap (messagesAt s)).length = ps.length := by
  induction ps with
  | nil => rfl
  | cons p ps ih =>
    obtain ⟨m, -, -, hat⟩ : ∃ m ∈ s.tables.db.messages, m.id = p.1.id ∧
      messagesAt s (s.place exportId p) = [m] := messagesAt_place (h p List.mem_cons_self)
    rw [List.map_cons, List.flatMap_cons, hat, List.length_append, ih fun q hq =>
      h q (List.mem_cons_of_mem _ hq), List.length_cons, List.length_cons, List.length_nil]
    omega

theorem exportMessages_startExportRun (accountId exportId : Int) (filter : MessagePages.Message → Bool)
    (s : State) : (startExportRun accountId exportId filter s).exportMessages =
      s.exportMessages ++ (keysOf filter s).zipIdx.map (s.place exportId) := by
  rw [← rows_matching]
  rfl

theorem exports_startExportRun (h : Sane plan s) (hnew : ∀ run ∈ s.exports, run.id ≠ exportId) :
    (startExportRun accountId exportId filter s).exports =
      s.exports ++ [⟨exportId, accountId, .running, (keysOf filter s).length, 0⟩] := by
  have hcounts : exportCounts exportId
      (listRunMessages exportId filter (startExport accountId exportId s)) =
        (keysOf filter s).length := by
    have hrows : (listRunMessages exportId filter (startExport accountId exportId s)).exportMessages.filter
        (fun e => e.exportId = exportId) = (keysOf filter s).zipIdx.map (s.place exportId) := by
      have hold : s.exportMessages.filter (fun e => e.exportId = exportId) = [] :=
        (h.unlisted exportId hnew).1
      have happend : (listRunMessages exportId filter
          (startExport accountId exportId s)).exportMessages = _ :=
        exportMessages_startExportRun accountId exportId filter s
      rw [happend, List.filter_append, hold, List.nil_append, List.filter_map]
      exact congrArg _ (List.filter_eq_self.mpr fun p _ => decide_eq_true rfl)
    unfold exportCounts
    rw [hrows]
    have hall : ∀ p ∈ (keysOf filter s).zipIdx, s.Holds p.1 := fun p hp =>
      holds_of_mem_keysOf (List.fst_mem_of_mem_zipIdx hp)
    have hlength : (((keysOf filter s).zipIdx.map (s.place exportId)).flatMap
        (messagesAt s)).length = (keysOf filter s).zipIdx.length := length_messagesAt hall
    rw [List.length_zipIdx] at hlength
    have hsame : (((keysOf filter s).zipIdx.map (s.place exportId)).flatMap
        (messagesAt (listRunMessages exportId filter (startExport accountId exportId s)))).length =
          (keysOf filter s).length := hlength
    rw [hsame]
    omega
  unfold startExportRun
  simp only
  rw [hcounts]
  unfold recordCounts
  simp only
  have hexports : (listRunMessages exportId filter (startExport accountId exportId s)).exports =
      s.exports ++ [⟨exportId, accountId, .running, 0, 0⟩] := rfl
  rw [hexports, List.map_append]
  congr 1
  · refine (List.map_congr_left fun run hrun => ?_).trans (List.map_id _)
    exact if_neg (hnew run hrun)
  · rw [List.map_singleton, if_pos rfl]

/-- **A run created.** -/
theorem Sane.startExportRun (h : Sane plan s) (hnew : ∀ run ∈ s.exports, run.id ≠ exportId) :
    Sane plan (startExportRun accountId exportId filter s) := by
  set t := ExportRuns.startExportRun accountId exportId filter s with ht
  have hexports : t.exports = s.exports ++ [⟨exportId, accountId, .running, (keysOf filter s).length, 0⟩] :=
    exports_startExportRun h hnew
  have hlisted : ∀ r, t.listed r = if r = exportId then keysOf filter s else s.listed r :=
    fun r => Function.update_apply _ _ _ _
  have hrows : ∀ r, t.rows r = if r = exportId then (keysOf filter s).zipIdx.map (s.place exportId)
      else s.rows r := by
    intro r
    unfold State.rows
    rw [ht, exportMessages_startExportRun, List.filter_append, List.filter_map]
    split
    · next heq =>
      have hold : s.exportMessages.filter (fun e => e.exportId = r) = [] :=
        (h.unlisted r (heq ▸ hnew)).1
      rw [hold, List.nil_append]
      exact congrArg _ (List.filter_eq_self.mpr fun p _ => decide_eq_true heq.symm)
    · next hne =>
      have hnone : (keysOf filter s).zipIdx.filter ((fun e => decide (e.exportId = r)) ∘
          s.place exportId) = [] :=
        List.filter_eq_nil_iff.mpr fun p _ hp => hne (of_decide_eq_true hp).symm
      rw [hnone, List.map_nil, List.append_nil]
  have hcases : ∀ run ∈ t.exports, run ∈ s.exports ∨
      run = ⟨exportId, accountId, .running, (keysOf filter s).length, 0⟩ := by
    intro run hrun
    rw [hexports] at hrun
    exact (List.mem_append.mp hrun).imp id List.mem_singleton.mp
  have hsubset : s.exports ⊆ t.exports := by
    rw [hexports]
    exact List.subset_append_left _ _
  constructor
  · rw [hexports, List.map_append, List.map_singleton]
    refine h.runs.append (List.nodup_singleton _) ?_
    rw [List.disjoint_singleton]
    intro hmem
    obtain ⟨run, hrun, hid⟩ := List.mem_map.mp hmem
    exact hnew run hrun hid
  · exact h.dated
  · intro r k hk
    rw [hlisted] at hk
    split at hk
    · obtain ⟨⟨m, hm, hid⟩, hmade⟩ := holds_of_mem_keysOf hk
      rw [← hmade, ← hid]
      exact h.dated m hm
    · exact h.listed_dated r k hk
  · intro r
    rw [hlisted]
    split
    · exact nodup_keysOf filter s
    · exact h.listed_once r
  · intro r
    rw [hlisted]
    split
    · exact length_keysOf_lt filter s
    · exact h.listed_fits r
  · intro r hno
    have hne : r ≠ exportId := by
      intro heq
      refine hno ⟨exportId, accountId, .running, (keysOf filter s).length, 0⟩ ?_ heq.symm
      rw [hexports]
      exact List.mem_append_right _ List.mem_cons_self
    rw [hrows, hlisted, if_neg hne, if_neg hne]
    exact h.unlisted r fun run hrun => hno run (hsubset hrun)
  · intro run hrun
    rcases hcases run hrun with hold | rfl
    · rw [hlisted, if_neg (hnew run hold)]
      exact h.counted run hold
    · rw [hlisted, if_pos rfl]
      exact ⟨rfl, Int.natCast_nonneg _⟩
  · intro run hrun hrunning
    rcases hcases run hrun with hold | rfl
    · rw [hrows, hlisted, if_neg (hnew run hold), if_neg (hnew run hold)]
      exact h.places run hold hrunning
    · rw [hrows, hlisted, if_pos rfl, if_pos rfl]
      rfl
  · intro n
    have hc := h.clients n
    by_cases heq : (plan n).exportId = exportId
    · -- The client has asked for a run that was not there.
      have hnone : ∀ run ∈ s.exports, run.id ≠ (plan n).exportId := heq ▸ hnew
      obtain ⟨hoffset, hphase⟩ := hc.fresh hnone
      have hreceived : (s.clients n).received.map Item.key = [] := by
        have hcovers := hc.asked hphase
        rw [hoffset] at hcovers
        exact hcovers.eq_nil
      have hnotReady : ∀ total, ¬ Ready s (plan n) (s.clients n) total := by
        intro total hr
        obtain ⟨run, hrun, hid, -⟩ := mem_size_iff.mp hr.run
        exact hnone run hrun hid
      constructor
      · exact hc.start_le
      · exact fun _ => ⟨hoffset, hphase⟩
      · intro _
        have hnil : (t.clients n).received.map Item.key = [] := hreceived
        have hstart : (t.clients n).offset = (plan n).start := hoffset
        rw [hnil, hstart]
        exact Covers.none _ _ _
      · exact fun hdone => absurd hdone hphase
      · exact fun total hcounted => absurd (hc.counted total hcounted) (hnotReady total)
      · exact fun total items hloaded => absurd (hc.loaded total items hloaded).1 (hnotReady total)
    · refine hc.mono ?_ (fun _ _ hk => hk) (List.map_subset _ hsubset) ?_
      · rw [hlisted, if_neg heq]
      · rintro ⟨run, hrun, hid, hrunning⟩
        rcases hcases run hrun with hold | rfl
        · exact ⟨run, hold, hid, hrunning⟩
        · exact absurd hid.symm heq

end create

/-! A client's request. -/

section request
variable {plan : Nat → Plan} {s s' : State} {p : Plan} {c : Client} {total : Nat}

theorem pageParams_ok {limit offset : Nat} (h : pageParams limit offset = .ok ()) :
    0 < limit ∧ limit ≤ maxListLimit ∧ offset < 2 ^ 63 := by
  unfold pageParams at h
  split at h
  · cases h
  · split at h
    · cases h
    · split at h
      · cases h
      · omega

theorem runningExport_ok {accountId exportId : Int} {run : ExportRun}
    (h : runningExport accountId exportId s = .ok run) :
    run ∈ s.exports ∧ run.id = exportId ∧ run.status = .running := by
  unfold runningExport ownedExport at h
  cases hfind : getExport accountId exportId s with
  | none =>
    rw [hfind] at h
    cases h
  | some found =>
    rw [hfind] at h
    by_cases hstatus : found.status = .running
    · have hrun : (Except.ok found : Except ApiError ExportRun) = .ok run := by
        simpa [hstatus, bind, Except.bind, pure, Except.pure] using h
      cases hrun
      unfold getExport at hfind
      have hfound := List.find?_some hfind
      exact ⟨List.mem_of_find?_eq_some hfind, (of_decide_eq_true hfound).1, hstatus⟩
    · simp [hstatus, bind, Except.bind, throw, throwThe, MonadExceptOf.throw] at h

theorem lookUp_cases (p : Plan) (c : Client) (s : State) :
    (∃ error, lookUp p c s = .refused error) ∨ ∃ run, pageParams p.limit c.offset = .ok () ∧
      runningExport p.accountId p.exportId s = .ok run ∧
        lookUp p c s = .counted run.messageCount.toNat := by
  unfold lookUp
  cases hparams : pageParams p.limit c.offset with
  | error error => exact .inl ⟨error, rfl⟩
  | ok =>
    cases hrun : runningExport p.accountId p.exportId s with
    | error error => exact .inl ⟨error, rfl⟩
    | ok run => exact .inr ⟨run, rfl, rfl, rfl⟩

/-- A run that is found has as many places as it listed. -/
theorem ready_lookUp (h : Sane plan s) {run : ExportRun}
    (hparams : pageParams p.limit c.offset = .ok ())
    (hrun : runningExport p.accountId p.exportId s = .ok run) :
    Ready s p c run.messageCount.toNat := by
  obtain ⟨hmem, hid, -⟩ := runningExport_ok hrun
  obtain ⟨hpos, hle, hlt⟩ := pageParams_ok hparams
  obtain ⟨hcount, -⟩ := h.counted run hmem
  have hnat : (run.messageCount.toNat : Int) = run.messageCount := by omega
  refine ⟨mem_size_iff.mpr ⟨run, hmem, hid, hnat.symm⟩, ?_, hpos, hle, hlt⟩
  rw [← hid]
  omega

/-- **A page loaded.** -/
theorem covers_load (h : Sane plan s) (hr : Ready s p c total) (hrunning : s.Running p.exportId) :
    Covers s (s.list p) c.offset (c.offset + p.limit) ((load p c total s).map Item.key) := by
  obtain ⟨run, hrun, hid, hstatus⟩ := hrunning
  have hrows := h.places run hrun hstatus
  rw [hid] at hrows
  rw [hr.total_eq]
  exact covers_page (keys_load hrows (h.listed_fits _) hr.offset_lt hr.limit_le)

theorem nextOffset_some {offset limit next : Nat} (h : nextOffset offset limit total = some next)
    (htotal : total < 2 ^ 64) : next = offset + limit ∧ next < total ∧ 0 < limit := by
  unfold nextOffset at h
  split at h
  · cases h
  · simp only at h
    split at h
    · cases h
      omega
    · cases h

theorem nextOffset_none {offset limit : Nat} (h : nextOffset offset limit total = none)
    (hlimit : 0 < limit) (htotal : total < 2 ^ 64) : total ≤ offset + limit := by
  unfold nextOffset at h
  split at h
  · omega
  · simp only at h
    split at h
    · cases h
    · omega

/-- **A page received.** -/
theorem ClientSane.receive (hc : ClientSane s p c) (hfits : (s.listed p.exportId).length < 2 ^ 63)
    {items : List Item} (hphase : c.phase = .loaded total items)
    (hrunning : s.Running p.exportId) : ClientSane s p (receive p c total items) := by
  obtain ⟨hr, hcovers⟩ := hc.loaded total items hphase
  have hnotDone : c.phase ≠ .done := by
    rw [hphase]
    exact Phase.noConfusion
  have hboth : Covers s (s.list p) p.start (c.offset + p.limit)
      ((c.received ++ items).map Item.key) := by
    rw [List.map_append]
    exact (hc.asked hnotDone).append (hcovers hrunning) hc.start_le (Nat.le_add_right _ _)
  have hrun : ¬ ∀ run ∈ s.exports, run.id ≠ p.exportId := by
    intro hno
    obtain ⟨run, hmem, hid, -⟩ := hrunning
    exact hno run hmem hid
  have htotal : total < 2 ^ 64 := by
    have := hr.total_eq
    omega
  unfold ExportRuns.receive
  cases hnext : nextOffset c.offset p.limit total with
  | some next =>
    obtain ⟨rfl, -, -⟩ := nextOffset_some hnext htotal
    constructor
    · exact Nat.le_add_right_of_le hc.start_le
    · exact fun hno => absurd hno hrun
    · exact fun _ => hboth
    · exact Phase.noConfusion
    · exact fun total => Phase.noConfusion
    · exact fun total items => Phase.noConfusion
  | none =>
    have hle := nextOffset_none hnext hr.limit_pos htotal
    constructor
    · exact hc.start_le
    · exact fun hno => absurd hno hrun
    · exact fun hdone => absurd rfl hdone
    · refine fun _ => hboth.whole ?_
      unfold State.list
      rw [length_inOrder, ← hr.total_eq]
      exact hle
    · exact fun total => Phase.noConfusion
    · exact fun total items => Phase.noConfusion

theorem recordPage_running (h : (recordPage p c total s).2 = true) : s.Running p.exportId := by
  obtain ⟨run, hrun, hthis⟩ := List.any_eq_true.mp h
  obtain ⟨hid, -, hstatus⟩ := of_decide_eq_true hthis
  exact ⟨run, hrun, hid, hstatus⟩

/-- **One step.** -/
theorem Sane.next (h : Sane plan s) {e : Event} (hstep : next plan s e = some s') :
    Sane plan s' := by
  cases e with
  | write deleted tables =>
    simp only [ExportRuns.next] at hstep
    split at hstep
    · next hkept =>
      cases hstep
      exact h.write hkept
    · cases hstep
  | trash i =>
    cases hstep
    exact h.setTrashed _
  | restore i =>
    cases hstep
    exact h.setTrashed _
  | create accountId exportId filter =>
    simp only [ExportRuns.next] at hstep
    split at hstep
    · cases hstep
    · next hnew =>
      cases hstep
      refine h.startExportRun fun run hrun hid => hnew ?_
      exact List.any_eq_true.mpr ⟨run, hrun, decide_eq_true hid⟩
  | close accountId exportId status =>
    simp only [ExportRuns.next] at hstep
    split at hstep
    · cases hstep
    · next hstatus =>
      cases hstep
      exact h.finishExport hstatus
  | lookUp n =>
    simp only [ExportRuns.next] at hstep
    split at hstep
    · next hasking =>
      cases hstep
      have hnotDone : (s.clients n).phase ≠ .done := by
        rw [hasking]
        exact Phase.noConfusion
      refine h.setClient ?_
      rcases lookUp_cases (plan n) (s.clients n) s with ⟨error, hrefused⟩ | ⟨run, hparams, hrun, hcounted⟩
      · rw [hrefused]
        exact (h.clients n).refuse hnotDone error
      · rw [hcounted]
        refine (h.clients n).rephase hnotDone Phase.noConfusion (fun total htotal => ?_)
          (fun _ _ => Phase.noConfusion)
        cases htotal
        exact ready_lookUp h hparams hrun
    · cases hstep
  | load n =>
    simp only [ExportRuns.next] at hstep
    split at hstep
    · next total hcounted =>
      cases hstep
      have hnotDone : (s.clients n).phase ≠ .done := by
        rw [hcounted]
        exact Phase.noConfusion
      have hr := (h.clients n).counted total hcounted
      refine h.setClient ((h.clients n).rephase hnotDone Phase.noConfusion
        (fun _ => Phase.noConfusion) (fun total' items hloaded => ?_))
      cases hloaded
      exact ⟨hr, covers_load h hr⟩
    · cases hstep
  | answer n =>
    simp only [ExportRuns.next] at hstep
    split at hstep
    · next total items hloaded =>
      have hr := ((h.clients n).loaded total items hloaded).1
      have hnotDone : (s.clients n).phase ≠ .done := by
        rw [hloaded]
        exact Phase.noConfusion
      split at hstep
      · next hrunning =>
        cases hstep
        have hset := h.setClient ((h.clients n).receive (h.listed_fits _) hloaded
          (recordPage_running hrunning))
        exact hset.recordPage (p := plan n) (c := s.clients n)
          ⟨hr.run, hr.total_eq, hr.limit_pos, hr.limit_le, hr.offset_lt⟩
      · cases hstep
        have hset := fun error => h.setClient ((h.clients n).refuse hnotDone error)
        exact (hset _).recordPage (p := plan n) (c := s.clients n)
          ⟨hr.run, hr.total_eq, hr.limit_pos, hr.limit_le, hr.offset_lt⟩
    · cases hstep
  | lose n recorded =>
    simp only [ExportRuns.next] at hstep
    split at hstep
    · cases hstep
    · next total items hloaded =>
      have hr := ((h.clients n).loaded total items hloaded).1
      have hnotDone : (s.clients n).phase ≠ .done := by
        rw [hloaded]
        exact Phase.noConfusion
      have hset := h.setClient ((h.clients n).ask hnotDone)
      cases hstep
      cases recorded with
      | false => exact hset
      | true =>
        exact hset.recordPage (p := plan n) (c := s.clients n)
          ⟨hr.run, hr.total_eq, hr.limit_pos, hr.limit_le, hr.offset_lt⟩
    · next hnotDone _ =>
      cases hstep
      exact h.setClient ((h.clients n).ask hnotDone)

end request

/-! What a step does to a run. -/

section steady
variable {plan : Nat → Plan} {s s' : State} {p : Plan} {c : Client} {total : Nat} {e : Event}

/-- A run after a step. -/
structure ExportRun.Then (run run' : ExportRun) : Prop where
  id_eq : run'.id = run.id
  messageCount_eq : run'.messageCount = run.messageCount
  delivered_le : run.messagesDelivered ≤ run'.messagesDelivered
  closed : run.status ≠ .running → run' = run

theorem ExportRun.Then.refl (run : ExportRun) : run.Then run := ⟨rfl, rfl, le_refl _, fun _ => rfl⟩

theorem recordPage_exports (p : Plan) (c : Client) (total : Nat) (s : State) :
    ∀ run ∈ s.exports, ∃ run' ∈ (recordPage p c total s).1.exports, run.Then run' := by
  intro run hrun
  refine ⟨_, List.mem_map_of_mem hrun, ?_⟩
  split
  · next hthis =>
    refine ⟨rfl, rfl, ?_, fun hclosed => absurd hthis.2.2 hclosed⟩
    simp only
    split <;> omega
  · exact .refl run

/-- **The runs after a step.** -/
theorem next_exports (h : Sane plan s) (hstep : next plan s e = some s') :
    ∀ run ∈ s.exports, (∃ run' ∈ s'.exports, run.Then run') ∧ s'.listed run.id = s.listed run.id := by
  intro run hrun
  have hself : ∃ run' ∈ s.exports, run.Then run' := ⟨run, hrun, .refl run⟩
  cases e with
  | write deleted tables =>
    simp only [next] at hstep
    split at hstep
    · cases hstep
      exact ⟨hself, rfl⟩
    · cases hstep
  | trash i =>
    cases hstep
    exact ⟨hself, rfl⟩
  | restore i =>
    cases hstep
    exact ⟨hself, rfl⟩
  | create accountId exportId filter =>
    simp only [next] at hstep
    split at hstep
    · cases hstep
    · next hany =>
      cases hstep
      have hnew : ∀ run ∈ s.exports, run.id ≠ exportId := fun run hrun hid =>
        hany (List.any_eq_true.mpr ⟨run, hrun, decide_eq_true hid⟩)
      refine ⟨⟨run, ?_, .refl run⟩, Function.update_of_ne (hnew run hrun) _ _⟩
      rw [exports_startExportRun h hnew]
      exact List.mem_append_left _ hrun
  | close accountId exportId status =>
    simp only [next] at hstep
    split at hstep
    · cases hstep
    · cases hstep
      unfold finishExport
      split
      · refine ⟨⟨_, List.mem_map_of_mem hrun, ?_⟩, rfl⟩
        split
        · next hthis => exact ⟨rfl, rfl, le_refl _, fun hclosed => absurd hthis.2.2 hclosed⟩
        · exact .refl run
      · exact ⟨hself, rfl⟩
  | lookUp n =>
    simp only [next] at hstep
    split at hstep
    · cases hstep
      exact ⟨hself, rfl⟩
    · cases hstep
  | load n =>
    simp only [next] at hstep
    split at hstep
    · cases hstep
      exact ⟨hself, rfl⟩
    · cases hstep
  | answer n =>
    simp only [next] at hstep
    split at hstep
    · next total items hloaded =>
      have hrecorded := recordPage_exports (plan n) (s.clients n) total s run hrun
      split at hstep
      · cases hstep
        exact ⟨hrecorded, rfl⟩
      · cases hstep
        exact ⟨hrecorded, rfl⟩
    · cases hstep
  | lose n recorded =>
    simp only [next] at hstep
    split at hstep
    · cases hstep
    · next total items hloaded =>
      cases hstep
      cases recorded with
      | false => exact ⟨hself, rfl⟩
      | true => exact ⟨recordPage_exports (plan n) (s.clients n) total s run hrun, rfl⟩
    · cases hstep
      exact ⟨hself, rfl⟩

/-- What a client has after a step in which no page arrives. -/
def Client.Waits (c c' : Client) : Prop :=
  c'.received = c.received ∧ (c'.phase = .done → c.phase = .done)

theorem waits_setClient {n : Nat} (h : (s.clients n).Waits c) (m : Nat) :
    (s.clients m).Waits ((s.setClient n c).clients m) := by
  have hset : (s.setClient n c).clients m = if m = n then c else s.clients m := by
    unfold State.setClient
    exact Function.update_apply _ _ _ _
  rw [hset]
  split
  · next heq =>
    rw [heq]
    exact h
  · exact ⟨rfl, id⟩

theorem waits_rephase {phase : Phase} (h : phase ≠ .done) : c.Waits { c with phase := phase } :=
  ⟨rfl, fun hdone => absurd hdone h⟩

/-- **A page arrives from a run that is running only.** -/
theorem next_received (hstep : next plan s e = some s') (m : Nat) :
    s.Running (plan m).exportId ∨ (s.clients m).Waits (s'.clients m) := by
  have hself : (s.clients m).Waits (s.clients m) := ⟨rfl, id⟩
  cases e with
  | write deleted tables =>
    simp only [next] at hstep
    split at hstep
    · cases hstep
      exact .inr hself
    · cases hstep
  | trash i =>
    cases hstep
    exact .inr hself
  | restore i =>
    cases hstep
    exact .inr hself
  | create accountId exportId filter =>
    simp only [next] at hstep
    split at hstep
    · cases hstep
    · cases hstep
      exact .inr hself
  | close accountId exportId status =>
    simp only [next] at hstep
    split at hstep
    · cases hstep
    · cases hstep
      unfold finishExport
      split <;> exact .inr hself
  | lookUp n =>
    simp only [next] at hstep
    split at hstep
    · cases hstep
      refine .inr (waits_setClient (waits_rephase ?_) m)
      rcases lookUp_cases (plan n) (s.clients n) s with ⟨error, hrefused⟩ | ⟨run, -, -, hcounted⟩
      · rw [hrefused]
        exact Phase.noConfusion
      · rw [hcounted]
        exact Phase.noConfusion
    · cases hstep
  | load n =>
    simp only [next] at hstep
    split at hstep
    · cases hstep
      exact .inr (waits_setClient (waits_rephase Phase.noConfusion) m)
    · cases hstep
  | answer n =>
    simp only [next] at hstep
    split at hstep
    · next total items hloaded =>
      split at hstep
      · next hrunning =>
        cases hstep
        by_cases heq : m = n
        · rw [heq]
          exact .inl (recordPage_running hrunning)
        · refine .inr ?_
          have hother : ((recordPage (plan n) (s.clients n) total s).1.setClient n
              (receive (plan n) (s.clients n) total items)).clients m = s.clients m :=
            Function.update_of_ne heq _ _
          rw [hother]
          exact hself
      · cases hstep
        exact .inr (waits_setClient (s := s) (waits_rephase Phase.noConfusion) m)
    · cases hstep
  | lose n recorded =>
    simp only [next] at hstep
    split at hstep
    · cases hstep
    · cases hstep
      have hask : (s.clients n).Waits { s.clients n with phase := .asking } :=
        waits_rephase Phase.noConfusion
      have hwaits := waits_setClient hask m
      cases recorded with
      | false => exact .inr hwaits
      | true => exact .inr hwaits
    · cases hstep
      exact .inr (waits_setClient (waits_rephase Phase.noConfusion) m)

/-- **A message that is gone does not come back.** -/
theorem next_holds (h : Sane plan s) (hstep : next plan s e = some s') {r : Int} {k : Key}
    (hk : k ∈ s.listed r) (hholds : s'.Holds k) : s.Holds k := by
  cases e with
  | write deleted tables =>
    simp only [next] at hstep
    split at hstep
    · next hkept =>
      cases hstep
      exact ((holds_write hkept (h.listed_dated r k hk)).mp hholds).1
    · cases hstep
  | trash i =>
    cases hstep
    exact hholds
  | restore i =>
    cases hstep
    exact hholds
  | create accountId exportId filter =>
    simp only [next] at hstep
    split at hstep
    · cases hstep
    · cases hstep
      exact hholds
  | close accountId exportId status =>
    simp only [next] at hstep
    split at hstep
    · cases hstep
    · cases hstep
      unfold finishExport at hholds
      split at hholds <;> exact hholds
  | lookUp n =>
    simp only [next] at hstep
    split at hstep
    · cases hstep
      exact hholds
    · cases hstep
  | load n =>
    simp only [next] at hstep
    split at hstep
    · cases hstep
      exact hholds
    · cases hstep
  | answer n =>
    simp only [next] at hstep
    split at hstep
    · split at hstep
      · cases hstep
        exact hholds
      · cases hstep
        exact hholds
    · cases hstep
  | lose n recorded =>
    simp only [next] at hstep
    split at hstep
    · cases hstep
    · cases hstep
      cases recorded with
      | false => exact hholds
      | true => exact hholds
    · cases hstep
      exact hholds

/-- A run, its list and what clients have of it, after some steps. -/
structure Later (plan : Nat → Plan) (s s' : State) (run : ExportRun) : Prop where
  exports : ∃ run' ∈ s'.exports, run.Then run'
  listed_eq : s'.listed run.id = s.listed run.id
  gone : ∀ k ∈ s.listed run.id, s'.Holds k → s.Holds k
  closed : run.status ≠ .running → ∀ n, (plan n).exportId = run.id →
    (s.clients n).Waits (s'.clients n)

theorem later_next (h : Sane plan s) (hstep : next plan s e = some s') {run : ExportRun}
    (hrun : run ∈ s.exports) : Later plan s s' run := by
  obtain ⟨hexports, hlisted⟩ := next_exports h hstep run hrun
  refine ⟨hexports, hlisted, fun k hk => next_holds h hstep hk, fun hclosed n hid => ?_⟩
  refine (next_received hstep n).resolve_left ?_
  rintro ⟨run', hrun', hid', hrunning⟩
  rw [run_unique h hrun hrun' ((hid'.trans hid).symm)] at hclosed
  exact hclosed hrunning

theorem sane_run (h : Sane plan s) {es : List Event} (hrun : es.foldlM (next plan) s = some s') :
    Sane plan s' :=
  (Runs.run_of_foldlM hrun).keeps (fun _ _ _ hstep hs => hs.next hstep) h

/-- **After any number of steps.** -/
theorem later_run (h : Sane plan s) {es : List Event} (hrun : es.foldlM (next plan) s = some s')
    {run : ExportRun} (hmem : run ∈ s.exports) : Later plan s s' run := by
  have hsteps := Runs.run_of_foldlM hrun
  clear hrun
  induction hsteps generalizing run with
  | nil s => exact ⟨⟨run, hmem, .refl run⟩, rfl, fun _ _ hk => hk, fun _ _ _ => ⟨rfl, id⟩⟩
  | cons hstep hrest ih =>
    have hfirst := later_next h hstep hmem
    obtain ⟨run', hmem', hthen⟩ := hfirst.exports
    have hlater := ih (h.next hstep) hmem'
    have hid := hthen.id_eq
    obtain ⟨run'', hmem'', hthen'⟩ := hlater.exports
    refine ⟨⟨run'', hmem'', ?_⟩, ?_, ?_, ?_⟩
    · refine ⟨hthen'.id_eq.trans hid, hthen'.messageCount_eq.trans hthen.messageCount_eq,
        hthen.delivered_le.trans hthen'.delivered_le, fun hclosed => ?_⟩
      have hsame := hthen.closed hclosed
      exact (hthen'.closed (hsame ▸ hclosed)).trans hsame
    · exact (hid ▸ hlater.listed_eq).trans hfirst.listed_eq
    · intro k hk hholds
      refine hfirst.gone k hk (hlater.gone k ?_ hholds)
      rw [hid, hfirst.listed_eq]
      exact hk
    · intro hclosed n hn
      have hsame := hthen.closed hclosed
      have hone := hfirst.closed hclosed n hn
      have htwo := hlater.closed (hsame ▸ hclosed) n (hn.trans hid.symm)
      exact ⟨htwo.1.trans hone.1, fun hdone => hone.2 (htwo.2 hdone)⟩

end steady

/-! The page loop. -/

/-- The offsets that the page loop asks for, from one on. -/
inductive Offsets (limit total : Nat) : Nat → List Nat → Prop
  | last {offset : Nat} (h : nextOffset offset limit total = none) :
      Offsets limit total offset [offset]
  | more {offset next : Nat} {rest : List Nat} (h : nextOffset offset limit total = some next)
      (hrest : Offsets limit total next rest) : Offsets limit total offset (offset :: rest)

/-- **The page loop ends, and its pages cover every place.** -/
theorem exists_offsets {limit total : Nat} (hlimit : 0 < limit) (htotal : total < 2 ^ 64)
    (offset : Nat) : ∃ offsets, Offsets limit total offset offsets ∧
      ∀ i, offset ≤ i → i < total → ∃ o ∈ offsets, o ≤ i ∧ i < o + limit := by
  induction hleft : total - offset using Nat.strong_induction_on generalizing offset with
  | _ left ih =>
    cases hnext : nextOffset offset limit total with
    | none =>
      have hle := nextOffset_none hnext hlimit htotal
      exact ⟨[offset], .last hnext, fun i hi hi' => ⟨offset, List.mem_cons_self, hi, by omega⟩⟩
    | some next =>
      obtain ⟨rfl, hlt, -⟩ := nextOffset_some hnext htotal
      obtain ⟨rest, hrest, hcover⟩ := ih (total - (offset + limit)) (by omega) (offset + limit) rfl
      refine ⟨offset :: rest, .more hnext hrest, fun i hi hi' => ?_⟩
      by_cases hfirst : i < offset + limit
      · exact ⟨offset, List.mem_cons_self, hi, hfirst⟩
      · obtain ⟨o, ho, hoi⟩ := hcover i (by omega) hi'
        exact ⟨o, List.mem_cons_of_mem _ ho, hoi⟩

/-! Once. -/

section once
variable {plan : Nat → Plan} {s : State}

/-- What a client has of the list of its run. -/
structure HandedOver (s : State) (p : Plan) (c : Client) : Prop where
  /-- In the order of the list, or against it, and each message once. -/
  in_order : (c.received.map Item.key).Sublist (s.list p)
  once : (c.received.map Item.key).Nodup
  /-- A client that has come to the end from the start has all that is still there. -/
  all : c.phase = .done → p.start = 0 → ∀ k ∈ s.list p, s.Holds k → k ∈ c.received.map Item.key

theorem Sane.handedOver (h : Sane plan s) (n : Nat) : HandedOver s (plan n) (s.clients n) := by
  have hc := h.clients n
  have hlist : (s.list (plan n)).Nodup := by
    unfold State.list inOrder
    split
    · exact h.listed_once _
    · exact List.nodup_reverse.mpr (h.listed_once _)
  have hsub : ((s.clients n).received.map Item.key).Sublist (s.list (plan n)) := by
    by_cases hdone : (s.clients n).phase = .done
    · exact (hc.done hdone).1.trans ((List.drop_sublist _ _).trans (List.take_sublist _ _))
    · exact (hc.asked hdone).1.trans ((List.drop_sublist _ _).trans (List.take_sublist _ _))
  refine ⟨hsub, hlist.sublist hsub, fun hdone hstart k hk hholds => ?_⟩
  refine (hc.done hdone).2 k ?_ hholds
  rw [List.take_length, hstart, List.drop_zero]
  exact hk

/-- **An Export Run hands its list over once.** Of every client at any time, of every run from any
time on, and of the page loop. -/
theorem hands_over_once (plan : Nat → Plan) (tables : Tables) (es : List Event) (s : State)
    (h : es.foldlM (next plan) (initial plan tables) = some s) :
    (∀ n, HandedOver s (plan n) (s.clients n)) ∧
    (∀ run ∈ s.exports, run.messageCount = (s.listed run.id).length ∧
      run.messagesDelivered ≤ run.messageCount) ∧
    (∀ accountId exportId filter s', next plan s (.create accountId exportId filter) = some s' →
      s'.listed exportId = keysOf filter s) ∧
    (∀ (es' : List Event) (s' : State), es'.foldlM (next plan) s = some s' →
      ∀ run ∈ s.exports, Later plan s s' run) ∧
    ∀ limit total : Nat, 0 < limit → total < 2 ^ 64 → ∃ offsets, Offsets limit total 0 offsets ∧
      ∀ i < total, ∃ o ∈ offsets, o ≤ i ∧ i < o + limit := by
  have hs : Sane plan s := sane_run (sane_initial plan tables) h
  refine ⟨hs.handedOver, hs.counted, ?_, fun es' s' hrun run hmem => later_run hs hrun hmem, ?_⟩
  · intro accountId exportId filter s' hstep
    simp only [next] at hstep
    split at hstep
    · cases hstep
    · cases hstep
      exact Function.update_self _ _ _
  · intro limit total hlimit htotal
    obtain ⟨offsets, hoffsets, hcover⟩ := exists_offsets hlimit htotal 0
    exact ⟨offsets, hoffsets, fun i hi => hcover i (Nat.zero_le i) hi⟩

/-! Three messages, of which the second is deleted after the first page, and another message is
made under its id. -/

def oneConversation (ids : List Int) : List MessagePages.MessageRow :=
  ids.map (fun i => ⟨i, 1, 1, "2024-01-01", i, none, none, none⟩)

def threeMessages (ids : List Int) (hids : ids.Nodup) (hlt : ids.length < 2 ^ 63) : Tables where
  db := {
    handles := [⟨1, "+15550001"⟩]
    conversations := [⟨1, 1, 1⟩]
    messages := oneConversation ids
    handleIds := List.nodup_singleton _
    conversationIds := List.nodup_singleton _
    messageIds := by
      unfold oneConversation
      rw [List.map_map]
      exact (List.map_id ids).symm ▸ hids
    chatHandles := fun c hc => ⟨_, List.mem_cons_self, by rw [List.mem_singleton.mp hc]⟩
    counted := by
      unfold oneConversation
      rw [List.length_map]
      exact hlt }
  conversation m hm := by
    obtain ⟨i, -, rfl⟩ := List.mem_map.mp hm
    exact ⟨_, List.mem_cons_self, rfl⟩

def threePages : List Event :=
  .create 1 1 (fun _ => true) :: [.lookUp 0, .load 0, .answer 0,
    .write [2] (threeMessages [1, 2, 3] (by decide) (by decide)), .lookUp 0, .load 0, .answer 0,
    .lookUp 0, .load 0, .answer 0, .close 1 1 .completed]

def oneByOne (_ : Nat) : Plan := ⟨1, 1, 1, [], 0⟩

/-- The client has the first and the third, and not the one that was made since. -/
theorem hands_over_once_reused :
    ∃ s, threePages.foldlM (next oneByOne)
        (initial oneByOne (threeMessages [1, 2, 3] (by decide) (by decide))) = some s ∧
      (s.clients 0).received.map Item.key = [⟨1, 0⟩, ⟨3, 0⟩] ∧
      HandedOver s (oneByOne 0) (s.clients 0) := by
  obtain ⟨s, hs, hreceived⟩ := Option.map_eq_some_iff.mp
    (show (threePages.foldlM (next oneByOne)
        (initial oneByOne (threeMessages [1, 2, 3] (by decide) (by decide)))).map
          (fun s => (s.clients 0).received.map Item.key) = some [⟨1, 0⟩, ⟨3, 0⟩] by decide +kernel)
  exact ⟨s, hs, hreceived, (hands_over_once oneByOne _ threePages s hs).1 0⟩

end once

end MessageCrate.ExportRuns

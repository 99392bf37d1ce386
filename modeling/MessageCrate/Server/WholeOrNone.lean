import MessageCrate.Lib.Runs
import MessageCrate.Server.DemoBuild

/- The Demo Account is whole or not offered.

   A build writes its record first and removes it last, so an account with no record beside it
   should be whole. Four things break that, or what the memory says of it: a removal that
   fails while the account row is there, a removal of a build that never wrote its record and
   is cut short, a request dropped between the mark and the task, and a login that opens its
   Session after the Sessions were ended.

   1. `Phase.Ok`, `Mode.Ok`: what the database holds at each phase of a build, and while no
      build runs.
   2. `Sound`: that, with what the memory says; `Sound.step`: every event that meets its
      condition keeps it.
   3. `whole_of_meeting`: in any run whose events all meet it, the account is whole whenever
      it is offered. -/
namespace MessageCrate.Demo
open Runs

/-! The database. -/

section
variable (db : Database) (finished : List (List Piece))

/-- The account is one that a build finished, or there is none. -/
def Spared : Prop := ∀ rows ∈ db.account, rows ∈ finished

/-- Nothing is left of a build that did not finish, but perhaps its record. -/
def Settled : Prop := db.account = none ∨ db.unfinished = false ∧ Spared db finished

/-- A start of the server removes what is not whole. -/
def Recoverable : Prop := db.unfinished = true ∨ Spared db finished

instance : Decidable (Spared db finished) :=
  inferInstanceAs (Decidable (∀ rows ∈ db.account, rows ∈ finished))

instance : Decidable (Settled db finished) := inferInstanceAs (Decidable (_ ∨ _))
instance : Decidable (Recoverable db finished) := inferInstanceAs (Decidable (_ ∨ _))

variable {db finished} {rows : List Piece}

theorem spared_of_none (h : db.account = none) : Spared db finished := by
  simp [Spared, h]

theorem Settled.spared (h : Settled db finished) : Spared db finished :=
  h.elim spared_of_none (fun h => h.2)

theorem Settled.recoverable (h : Settled db finished) : Recoverable db finished :=
  .inr h.spared

theorem Spared.mono (h : Spared db finished) : Spared db (rows :: finished) :=
  fun r hr => List.mem_cons_of_mem _ (h r hr)

end

/-- What the database holds at each phase of a build that has written `wrote`. -/
def Phase.Ok (mode : Mode) (db : Database) (finished : List (List Piece)) (wrote : List Piece) :
    Phase → Prop
  | .begin => Settled db finished ∧ wrote = []
  | .generate | .beginAgain | .wipe => db.unfinished = true ∧ wrote = []
  | .removeDir | .ensureAccountRow => db.unfinished = true ∧ wrote = [] ∧ db.account = none
  | .seed | .importSources | .addressBook | .dedupe | .finish =>
    db.unfinished = true ∧ db.account = some wrote
  | .built => db.unfinished = false ∧ db.account = some wrote ∧ wrote ∈ finished
  | .checkRecord => mode = .stopping ∧ Recoverable db finished
  | .removing .stopped .wipe => mode = .stopping ∧ db.unfinished = true
  | .removing _ .wipe => True
  | .removing _ _ => db.account = none
  | .failed _ => Recoverable db finished ∧ (mode = .up → Settled db finished)

theorem Phase.Ok.stop {phase : Phase} {db : Database} {finished : List (List Piece)}
    {wrote : List Piece} (h : phase.Ok .up db finished wrote) :
    phase.Ok .stopping db finished wrote := by
  cases phase with
  | checkRecord => exact ⟨rfl, h.2⟩
  | failed error => exact ⟨h.1, fun hup => by cases hup⟩
  | removing cause removal =>
    cases removal with
    | wipe =>
      cases cause with
      | stopped => exact ⟨rfl, h.2⟩
      | _ => trivial
    | _ => cases cause <;> exact h
  | _ => exact h

/-- What the database holds while no build runs. -/
def Mode.Ok (db : Database) (finished : List (List Piece)) : Mode → Prop
  | .down | .stopping => Recoverable db finished
  | .recovering .wipe => db.unfinished = true
  | .recovering _ => db.account = none
  | .up => Settled db finished

/-! What a run has to meet. -/

/-- A removal of a failed build that may still find the account's row. -/
def Phase.clears : Phase → Bool
  | .removing (.failed _) .wipe | .removing (.panicked _) .wipe => true
  | _ => false

/-- A build is under way: its Sessions have been ended. -/
def State.Started (s : State) : Prop := s.task ≠ none ∨ s.request = some .ended

instance (s : State) : Decidable s.Started := inferInstanceAs (Decidable (_ ∨ _))

/-- The condition on an event, in the state it comes in. -/
def Event.Meets (s : State) : Event → Prop
  | .drop => s.request = none
  | .openSession id => s.logins id = some .checked → s.Started → s.db.account = none
  | .fail _ => ∀ task ∈ s.task, task.phase.clears = true →
      Recoverable s.db s.finished ∧ (s.mode = .up → Settled s.db s.finished)
  | .abort | .crash => ∀ task ∈ s.task, task.phase.clears = true → Recoverable s.db s.finished
  | _ => True

instance (s : State) : (e : Event) → Decidable (e.Meets s)
  | .drop => inferInstanceAs (Decidable (s.request = none))
  | .openSession id =>
    inferInstanceAs (Decidable (s.logins id = some .checked → s.Started → s.db.account = none))
  | .fail _ => inferInstanceAs (Decidable (∀ task ∈ s.task, _ → _ ∧ (_ → _)))
  | .abort | .crash => inferInstanceAs (Decidable (∀ task ∈ s.task, _ → _))
  | .start | .recover | .recoverBatch _ | .recoverFail | .put _ | .endSessions
  | .endSessionsFail | .spawn | .login _ | .check _ | .leave _ | .logout | .next | .write
  | .batch _ | .panic _ | .settle | .stop | .exit => inferInstanceAs (Decidable True)

/-! What is so in every state. -/

structure Sound (s : State) : Prop where
  building : s.isBuilding = true ↔ s.task ≠ none ∨ s.request ≠ none
  alone : s.task ≠ none → s.request = none
  asked : s.request ≠ none → s.mode = .up
  entered : ∀ id, s.logins id ≠ none → s.mode = .up
  rest : s.task = none → s.mode.Ok s.db s.finished
  task : ∀ task, s.task = some task → (s.mode = .up ∨ s.mode = .stopping) ∧
    task.phase.Ok s.mode s.db s.finished task.wrote
  ended : s.Started → s.db.session = none

section
variable {s : State} {account : Option (List Piece)}

/-- Whatever a crash interrupts, the next start finds the account whole or its record. -/
theorem Sound.recoverable (h : Sound s)
    (hmeets : ∀ task ∈ s.task, task.phase.clears = true → Recoverable s.db s.finished) :
    Recoverable s.db s.finished := by
  cases htask : s.task with
  | none =>
    have hrest := h.rest htask
    cases hmode : s.mode with
    | down => rwa [hmode] at hrest
    | stopping => rwa [hmode] at hrest
    | up => exact Settled.recoverable (by rwa [hmode] at hrest)
    | recovering removal =>
      rw [hmode] at hrest
      cases removal with
      | wipe => exact .inl hrest
      | removeDir => exact .inr (spared_of_none hrest)
      | endRecord => exact .inr (spared_of_none hrest)
  | some task =>
    obtain ⟨-, hphase⟩ := h.task task htask
    have hclears := hmeets task htask
    cases hp : task.phase with
    | begin => exact Settled.recoverable (by rw [hp] at hphase; exact hphase.1)
    | built =>
      rw [hp] at hphase
      obtain ⟨-, haccount, hmem⟩ := hphase
      refine .inr (fun rows hrows => ?_)
      rwa [← Option.some.inj (haccount.symm.trans hrows)]
    | checkRecord => rw [hp] at hphase; exact hphase.2
    | failed error => rw [hp] at hphase; exact hphase.1
    | removing cause removal =>
      cases removal with
      | wipe =>
        cases cause with
        | failed error => exact hclears (by rw [hp]; rfl)
        | panicked error => exact hclears (by rw [hp]; rfl)
        | stopped => rw [hp] at hphase; exact .inl hphase.2
      | removeDir =>
        rw [hp] at hphase
        exact .inr (spared_of_none (by cases cause <;> exact hphase))
      | endRecord =>
        rw [hp] at hphase
        exact .inr (spared_of_none (by cases cause <;> exact hphase))
    | _ => rw [hp] at hphase; exact .inl hphase.1

theorem Sound.halted (h : Recoverable s.db s.finished) : Sound s.halted where
  building := by simp [State.halted, State.isBuilding]
  alone := fun hne => absurd rfl hne
  asked := fun hne => absurd rfl hne
  entered := fun _ hne => absurd rfl hne
  rest := fun _ => h
  task := fun task htask => by cases htask
  ended := by simp [State.halted, State.Started]

end

/-! One event. -/

section
variable {s : State} {task : Task} {account : Option (List Piece)}

theorem Sound.task_none_of_mode (h : Sound s) (hup : s.mode ≠ .up) (hstopping : s.mode ≠ .stopping) :
    s.task = none := by
  by_contra hne
  obtain ⟨task, htask⟩ := Option.ne_none_iff_exists'.mp hne
  rcases (h.task task htask).1 with hmode | hmode
  · exact hup hmode
  · exact hstopping hmode

theorem Sound.request_none_of_mode (h : Sound s) (hup : s.mode ≠ .up) : s.request = none := by
  by_contra hne
  exact hup (h.asked hne)

/-- With no build under way, the mode and the database may change together. -/
theorem Sound.serve (h : Sound s) {db : Database} {mode : Mode} {build : DemoBuildState}
    (hdown : s.mode ≠ .up) (htask : s.task = none) (hrequest : s.request = none)
    (hbuild : ∀ size, build ≠ .building size) (hmode : mode.Ok db s.finished) :
    Sound { s with db := db, mode := mode, build := build } where
  building := by
    have hidle : State.isBuilding { s with db := db, mode := mode, build := build } = false := by
      cases build with
      | building size => exact absurd rfl (hbuild size)
      | idle => rfl
      | failed error => rfl
    constructor
    · intro hbuilding
      cases hidle.symm.trans hbuilding
    · rintro (hne | hne)
      · exact absurd htask hne
      · exact absurd hrequest hne
  alone := h.alone
  asked := fun hne => absurd hrequest hne
  entered := fun id hne => absurd (h.entered id hne) hdown
  rest := fun _ => hmode
  task := fun task ht => by simp [htask] at ht
  ended := by
    rintro (hne | hended)
    · exact absurd htask hne
    · simp [hrequest] at hended

theorem Sound.stepServer (h : Sound s) (e : Event) (hmeets : e.Meets s) :
    Sound (s.stepServer e) := by
  have hidle : s.task = none → s.request = none → ∀ size, s.build ≠ .building size := by
    intro htask hrequest size hbuild
    have hbuilding : s.isBuilding = true := by simp [State.isBuilding, hbuild]
    rcases h.building.mp hbuilding with hne | hne
    · exact hne htask
    · exact hne hrequest
  cases e with
  | start =>
    simp only [State.stepServer]
    split
    · rename_i hdown
      have hoff : s.mode ≠ .up := by simp [hdown]
      have htask := h.task_none_of_mode hoff (by simp [hdown])
      have hrequest := h.request_none_of_mode hoff
      have hrest := h.rest htask
      rw [hdown] at hrest
      split
      · rename_i hrecord
        exact h.serve hoff htask hrequest (hidle htask hrequest) hrecord
      · rename_i hrecord
        refine h.serve hoff htask hrequest (hidle htask hrequest) (.inr ⟨by simpa using hrecord, ?_⟩)
        exact hrest.resolve_left hrecord
    · exact h
  | recover =>
    simp only [State.stepServer]
    cases hmode : s.mode with
    | recovering removal =>
      have hoff : s.mode ≠ .up := by simp [hmode]
      have htask := h.task_none_of_mode hoff (by simp [hmode])
      have hrequest := h.request_none_of_mode hoff
      have hrest := h.rest htask
      rw [hmode] at hrest
      cases removal with
      | wipe => exact h.serve hoff htask hrequest (hidle htask hrequest) rfl
      | removeDir => exact h.serve hoff htask hrequest (hidle htask hrequest) hrest
      | endRecord => exact h.serve hoff htask hrequest (fun size hsize => by cases hsize) (.inl hrest)
    | _ => exact h
  | recoverBatch piece =>
    simp only [State.stepServer]
    split
    · rename_i hmode
      have hoff : s.mode ≠ .up := by simp [hmode]
      have htask := h.task_none_of_mode hoff (by simp [hmode])
      have hrequest := h.request_none_of_mode hoff
      have hrest := h.rest htask
      rw [hmode] at hrest
      refine h.serve hoff htask hrequest (hidle htask hrequest) ?_
      rw [hmode]
      exact hrest
    · exact h
  | recoverFail =>
    simp only [State.stepServer]
    cases hmode : s.mode with
    | recovering removal =>
      have htask := h.task_none_of_mode (by simp [hmode]) (by simp [hmode])
      exact Sound.halted (h.recoverable (by simp [htask]))
    | _ => exact h
  | stop =>
    simp only [State.stepServer]
    split
    · rename_i hup
      obtain ⟨hmode, hrequest⟩ := hup
      refine ⟨h.building, h.alone, fun hne => absurd hrequest hne, fun _ hne => absurd rfl hne,
        fun htask => ?_, fun task htask => ⟨.inr rfl, ?_⟩, h.ended⟩
      · have hrest := h.rest htask
        rw [hmode] at hrest
        exact hrest.recoverable
      · obtain ⟨-, hphase⟩ := h.task task htask
        rw [hmode] at hphase
        exact hphase.stop
    · exact h
  | exit =>
    simp only [State.stepServer]
    split
    · rename_i hdone
      exact Sound.halted (h.recoverable (by simp [hdone.2]))
    · exact h
  | crash => exact Sound.halted (h.recoverable hmeets)
  | _ => exact h

theorem Sound.stepRequest (h : Sound s) (e : Event) (hmeets : e.Meets s) :
    Sound (s.stepRequest e) := by
  cases e with
  | put size =>
    simp only [State.stepRequest]
    split
    · rename_i hcond
      obtain ⟨hmode, hfree⟩ := hcond
      have htask : s.task = none := by
        by_contra hne
        simp [h.building.mpr (.inl hne)] at hfree
      refine ⟨by simp [State.isBuilding], fun hne => absurd htask hne, fun _ => hmode, h.entered,
        h.rest, h.task, ?_⟩
      rintro (hne | hended)
      · exact absurd htask hne
      · cases hended
    · exact h
  | endSessions =>
    simp only [State.stepRequest]
    split
    · rename_i hmarked
      have hrequest : s.request ≠ none := by simp [hmarked]
      refine ⟨?_, ?_, fun _ => h.asked hrequest, h.entered, h.rest, h.task, fun _ => rfl⟩
      · have hbuilding := h.building.mpr (.inr hrequest)
        simpa [State.isBuilding] using hbuilding
      · intro hne
        exact absurd (h.alone hne) hrequest
    · exact h
  | endSessionsFail =>
    simp only [State.stepRequest]
    split
    · rename_i hmarked
      have htask : s.task = none := by
        by_contra hne
        simp [h.alone hne] at hmarked
      refine ⟨by simp [State.isBuilding, htask], fun _ => rfl, fun hne => absurd rfl hne,
        h.entered, h.rest, h.task, ?_⟩
      rintro (hne | hended)
      · exact absurd htask hne
      · cases hended
    · exact h
  | spawn =>
    simp only [State.stepRequest]
    split
    · rename_i hended
      have hrequest : s.request ≠ none := by simp [hended]
      have hmode := h.asked hrequest
      have htask : s.task = none := by
        by_contra hne
        exact hrequest (h.alone hne)
      have hrest := h.rest htask
      rw [hmode] at hrest
      refine ⟨?_, fun _ => rfl, fun hne => absurd rfl hne, h.entered,
        (fun hnone => by cases hnone), ?_, fun _ => h.ended (.inr hended)⟩
      · have hbuilding := h.building.mpr (.inr hrequest)
        simpa [State.isBuilding] using hbuilding
      · rintro task ⟨⟩
        exact ⟨.inl hmode, hrest, rfl⟩
    · exact h
  | drop =>
    have hnone : s.request = none := hmeets
    simp only [State.stepRequest, ← hnone]
    exact h
  | login id =>
    simp only [State.stepRequest]
    split
    · rename_i hcond
      refine ⟨h.building, h.alone, h.asked, fun j _ => hcond.1, h.rest, h.task, h.ended⟩
    · exact h
  | check id =>
    simp only [State.stepRequest]
    split
    · rename_i hfound
      have hmode := h.entered id (by simp [hfound])
      exact ⟨h.building, h.alone, h.asked, fun _ _ => hmode, h.rest, h.task, h.ended⟩
    · exact h
  | openSession id =>
    simp only [State.stepRequest]
    split
    · rename_i hchecked
      have hmode := h.entered id (by simp [hchecked])
      split
      · rename_i hsome
        refine ⟨h.building, h.alone, h.asked, fun _ _ => hmode, h.rest, h.task,
          fun hstarted => ?_⟩
        have hnone := hmeets hchecked hstarted
        simp [hnone] at hsome
      · exact ⟨h.building, h.alone, h.asked, fun _ _ => hmode, h.rest, h.task, h.ended⟩
    · exact h
  | leave id =>
    refine ⟨h.building, h.alone, h.asked, fun j hne => ?_, h.rest, h.task, h.ended⟩
    rcases eq_or_ne j id with rfl | hother
    · simp [State.stepRequest] at hne
    · exact h.entered j (by simpa [State.stepRequest, hother] using hne)
  | logout => exact ⟨h.building, h.alone, h.asked, h.entered, h.rest, h.task, fun _ => rfl⟩
  | _ => exact h

end

section
variable {s : State} {task : Task} {mode : Mode} {db db' : Database}
  {finished : List (List Piece)} {wrote : List Piece} {phase phase' : Phase}

theorem Phase.Ok.next (h : phase.Ok mode db finished wrote)
    (hnext : phase.next db = some (db', phase')) :
    phase'.Ok mode db' (if phase = .finish then wrote :: finished else finished) wrote := by
  cases phase with
  | begin | beginAgain =>
    obtain ⟨rfl, rfl⟩ := by simpa [Phase.next] using hnext
    exact ⟨rfl, h.2⟩
  | generate | removeDir | seed | importSources | addressBook | dedupe =>
    obtain ⟨rfl, rfl⟩ := by simpa [Phase.next] using hnext
    exact h
  | wipe =>
    obtain ⟨rfl, rfl⟩ := by simpa [Phase.next] using hnext
    exact ⟨h.1, h.2, rfl⟩
  | ensureAccountRow =>
    obtain ⟨rfl, rfl⟩ := by simpa [Phase.next] using hnext
    obtain ⟨hrecord, rfl, hnone⟩ := h
    exact ⟨hrecord, by simp [Database.ensureAccountRow, hnone]⟩
  | finish =>
    obtain ⟨rfl, rfl⟩ := by simpa [Phase.next] using hnext
    exact ⟨rfl, h.2, List.mem_cons_self⟩
  | checkRecord =>
    obtain ⟨rfl, hphase⟩ := by simpa [Phase.next] using hnext
    obtain ⟨rfl, hrecoverable⟩ := h
    subst hphase
    rw [if_neg (by simp)]
    split
    · rename_i hrecord
      exact ⟨rfl, hrecord⟩
    · exact ⟨hrecoverable, fun hup => by cases hup⟩
  | removing cause removal =>
    simp only [Phase.next, Option.some.injEq] at hnext
    cases removal with
    | wipe =>
      obtain ⟨rfl, rfl⟩ := Prod.mk.inj hnext
      cases cause <;> rfl
    | removeDir =>
      have hnone : db.account = none := by cases cause <;> exact h
      cases cause with
      | stopped =>
        obtain ⟨rfl, rfl⟩ := Prod.mk.inj hnext
        exact ⟨.inr (spared_of_none hnone), fun _ => .inl hnone⟩
      | failed error =>
        obtain ⟨rfl, rfl⟩ := Prod.mk.inj hnext
        exact hnone
      | panicked error =>
        obtain ⟨rfl, rfl⟩ := Prod.mk.inj hnext
        exact hnone
    | endRecord =>
      have hnone : db.account = none := by cases cause <;> exact h
      obtain ⟨rfl, rfl⟩ := Prod.mk.inj hnext
      exact ⟨.inr (spared_of_none hnone), fun _ => .inl hnone⟩
  | built => cases hnext
  | failed error => cases hnext

/-- A step of the build opens no Session. -/
theorem Phase.next_session (hnext : phase.next db = some (db', phase'))
    (hnone : db.session = none) : db'.session = none := by
  cases phase with
  | removing cause removal =>
    simp only [Phase.next, Option.some.injEq] at hnext
    cases removal with
    | removeDir =>
      cases cause <;> (obtain ⟨rfl, -⟩ := Prod.mk.inj hnext; exact hnone)
    | wipe =>
      obtain ⟨rfl, -⟩ := Prod.mk.inj hnext
      rfl
    | endRecord =>
      obtain ⟨rfl, -⟩ := Prod.mk.inj hnext
      exact hnone
  | wipe =>
    obtain ⟨rfl, -⟩ := by simpa [Phase.next] using hnext
    rfl
  | built | failed error => cases hnext
  | _ =>
    obtain ⟨rfl, -⟩ := by simpa [Phase.next] using hnext
    exact hnone

theorem Phase.Ok.write {piece : Piece} (h : phase.Ok mode db finished wrote)
    (hwrites : phase.writes = true) :
    phase.Ok mode (db.write piece) finished (wrote ++ [piece]) := by
  have hrows : db.unfinished = true ∧ db.account = some wrote →
      (db.write piece).unfinished = true ∧
        (db.write piece).account = some (wrote ++ [piece]) := by
    rintro ⟨hrecord, haccount⟩
    exact ⟨hrecord, by simp [Database.write, haccount]⟩
  cases phase with
  | seed | importSources | addressBook | dedupe => exact hrows h
  | _ => cases hwrites

theorem Phase.Ok.batch (piece : Piece) (h : phase.Ok mode db finished wrote)
    (hwipes : phase.wipes = true) : phase.Ok mode (db.deleteBatch piece) finished wrote := by
  cases phase with
  | wipe => exact h
  | removing cause removal =>
    cases removal with
    | wipe =>
      cases cause with
      | stopped => exact h
      | _ => trivial
    | _ => cases hwipes
  | _ => cases hwipes

theorem Phase.Ok.fail {error : String} (h : phase.Ok mode db finished wrote)
    (hclears : phase.clears = true → Recoverable db finished ∧ (mode = .up → Settled db finished)) :
    (phase.fail error).Ok mode db finished wrote := by
  cases phase with
  | checkRecord =>
    obtain ⟨rfl, hrecoverable⟩ := h
    exact ⟨hrecoverable, fun hup => by cases hup⟩
  | removing cause removal =>
    cases removal with
    | wipe =>
      cases cause with
      | stopped =>
        obtain ⟨rfl, hrecord⟩ := h
        exact ⟨.inl hrecord, fun hup => by cases hup⟩
      | _ => exact hclears rfl
    | _ =>
      have hnone : db.account = none := by cases cause <;> exact h
      exact ⟨.inr (spared_of_none hnone), fun _ => .inl hnone⟩
  | built | failed error => exact h
  | _ => trivial

/-- The build goes on. -/
theorem Sound.goOn (h : Sound s) (htask : s.task = some task) {next : Task}
    (hok : next.phase.Ok s.mode db finished next.wrote) (hsession : db.session = none) :
    Sound { s with db := db, task := some next, finished := finished } where
  building := by
    have hbuilding := h.building.mpr (.inl (by simp [htask]))
    simpa [State.isBuilding] using hbuilding
  alone := fun _ => h.alone (by simp [htask])
  asked := h.asked
  entered := h.entered
  rest := fun hnone => by cases hnone
  task := by
    rintro _ ⟨⟩
    exact ⟨(h.task task htask).1, hok⟩
  ended := fun _ => hsession

/-- The build has ended. -/
theorem Sound.settle (h : Sound s) (htask : s.task = some task) {build : DemoBuildState}
    (hbuild : ∀ size, build ≠ .building size) (hmode : s.mode.Ok s.db s.finished) :
    Sound { s with task := none, build := build } where
  building := by
    have hrequest := h.alone (by simp [htask])
    cases build with
    | building size => exact absurd rfl (hbuild size)
    | _ => simp [State.isBuilding, hrequest]
  alone := fun hne => absurd rfl hne
  asked := h.asked
  entered := h.entered
  rest := fun _ => hmode
  task := fun task htask => by cases htask
  ended := by
    rintro (hne | hended)
    · exact absurd rfl hne
    · simp [h.alone (by simp [htask])] at hended

theorem Sound.stepTask (h : Sound s) (htask : s.task = some task) (e : Event)
    (hmeets : e.Meets s) : Sound (s.stepTask task e) := by
  obtain ⟨hmode, hphase⟩ := h.task task htask
  have hsession := h.ended (.inl (by simp [htask]))
  cases e with
  | next =>
    simp only [State.stepTask]
    split
    · exact h
    · rename_i db' phase' hnext
      refine h.goOn htask ?_ (Phase.next_session hnext hsession)
      exact hphase.next hnext
  | write =>
    simp only [State.stepTask]
    split
    · rename_i hwrites
      exact h.goOn htask (hphase.write hwrites) hsession
    · exact h
  | batch piece =>
    simp only [State.stepTask]
    split
    · rename_i hwipes
      have hnext := h.goOn htask (hphase.batch piece hwipes) hsession
      rwa [← htask] at hnext
    · exact h
  | fail error =>
    exact h.goOn htask (hphase.fail (hmeets task htask)) hsession
  | panic error =>
    simp only [State.stepTask]
    split
    · exact h.goOn htask trivial hsession
    · exact h
  | settle =>
    simp only [State.stepTask]
    cases hp : task.phase with
    | built =>
      rw [hp] at hphase
      obtain ⟨hrecord, haccount, hmem⟩ := hphase
      have hspared : Spared s.db s.finished := by
        intro rows hrows
        rwa [← Option.some.inj (haccount.symm.trans hrows)]
      refine h.settle htask (fun size hsize => by cases hsize) ?_
      rcases hmode with hmode | hmode
      · rw [hmode]
        exact .inr ⟨hrecord, hspared⟩
      · rw [hmode]
        exact .inr hspared
    | failed error =>
      rw [hp] at hphase
      refine h.settle htask (fun size hsize => by cases hsize) ?_
      rcases hmode with hmode | hmode
      · rw [hmode]
        exact hphase.2 hmode
      · rw [hmode]
        exact hphase.1
    | _ => exact h
  | abort =>
    simp only [State.stepTask]
    split
    · rename_i hcond
      exact h.goOn htask ⟨hcond.1, h.recoverable hmeets⟩ hsession
    · exact h
  | _ => exact h

theorem Sound.step (h : Sound s) (e : Event) (hmeets : e.Meets s) : Sound (s.step e) := by
  have hserver := h.stepServer e hmeets
  have hrequest := h.stepRequest e hmeets
  have htask : Sound (s.stepRunning e) := by
    unfold State.stepRunning
    split
    · exact h
    · rename_i task htask
      exact h.stepTask htask e hmeets
  cases e with
  | start | recover | recoverBatch _ | recoverFail | stop | exit | crash => exact hserver
  | put _ | endSessions | endSessionsFail | spawn | drop | login _ | check _ | openSession _
  | leave _ | logout => exact hrequest
  | next | write | batch _ | fail _ | panic _ | settle | abort => exact htask

theorem Sound.initial (account : Option (List Piece)) : Sound (initial account) where
  building := by simp [Demo.initial, State.isBuilding]
  alone := fun hne => absurd rfl hne
  asked := fun hne => absurd rfl hne
  entered := fun _ hne => absurd rfl hne
  rest := fun _ => .inr (fun rows hrows => Option.mem_toList.mpr hrows)
  task := fun task htask => by cases htask
  ended := fun _ => rfl

end

/-! The claim's words. -/

section
variable {s : State}

/-- The account's rows are those of a build that finished, and no build is unfinished. -/
def State.Whole (s : State) : Prop :=
  ∃ rows, s.db.account = some rows ∧ rows ∈ s.finished ∧ s.db.unfinished = false

/-- The login has passed its check, and opening its Session finds the account. -/
def State.Admits (s : State) (id : Nat) : Prop :=
  s.logins id = some .checked ∧ s.db.account.isSome = true

structure Keeps (s : State) : Prop where
  ready : s.mode = .up → s.demoAccount.status = .ready ∨ s.offersDemoAccount = true → s.Whole
  /-- A build that is reported runs, or its request is being handled. -/
  building : s.demoAccount.status = .building → s.task ≠ none ∨ s.request ≠ none
  ended : s.Started → s.db.session = none

theorem isBuilding_of_status (h : s.demoAccount.status = .building) : s.isBuilding = true := by
  unfold State.demoAccount at h
  unfold State.isBuilding
  split at h
  · rename_i size hbuild
    rw [hbuild]
  · split at h <;> cases h
  · split at h <;> cases h

/-- The answers that offer the account find it, with no build marked. -/
theorem offered_cases (h : s.demoAccount.status = .ready ∨ s.offersDemoAccount = true) :
    s.isBuilding = false ∧ s.db.account.isSome = true := by
  rcases h with hready | hoffers
  · unfold State.demoAccount at hready
    unfold State.isBuilding
    split at hready
    · cases hready
    · rename_i error hbuild
      rw [hbuild]
      split at hready
      · rename_i hsome
        exact ⟨rfl, hsome⟩
      · cases hready
    · rename_i hbuild
      rw [hbuild]
      split at hready
      · rename_i hsome
        exact ⟨rfl, hsome⟩
      · cases hready
  · simpa [State.offersDemoAccount] using hoffers

theorem Settled.whole (h : Settled s.db s.finished) (hsome : s.db.account.isSome = true) :
    s.Whole := by
  obtain ⟨rows, hrows⟩ := Option.isSome_iff_exists.mp hsome
  rcases h with hnone | ⟨hrecord, hspared⟩
  · simp [hnone] at hsome
  · exact ⟨rows, hrows, hspared rows hrows, hrecord⟩

theorem Sound.keeps (h : Sound s) : Keeps s where
  ready := by
    intro hmode hoffered
    obtain ⟨hfree, hsome⟩ := offered_cases hoffered
    have htask : s.task = none := by
      by_contra hne
      simp [h.building.mpr (.inl hne)] at hfree
    have hrest := h.rest htask
    rw [hmode] at hrest
    exact hrest.whole hsome
  building := fun hbuilding => h.building.mp (isBuilding_of_status hbuilding)
  ended := h.ended

theorem Sound.admits (h : Sound s) {id : Nat} (hmeets : (Event.openSession id).Meets s)
    (hadmits : s.Admits id) : s.Whole := by
  obtain ⟨hchecked, hsome⟩ := hadmits
  have hmode := h.entered id (by simp [hchecked])
  have htask : s.task = none := by
    by_contra hne
    have hnone := hmeets hchecked (.inl hne)
    simp [hnone] at hsome
  have hrest := h.rest htask
  rw [hmode] at hrest
  exact hrest.whole hsome

/-- The Demo Account is whole or not offered, as long as no request is dropped between the mark
and the task, no login opens its Session after the build ended the Sessions, and no removal of
a failed build is left half done where a later step would not finish it. -/
theorem whole_of_meeting (account : Option (List Piece)) (events : List Event)
    (h : Meeting State.step Event.Meets (Demo.initial account) events)
    (pre post : List Event) (hevents : events = pre ++ post) :
    Keeps (run account pre) ∧ ∀ id rest, post = .openSession id :: rest →
      (run account pre).Admits id → (run account pre).Whole := by
  have hsound : Sound (run account pre) :=
    h.keeps (fun _ e hs he => Sound.step hs e he) (Sound.initial account) hevents
  refine ⟨hsound.keeps, fun id rest hpost hadmits => ?_⟩
  subst hpost
  exact hsound.admits (h.meets hevents) hadmits

end

/-! Runs. -/

/-- The steps of a build from its request on, with two writes. -/
def wholeBuild : List Event :=
  [.put .medium, .endSessions, .spawn, .next, .next, .next, .next, .next, .next, .write, .next,
    .write, .next, .next, .next, .next, .settle]

/-- A visitor comes, the account is built again, a build fails, and one is cut by a crash. -/
def fourBuilds : List Event :=
  .start :: .login 0 :: .check 0 :: .openSession 0 :: wholeBuild ++
    [.login 1, .check 1, .openSession 1, .put .large, .endSessions, .spawn, .next, .next,
      .next, .batch ⟨0, 0⟩, .fail "disk full", .next, .next, .next, .settle] ++
    wholeBuild ++ [.put .medium, .endSessions, .spawn, .next, .next, .panic "generator", .crash,
      .start, .recover, .recover, .recover]

theorem keeps_fourBuilds : Keeps (run (some []) fourBuilds) :=
  (whole_of_meeting (some []) fourBuilds (by decide +kernel) fourBuilds [] (by simp)).1

/-- The client of the request goes away while its Sessions are being ended. -/
def droppedRequest : List Event := [.start, .put .medium, .drop]

/-- A build fails after it deleted some messages, and its removal fails too. -/
def failedRemoval : List Event :=
  [.start, .put .medium, .endSessions, .spawn, .next, .next, .next, .batch ⟨0, 0⟩,
    .fail "database is locked", .fail "database is locked", .settle]

/-- A login passes its check before the build is marked and opens its Session after the
Sessions were ended. -/
def lateLogin : List Event :=
  [.start, .login 0, .check 0, .put .medium, .endSessions, .spawn, .openSession 0]

/-- The record cannot be written, and the server is killed during the removal. -/
def unrecordedRemoval : List Event :=
  [.start, .put .medium, .endSessions, .spawn, .fail "database is locked", .batch ⟨0, 0⟩, .crash,
    .start]

theorem not_whole_or_not_offered :
    ¬ Keeps (run (some [⟨0, 0⟩, ⟨0, 1⟩]) droppedRequest) ∧
      ¬ Keeps (run (some [⟨0, 0⟩, ⟨0, 1⟩]) failedRemoval) ∧
      ¬ Keeps (run (some [⟨0, 0⟩, ⟨0, 1⟩]) lateLogin) ∧
      ¬ Keeps (run (some [⟨0, 0⟩, ⟨0, 1⟩]) unrecordedRemoval) := by
  refine ⟨fun h => ?_, fun h => ?_, fun h => ?_, fun h => ?_⟩
  · rcases h.building (by decide +kernel) with htask | hrequest
    · exact htask (by decide +kernel)
    · exact hrequest (by decide +kernel)
  · obtain ⟨rows, -, -, hrecord⟩ := h.ready (by decide +kernel) (by decide +kernel)
    exact absurd hrecord (by decide +kernel)
  · exact absurd (h.ended (by decide +kernel)) (by decide +kernel)
  · have hrows : (run (some [⟨0, 0⟩, ⟨0, 1⟩]) unrecordedRemoval).db.account =
        some [⟨0, 1⟩] := by decide +kernel
    obtain ⟨rows, haccount, hmem, -⟩ := h.ready (by decide +kernel) (by decide +kernel)
    obtain rfl := Option.some.inj (hrows.symm.trans haccount)
    exact absurd hmem (by decide +kernel)

end MessageCrate.Demo

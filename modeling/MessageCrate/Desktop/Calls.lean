import MessageCrate.Desktop.Disk

/- What a call knows at each of its phases.

   The lock is held while the record changes, not while a folder is made or removed. What a
   call found out before it took the lock may no longer hold when it writes: a delete that
   removed a folder forgets its path, and another call may have made a folder there since.

   1. `Phase.Ok`: what a call knows; `Call.Ok.later`: no other call takes it away.
   2. `Call.Meets`: what a step has to meet for the record to stay right of the disk.
   3. `Sound.actChange`, `Sound.actCreate`, `Sound.actDelete`: one step of a call that meets
      it keeps the state sound; `Sound.step`: so does any event. -/
namespace MessageCrate.Staged

/-! What a call knows. -/

/-- The call holds the lock alone. -/
def Phase.holds : Phase → Bool
  | .read _ | .write _ _ | .finishWrite _ _ | .rename _ _ => true
  | _ => false

def Change.Ok (s : State) (since : Nat) : Change → Prop
  | .setRoot _ => True
  | .push folder making => folder ∈ s.made ∧ making < s.makings
  | .forget folder => since ≤ s.recorded.length ∧
      ∀ p ∈ s.recorded.drop (s.recorded.length - since), p.1 = folder → ¬ s.Stands p

/-- The record the call is to write. -/
def State.Changed (s : State) (change : Change) (record : Record) : Prop :=
  ∃ old device, s.readLocked = some old ∧ record = change.apply device old

def Phase.Ok (m : Machine) (s : State) (pid since : Nat) : Phase → Prop
  | .lock change | .read change => change.Ok s since
  | .write change record | .finishWrite change record => change.Ok s since ∧ s.Changed change record
  | .rename change record =>
    change.Ok s since ∧ s.Changed change record ∧ s.temp pid = some (.whole record)
  | .makeRoot root _ | .makeFolder root _ _ => ∃ raw, m.resolveRoot raw = some root
  | .mark folder making | .resolve folder making => folder ∈ s.made ∧ making < s.makings
  | .gone dir made | .emptied dir made => made.isSome = true → dir ∈ s.made
  | .removeEmptied dir => dir ∈ s.made
  | .sentinel folder _ | .removing folder | .rmdir folder => folder ∈ s.made
  | .unmark folder => folder ∈ s.made ∧ s.OnlySentinel folder
  | _ => True

structure Call.Ok (m : Machine) (s : State) (id : Nat) (call : Call) : Prop where
  started : id ∈ s.started
  lock : call.phase.holds = true → s.lock = some id
  phase : call.phase.Ok m s call.pid call.since

/-- What is so in every state a run reaches. -/
structure Sound (m : Machine) (s : State) : Prop where
  disk : DiskOk m s
  record : ∃ record, s.readLocked = some record ∧ RecordOk s record
  removed : ∀ p ∈ s.removed, ∃ f ∈ s.made, f <+: p
  calls : ∀ id call, s.calls id = some call → call.Ok m s id

section
variable {m : Machine} {s t : State} {id since pid : Nat} {call : Call} {change : Change}
  {phase : Phase}

/-- What was recorded before a delete saw the folder gone stays gone. -/
theorem Change.Ok.later (h : change.Ok s since) (hlater : Later s t)
    (hrecorded : ∀ p ∈ s.recorded, p.2 < s.makings) : change.Ok t since := by
  cases change with
  | setRoot root => trivial
  | push folder making =>
    exact ⟨hlater.made _ h.1, Nat.lt_of_lt_of_le h.2 hlater.makings⟩
  | forget folder =>
    obtain ⟨hsince, hgone⟩ := h
    obtain ⟨new, hnew⟩ := hlater.recorded
    have hlen : t.recorded.length - since = new.length + (s.recorded.length - since) := by
      rw [← hnew, List.length_append]
      omega
    refine ⟨by rw [← hnew, List.length_append]; omega, ?_⟩
    rw [hlen, ← hnew, List.drop_length_add_append]
    intro p hp hfolder hstands
    exact hgone p hp hfolder (hlater.stands p (hrecorded p (List.mem_of_mem_drop hp)) hstands)

/-- No other call takes away what this one knows. -/
theorem Call.Ok.later (h : call.Ok m s id) (hlater : Later s t)
    (hrecorded : ∀ p ∈ s.recorded, p.2 < s.makings)
    (honly : ∀ f, call.phase = .unmark f → s.OnlySentinel f → t.OnlySentinel f)
    (hlock : s.lock = some id → t.lock = some id ∧ t.file = s.file ∧ t.temp = s.temp) :
    call.Ok m t id := by
  obtain ⟨hstarted, hheld, hphase⟩ := h
  obtain ⟨pid, phase, since⟩ := call
  have hchanged : ∀ change record, t.file = s.file → s.Changed change record →
      t.Changed change record := by
    rintro change record hfile ⟨old, device, hread, hrecord⟩
    refine ⟨old, device, ?_, hrecord⟩
    rw [← hread, State.readLocked, State.readLocked, hfile]
  refine ⟨hlater.started id hstarted, fun hholds => (hlock (hheld hholds)).1, ?_⟩
  cases phase with
  | lock change => exact Change.Ok.later hphase hlater hrecorded
  | read change => exact Change.Ok.later hphase hlater hrecorded
  | write change record =>
    obtain ⟨-, hfile, -⟩ := hlock (hheld rfl)
    exact ⟨hphase.1.later hlater hrecorded, hchanged _ _ hfile hphase.2⟩
  | finishWrite change record =>
    obtain ⟨-, hfile, -⟩ := hlock (hheld rfl)
    exact ⟨hphase.1.later hlater hrecorded, hchanged _ _ hfile hphase.2⟩
  | rename change record =>
    obtain ⟨-, hfile, htemp⟩ := hlock (hheld rfl)
    exact ⟨hphase.1.later hlater hrecorded, hchanged _ _ hfile hphase.2.1,
      (congrFun htemp pid).trans hphase.2.2⟩
  | readRoot base => trivial
  | makeRoot root base => exact hphase
  | makeFolder root base n => exact hphase
  | mark folder making =>
    exact ⟨hlater.made _ hphase.1, Nat.lt_of_lt_of_le hphase.2 hlater.makings⟩
  | resolve folder making =>
    exact ⟨hlater.made _ hphase.1, Nat.lt_of_lt_of_le hphase.2 hlater.makings⟩
  | find dir => trivial
  | gone dir made => exact fun hmade => hlater.made _ (hphase hmade)
  | emptied dir made => exact fun hmade => hlater.made _ (hphase hmade)
  | removeEmptied dir => exact hlater.made _ hphase
  | canonicalize dir delete => trivial
  | check folder delete => trivial
  | sentinel folder delete => exact hlater.made _ hphase
  | removing folder => exact hlater.made _ hphase
  | unmark folder => exact ⟨hlater.made _ hphase.1, honly folder rfl hphase.2⟩
  | rmdir folder => exact hlater.made _ hphase

/-- What a call leaves to the others. -/
structure Beside (id : Nat) (s t : State) : Prop where
  later : Later s t
  only : ∀ f ∈ s.made, s.OnlySentinel f → t.OnlySentinel f
  calls : ∀ j, j ≠ id → t.calls j = s.calls j
  locked : ∀ j, j ≠ id → s.lock = some j → t.lock = some j ∧ t.file = s.file ∧ t.temp = s.temp

theorem Sound.beside (h : Sound m s) (hbeside : Beside id s t) (hdisk : DiskOk m t)
    (hrecord : ∃ record, t.readLocked = some record ∧ RecordOk t record)
    (hremoved : ∀ p ∈ t.removed, ∃ f ∈ t.made, f <+: p)
    (hself : ∀ call, t.calls id = some call → call.Ok m t id) : Sound m t where
  disk := hdisk
  record := hrecord
  removed := hremoved
  calls := by
    intro j c hc
    rcases eq_or_ne j id with rfl | hne
    · exact hself c hc
    · obtain ⟨record, -, hrecordOk⟩ := h.record
      have hok := h.calls j c (hbeside.calls j hne ▸ hc)
      refine hok.later hbeside.later hrecordOk.recorded ?_ (hbeside.locked j hne)
      intro f hf
      obtain ⟨hmade, -⟩ : f ∈ s.made ∧ s.OnlySentinel f := by
        have hphase := hok.phase
        rwa [hf] at hphase
      exact hbeside.only f hmade

theorem Call.Ok.goto (h : call.Ok m s id) (hholds : phase.holds = false)
    (hphase : phase.Ok m s call.pid call.since) :
    Call.Ok m s id { call with phase := phase } :=
  ⟨h.started, fun hheld => by simp [hholds] at hheld, hphase⟩

/-- The call goes on to another phase, or ends, and nothing else changes. -/
theorem Sound.turn (h : Sound m s) (next : Option Call)
    (hnext : ∀ call, next = some call → call.Ok m s id) :
    Sound m { s with calls := Function.update s.calls id next } := by
  have hlater : Later s { s with calls := Function.update s.calls id next } :=
    .of_eq (fun _ hj => hj) rfl rfl rfl List.suffix_rfl
  obtain ⟨record, hread, hrecord⟩ := h.record
  refine h.beside ⟨hlater, fun _ _ hf => hf, fun j hj => Function.update_of_ne hj _ _,
    fun j _ hj => ⟨hj, rfl, rfl⟩⟩ (h.disk.of_eq rfl rfl rfl)
    ⟨record, hread, hrecord.later hlater rfl rfl⟩ h.removed ?_
  intro c hc
  refine (hnext c ?_).later hlater hrecord.recorded (fun _ _ hf => hf)
    (fun hj => ⟨hj, rfl, rfl⟩)
  simpa using hc

end

/-! What a run has to meet. -/

/-- The folder the call is about to drop from the record. -/
def Phase.forgets : Phase → Option Path
  | .rename (.forget folder) _ => some folder
  | _ => none

/-- The Staging Directory the call is about to make, or make a folder in. -/
def Phase.makesIn : Phase → Option Path
  | .makeRoot root _ | .makeFolder root _ _ => some root
  | _ => none

/-- No folder that stands at the path was recorded since the delete removed it, and the Staging
Directory is in no folder made before. -/
def Call.Meets (s : State) (call : Call) : Prop :=
  (∀ folder ∈ call.phase.forgets, ∀ p ∈ s.recorded.take (s.recorded.length - call.since),
    p.1 = folder → ¬ s.Stands p) ∧
  ∀ root ∈ call.phase.makesIn, ∀ folder ∈ s.made, ¬ folder <+: root

instance (s : State) (call : Call) : Decidable (call.Meets s) :=
  inferInstanceAs (Decidable (_ ∧ _))

def Event.Meets (s : State) : Event → Prop
  | .act id _ => ∀ call ∈ s.calls id, call.Meets s
  | _ => True

instance (s : State) : (e : Event) → Decidable (e.Meets s)
  | .act id _ => inferInstanceAs (Decidable (∀ call ∈ s.calls id, call.Meets s))
  | .start _ _ _ | .stop _ | .crash _ | .fill _ _ => inferInstanceAs (Decidable True)

/-! The change of the record. -/

section
variable {m : Machine} {s t : State} {id : Nat} {call : Call} {change : Change}
  {record : Record}

/-- The lock changes hands, or what the holder is writing does. -/
theorem Sound.holder (h : Sound m s) (lock : Option Nat) (temp : Nat → Option Content)
    (next : Call) (hlock : ∀ j, j ≠ id → s.lock ≠ some j)
    (hnext : next.Ok m { s with lock := lock, temp := temp } id) :
    Sound m { s with
      calls := Function.update s.calls id (some next), lock := lock, temp := temp } := by
  have hlater : Later s { s with
      calls := Function.update s.calls id (some next), lock := lock, temp := temp } :=
    .of_eq (fun _ hj => hj) rfl rfl rfl List.suffix_rfl
  obtain ⟨record, hread, hrecord⟩ := h.record
  refine h.beside ⟨hlater, fun _ _ hf => hf, fun j hj => Function.update_of_ne hj _ _,
    fun j hj hheld => absurd hheld (hlock j hj)⟩ (h.disk.of_eq rfl rfl rfl)
    ⟨record, hread, hrecord.later hlater rfl rfl⟩ h.removed ?_
  intro c hc
  obtain rfl : next = c := by simpa using hc
  exact hnext.later (.of_eq (fun _ hj => hj) rfl rfl rfl List.suffix_rfl) hrecord.recorded
    (fun _ _ hf => hf) (fun hj => ⟨hj, rfl, rfl⟩)

/-- The new record is right of what stands, when the step meets its condition. -/
theorem RecordOk.apply (h : RecordOk s record) (device : Option Nat) {since : Nat}
    (hchange : change.Ok s since)
    (hmeets : ∀ folder, change = .forget folder →
      ∀ p ∈ s.recorded.take (s.recorded.length - since), p.1 = folder → ¬ s.Stands p) :
    RecordOk (s.committed change) (change.apply device record) := by
  cases change with
  | setRoot root => exact ⟨rfl, h.folders, h.recorded, h.listed⟩
  | push folder making =>
    refine ⟨h.root, ?_, ?_, ?_⟩
    · intro x hx
      rcases List.mem_append.mp hx with hold | hnew
      · exact h.folders x hold
      · obtain rfl := List.mem_singleton.mp hnew
        exact hchange.1
    · intro p hp
      rcases List.mem_cons.mp hp with rfl | hold
      · exact hchange.2
      · exact h.recorded p hold
    · intro p hp hstands
      rcases List.mem_cons.mp hp with rfl | hold
      · exact ⟨_, List.mem_append_right _ (List.mem_singleton_self _), rfl⟩
      · obtain ⟨x, hx, hpath⟩ := h.listed p hold hstands
        exact ⟨x, List.mem_append_left _ hx, hpath⟩
  | forget folder =>
    refine ⟨h.root, fun x hx => h.folders x (List.mem_of_mem_filter hx), h.recorded, ?_⟩
    intro p hp hstands
    obtain ⟨x, hx, hpath⟩ := h.listed p hp hstands
    refine ⟨x, List.mem_filter.mpr ⟨hx, ?_⟩, hpath⟩
    have hne : p.1 ≠ folder := by
      intro heq
      have hsplit := List.take_append_drop (s.recorded.length - since) s.recorded
      rcases List.mem_append.mp (hsplit ▸ hp : p ∈ _ ++ _) with hnew | hold
      · exact hmeets folder rfl p hnew heq hstands
      · exact hchange.2 p hold heq hstands
    simpa [hpath] using hne

theorem committed_eq (s : State) (change : Change) (id : Nat) :
    ∃ recorded stored, s.recorded <:+ recorded ∧
      s.committed change = { s with recorded := recorded, stored := stored } ∧
      (s.finish id).committed change =
        { s.finish id with recorded := recorded, stored := stored } := by
  cases change with
  | setRoot root => exact ⟨s.recorded, root, List.suffix_rfl, rfl, rfl⟩
  | push folder making => exact ⟨_, s.stored, List.suffix_cons (folder, making) _, rfl, rfl⟩
  | forget folder => exact ⟨s.recorded, s.stored, List.suffix_rfl, rfl, rfl⟩

theorem Sound.actChange (h : Sound m s) (hcall : s.calls id = some call)
    (hmeets : call.Meets s) (ht : s.actChange m id call call.phase = some t) : Sound m t := by
  have hok := h.calls id call hcall
  obtain ⟨pid, phase, since⟩ := call
  obtain ⟨hstarted, hheld, hphase⟩ := hok
  cases phase with
  | lock change =>
    simp only [State.actChange] at ht
    split at ht
    · rename_i hfree
      obtain rfl := Option.some.inj ht
      exact h.holder (some id) s.temp ⟨pid, .read change, since⟩ (by simp [hfree])
        ⟨hstarted, fun _ => rfl, hphase⟩
    · cases ht
  | read change =>
    obtain ⟨record, hread, -⟩ := h.record
    simp only [State.actChange, hread, Option.pure_def, Option.bind_eq_bind,
      Option.bind_some] at ht
    obtain rfl := Option.some.inj ht
    refine h.turn _ (fun c hc => ?_)
    obtain rfl := Option.some.inj hc
    refine ⟨hstarted, fun _ => hheld rfl, hphase, record, ?_⟩
    cases change with
    | setRoot root => exact ⟨none, hread, rfl⟩
    | push folder making => exact ⟨_, hread, rfl⟩
    | forget folder => exact ⟨none, hread, rfl⟩
  | write change record =>
    obtain rfl := Option.some.inj ht
    have hlock : ∀ j, j ≠ id → s.lock ≠ some j := fun j hj hl =>
      hj (Option.some.inj (hl.symm.trans (hheld rfl)))
    exact h.holder s.lock _ ⟨pid, .finishWrite change record, since⟩ hlock
      ⟨hstarted, fun _ => hheld rfl, hphase⟩
  | finishWrite change record =>
    obtain rfl := Option.some.inj ht
    have hlock : ∀ j, j ≠ id → s.lock ≠ some j := fun j hj hl =>
      hj (Option.some.inj (hl.symm.trans (hheld rfl)))
    exact h.holder s.lock _ ⟨pid, .rename change record, since⟩ hlock
      ⟨hstarted, fun _ => hheld rfl, hphase.1, hphase.2, Function.update_self ..⟩
  | rename change record =>
    obtain rfl := Option.some.inj ht
    obtain ⟨hchange, ⟨old, device, hread, rfl⟩, htemp⟩ := hphase
    obtain ⟨record, hreads, hrecord⟩ := h.record
    obtain rfl := Option.some.inj (hread.symm.trans hreads)
    have hnew := hrecord.apply device hchange (fun folder hfolder =>
      hmeets.1 folder (by rw [hfolder]; rfl))
    obtain ⟨recorded, stored, hsuffix, hcommitted, hfinished⟩ := committed_eq s change id
    rw [hcommitted] at hnew
    rw [hfinished]
    refine h.beside ⟨.of_eq (fun _ hj => hj) rfl rfl rfl hsuffix, fun _ _ hf => hf,
      fun j hj => Function.update_of_ne hj _ _, fun j hj hl => ?_⟩ (h.disk.of_eq rfl rfl rfl)
      ⟨_, ?_, ⟨hnew.root, hnew.folders, hnew.recorded, hnew.listed⟩⟩ h.removed ?_
    · exact absurd (Option.some.inj (hl.symm.trans (hheld rfl))) hj
    · simp [State.readLocked, htemp]
    · intro c hc
      simp [State.finish] at hc
  | _ => cases ht

end

/-! Making and deleting folders. -/

section
variable {m : Machine} {s t : State} {id : Nat} {call : Call} {pick : Path}

/-- What a call does to the disk. -/
theorem Sound.alter (h : Sound m s) (hid : id ∈ s.started) (hdisk : DiskOk m t)
    (hnew : ∀ n ∈ t.disk, n ∈ s.disk ∨ (n.making = none ∨ n.making = some s.makings) ∧
      ∀ f ∈ s.made, Inside f n.path → n.path = f ++ [exportSentinel])
    (hmade : ∀ f ∈ s.made, f ∈ t.made) (hmakings : s.makings ≤ t.makings)
    (hremoved : ∀ p ∈ t.removed, ∃ f ∈ t.made, f <+: p)
    (hrest : t.file = s.file ∧ t.temp = s.temp ∧ t.lock = s.lock ∧ t.started = s.started ∧
      t.recorded = s.recorded ∧ t.stored = s.stored)
    (hcalls : ∀ j, j ≠ id → t.calls j = s.calls j)
    (hself : ∀ c, t.calls id = some c →
      c.phase.holds = false ∧ c.phase.Ok m t c.pid c.since) : Sound m t := by
  obtain ⟨hfile, htemp, hlock, hstarted, hrecorded, hstored⟩ := hrest
  have hlater : Later s t := by
    refine ⟨fun j hj => hstarted ▸ hj, hmade, hmakings, hrecorded ▸ List.suffix_rfl, ?_⟩
    rintro p hp ⟨n, hn, hpath, hmaking⟩
    rcases hnew n hn with hold | ⟨hforeign | hself, -⟩
    · exact ⟨n, hold, hpath, hmaking⟩
    · simp [hforeign] at hmaking
    · have heq : s.makings = p.2 := Option.some.inj (hself.symm.trans hmaking)
      omega
  obtain ⟨record, hread, hrecord⟩ := h.record
  refine h.beside ⟨hlater, ?_, hcalls, fun j _ hj => ⟨hlock.trans hj, hfile, htemp⟩⟩ hdisk
    ⟨record, ?_, hrecord.later hlater hrecorded hstored⟩ hremoved ?_
  · intro f hf honly n hn hin
    rcases hnew n hn with hold | ⟨-, hsentinel⟩
    · exact honly n hold hin
    · exact hsentinel f hf hin
  · rw [← hread, State.readLocked, State.readLocked, hfile]
  · intro c hc
    obtain ⟨hholds, hphase⟩ := hself c hc
    exact ⟨hstarted ▸ hid, fun hheld => by simp [hholds] at hheld, hphase⟩

/-- A remover of the folder takes something. -/
theorem Sound.remove (h : Sound m s) (hid : id ∈ s.started) {f x : Path} (hf : f ∈ s.made)
    (hx : f <+: x) (hempty : s.Empty x) (honly : x = f ++ [exportSentinel] → s.OnlySentinel f)
    {calls : Nat → Option Call} (hcalls : ∀ j, j ≠ id → calls j = s.calls j)
    (hself : ∀ c, calls id = some c →
      c.phase.holds = false ∧ c.phase.Ok m (s.remove x) c.pid c.since) :
    Sound m { s.remove x with calls := calls } := by
  refine h.alter hid (h.disk.remove hf hx hempty honly rfl rfl rfl)
    (fun n hn => .inl (List.mem_of_mem_filter hn)) (fun _ hg => hg) (Nat.le_refl _) ?_
    ⟨rfl, rfl, rfl, rfl, rfl, rfl⟩ hcalls ?_
  · intro p hp
    rcases List.mem_cons.mp hp with rfl | hold
    · exact ⟨f, hf, hx⟩
    · exact h.removed p hold
  · intro c hc
    obtain ⟨hholds, hphase⟩ := hself c hc
    refine ⟨hholds, ?_⟩
    cases hp : c.phase with
    | _ => rw [hp] at hphase; exact hphase

theorem Sound.goto (h : Sound m s) (hcall : s.calls id = some call) {phase : Phase}
    (hholds : phase.holds = false) (hphase : phase.Ok m s call.pid call.since) :
    Sound m (s.goto id call phase) := by
  refine h.turn _ (fun c hc => ?_)
  exact Option.some.inj hc ▸ (h.calls id call hcall).goto hholds hphase

theorem Sound.actCreate (h : Sound m s) (hcall : s.calls id = some call)
    (hmeets : call.Meets s) (ht : s.actCreate m id call call.phase = some t) : Sound m t := by
  have hok := h.calls id call hcall
  have hphase := hok.phase
  have hothers : ∀ (next : Option Call) j, j ≠ id →
      Function.update s.calls id next j = s.calls j :=
    fun next j hj => Function.update_of_ne hj next s.calls
  cases hp : call.phase with
  | readRoot base =>
    simp only [hp, State.actCreate, Option.pure_def, Option.bind_eq_bind,
      Option.bind_eq_some_iff] at ht
    obtain ⟨record, -, raw, -, root, hroot, ht⟩ := ht
    obtain rfl := Option.some.inj ht
    exact h.goto hcall rfl ⟨raw, hroot⟩
  | makeRoot root base =>
    rw [hp] at ht hphase
    obtain rfl := Option.some.inj ht
    have hroot := hmeets.2 root (by rw [hp]; rfl)
    refine h.alter hok.started ((h.disk.createDirAll hroot).of_eq rfl rfl rfl) (fun n hn => ?_)
      (fun _ hf => hf) (Nat.le_refl _) h.removed ⟨rfl, rfl, rfl, rfl, rfl, rfl⟩ (hothers _) ?_
    · rcases List.mem_append.mp hn with hold | hnew
      · exact .inl hold
      · obtain ⟨hle, hforeign⟩ := mem_createDirAll hnew
        exact .inr ⟨.inl hforeign, fun f hf hin => absurd (hin.1.trans hle) (hroot f hf)⟩
    · intro c hc
      obtain rfl : _ = c := by simpa [State.goto] using hc
      exact ⟨rfl, hphase⟩
  | makeFolder root base n =>
    rw [hp] at ht hphase
    obtain ⟨raw, hraw⟩ := hphase
    have hroot := hmeets.2 root (by rw [hp]; rfl)
    simp only [State.actCreate] at ht
    split at ht
    · obtain rfl := Option.some.inj ht
      exact h.goto hcall rfl ⟨raw, hraw⟩
    · rename_i hfree
      split at ht
      · rename_i hdir
        obtain rfl := Option.some.inj ht
        refine h.alter hok.started (h.disk.makeFolder hraw hroot hfree hdir rfl rfl rfl)
          (fun k hk => ?_) (fun _ hf => List.mem_cons_of_mem _ hf) (Nat.le_succ _) ?_
          ⟨rfl, rfl, rfl, rfl, rfl, rfl⟩ (hothers _) ?_
        · rcases List.mem_append.mp hk with hold | hnew
          · exact .inl hold
          · obtain rfl := List.mem_singleton.mp hnew
            exact .inr ⟨.inr rfl, fun f hf hin => absurd hin.prefix_of_concat (hroot f hf)⟩
        · intro p hp
          obtain ⟨f, hf, hle⟩ := h.removed p hp
          exact ⟨f, List.mem_cons_of_mem _ hf, hle⟩
        · intro c hc
          obtain rfl : _ = c := by simpa [State.goto] using hc
          exact ⟨rfl, List.mem_cons_self, Nat.lt_succ_self _⟩
      · cases ht
  | mark folder making =>
    rw [hp] at ht hphase
    simp only [State.actCreate] at ht
    split at ht
    · rename_i hdir
      obtain rfl := Option.some.inj ht
      refine h.alter hok.started (h.disk.mark hphase.1 hdir rfl rfl rfl) (fun k hk => ?_)
        (fun _ hf => hf) (Nat.le_refl _) h.removed ⟨rfl, rfl, rfl, rfl, rfl, rfl⟩ (hothers _) ?_
      · rcases List.mem_append.mp hk with hold | hnew
        · exact .inl (List.mem_of_mem_filter hold)
        · obtain rfl := List.mem_singleton.mp hnew
          refine .inr ⟨.inl rfl, fun f hf hin => ?_⟩
          rw [h.disk.apart f hf folder hphase.1 hin.prefix_of_concat]
      · intro c hc
        obtain rfl : _ = c := by simpa [State.goto] using hc
        exact ⟨rfl, hphase⟩
    · cases ht
  | resolve folder making =>
    rw [hp] at ht hphase
    simp only [State.actCreate] at ht
    split at ht
    · obtain rfl := Option.some.inj ht
      rw [h.disk.canonical folder hphase.1]
      exact h.goto hcall rfl hphase
    · cases ht
  | _ => simp [hp, State.actCreate] at ht

/-- The folder the call is to forget does not stand. -/
theorem Sound.toForget (h : Sound m s) (hcall : s.calls id = some call) {folder : Path}
    (hgone : ∀ p ∈ s.recorded, p.1 = folder → ¬ s.Stands p) :
    Sound m (s.toForget id call folder) := by
  refine h.turn _ (fun c hc => ?_)
  obtain rfl := Option.some.inj hc
  exact ⟨(h.calls id call hcall).started, (fun hheld => by cases hheld), Nat.le_refl _,
    fun p hp => hgone p (List.mem_of_mem_drop hp)⟩

/-- A delete takes the folder itself. -/
theorem Sound.removeFolder (h : Sound m s) (hid : id ∈ s.started) {folder : Path}
    (hf : folder ∈ s.made) (hempty : s.Empty folder) :
    Sound m ((s.remove folder).toForget id call folder) := by
  refine h.remove hid hf List.prefix_rfl hempty (fun hself => ?_)
    (fun j hj => Function.update_of_ne hj _ _) ?_
  · simp at hself
  · intro c hc
    rw [Function.update_self] at hc
    obtain rfl := Option.some.inj hc
    refine ⟨rfl, Nat.le_refl _, ?_⟩
    rintro p - rfl ⟨n, hn, hpath, -⟩
    simpa [hpath] using (List.mem_filter.mp hn).2

theorem Sound.actDelete (h : Sound m s) (hcall : s.calls id = some call)
    (ht : s.actDelete m id call pick call.phase = some t) : Sound m t := by
  have hok := h.calls id call hcall
  have hphase := hok.phase
  have hlisted : ∀ record, s.read = some record → ∀ made ∈ record.folders,
      made.path ∈ s.made := by
    intro record hread made hmade
    obtain ⟨record', hread', hrecord⟩ := h.record
    unfold State.read at hread
    split at hread
    · obtain rfl := Option.some.inj (hread.symm.trans hread')
      exact hrecord.folders made hmade
    · cases hread
  cases hp : call.phase with
  | find dir =>
    simp only [hp, State.actDelete, Option.pure_def, Option.bind_eq_bind,
      Option.bind_eq_some_iff] at ht
    obtain ⟨record, hread, ht⟩ := ht
    obtain rfl := Option.some.inj ht
    refine h.goto hcall rfl (fun hsome => ?_)
    obtain ⟨made, hmade⟩ := Option.isSome_iff_exists.mp hsome
    have hpath : made.path = dir := by simpa using List.find?_some hmade
    exact hpath ▸ hlisted record hread made (List.mem_of_find?_eq_some hmade)
  | gone dir made =>
    rw [hp] at ht hphase
    simp only [State.actDelete] at ht
    split at ht
    · rename_i hgone
      obtain rfl := Option.some.inj ht
      refine h.toForget hcall ?_
      rintro p hp rfl ⟨n, hn, hpath, hmaking⟩
      obtain ⟨-, hmade, -⟩ := h.disk.made n hn _ hmaking
      refine hgone.1 ⟨n, hn, ?_⟩
      rw [← hpath, h.disk.canonical _ hmade]
    · obtain rfl := Option.some.inj ht
      exact h.goto hcall rfl hphase
  | emptied dir made =>
    rw [hp] at ht hphase
    simp only [State.actDelete] at ht
    split at ht
    · rename_i hcond
      obtain rfl := Option.some.inj ht
      exact h.goto hcall rfl (hphase hcond.1)
    · obtain rfl := Option.some.inj ht
      exact h.goto hcall rfl trivial
  | removeEmptied dir =>
    rw [hp] at ht hphase
    simp only [State.actDelete, h.disk.canonical dir hphase] at ht
    split at ht
    · rename_i hcond
      obtain rfl := Option.some.inj ht
      exact h.removeFolder hok.started hphase hcond.2
    · cases ht
  | canonicalize dir delete =>
    rw [hp] at ht
    simp only [State.actDelete] at ht
    split at ht
    · obtain rfl := Option.some.inj ht
      exact h.goto hcall rfl trivial
    · cases ht
  | check folder delete =>
    simp only [hp, State.actDelete, Option.bind_eq_bind, Option.bind_eq_some_iff] at ht
    obtain ⟨record, hread, ht⟩ := ht
    split at ht
    · rename_i hany
      obtain rfl := Option.some.inj ht
      obtain ⟨made, hmade, hpath⟩ := List.any_eq_true.mp hany
      obtain rfl := of_decide_eq_true hpath
      exact h.goto hcall rfl (hlisted record hread made hmade)
    · cases ht
  | sentinel folder delete =>
    rw [hp] at ht hphase
    simp only [State.actDelete] at ht
    split at ht
    · obtain rfl := Option.some.inj ht
      cases delete with
      | true => exact h.goto hcall rfl hphase
      | false => exact h.turn none (fun c hc => by cases hc)
    · cases ht
  | removing folder =>
    rw [hp] at ht hphase
    simp only [State.actDelete] at ht
    split at ht
    · rename_i hcond
      obtain ⟨-, hin, hother, hempty⟩ := hcond
      obtain rfl := Option.some.inj ht
      have hcalls : ∀ j, j ≠ id → s.calls j = s.calls j := fun _ _ => rfl
      refine h.remove hok.started hphase hin.1 hempty (fun hself => absurd hself hother)
        hcalls (fun c hc => ?_)
      obtain rfl := Option.some.inj (hcall.symm.trans hc)
      rw [hp]
      exact ⟨rfl, hphase⟩
    · split at ht
      · rename_i honly
        obtain rfl := Option.some.inj ht
        exact h.goto hcall rfl ⟨hphase, honly⟩
      · cases ht
  | unmark folder =>
    rw [hp] at ht hphase
    simp only [State.actDelete] at ht
    split at ht
    · obtain rfl := Option.some.inj ht
      obtain ⟨hmade, honly⟩ := hphase
      have hempty : s.Empty (folder ++ [exportSentinel]) := by
        intro n hn hin
        refine hin.2 (honly n hn ⟨(List.prefix_append _ _).trans hin.1, ?_⟩)
        rintro heq
        have hlen := hin.1.length_le
        rw [heq, List.length_append] at hlen
        simp at hlen
      refine h.remove hok.started hmade (List.prefix_append _ _) hempty (fun _ => honly)
        (fun j hj => Function.update_of_ne hj _ _) (fun c hc => ?_)
      rw [Function.update_self] at hc
      obtain rfl := Option.some.inj hc
      exact ⟨rfl, hmade⟩
    · cases ht
  | rmdir folder =>
    rw [hp] at ht hphase
    simp only [State.actDelete] at ht
    split at ht
    · rename_i hcond
      obtain rfl := Option.some.inj ht
      exact h.removeFolder hok.started hphase hcond.2
    · cases ht
  | _ => simp [hp, State.actDelete] at ht

end

/-! One step, and a run. -/

section
variable {m : Machine} {s : State} {id pid : Nat}

theorem Sound.start (h : Sound m s) {calls : Nat → Option Call}
    (hcalls : ∀ j, j ≠ id → calls j = s.calls j)
    (hself : ∀ c, calls id = some c → c.phase.holds = false ∧ c.phase.Ok m s c.pid c.since) :
    Sound m { s with calls := calls, started := id :: s.started } := by
  have hlater : Later s { s with calls := calls, started := id :: s.started } :=
    .of_eq (fun _ hj => List.mem_cons_of_mem _ hj) rfl rfl rfl List.suffix_rfl
  obtain ⟨record, hread, hrecord⟩ := h.record
  refine h.beside ⟨hlater, fun _ _ hf => hf, hcalls, fun j _ hj => ⟨hj, rfl, rfl⟩⟩
    (h.disk.of_eq rfl rfl rfl) ⟨record, hread, hrecord.later hlater rfl rfl⟩ h.removed ?_
  intro c hc
  obtain ⟨hholds, hphase⟩ := hself c hc
  refine ⟨List.mem_cons_self, fun hheld => by simp [hholds] at hheld, ?_⟩
  cases hp : c.phase with
  | _ => rw [hp] at hphase; exact hphase

theorem Input.first_ok {input : Input} {phase : Phase} (h : input.first m = some phase) :
    phase.holds = false ∧ phase.Ok m s pid 0 := by
  cases input with
  | setRoot raw =>
    simp only [Input.first] at h
    split at h
    · obtain rfl := Option.some.inj h
      exact ⟨rfl, trivial⟩
    · split at h
      · cases h
      · split at h <;> (obtain rfl := Option.some.inj h; exact ⟨rfl, trivial⟩)
  | create label timestamp =>
    obtain ⟨slug, -, rfl⟩ := Option.map_eq_some_iff.mp h
    exact ⟨rfl, trivial⟩
  | folder dir =>
    obtain ⟨path, -, rfl⟩ := Option.map_eq_some_iff.mp h
    exact ⟨rfl, trivial⟩
  | delete dir =>
    obtain ⟨path, -, rfl⟩ := Option.map_eq_some_iff.mp h
    exact ⟨rfl, trivial⟩

theorem Sound.stopped (h : Sound m s) : Sound m (s.stopped id) := by
  have hlater : Later s (s.stopped id) :=
    .of_eq (fun _ hj => hj) rfl rfl rfl List.suffix_rfl
  obtain ⟨record, hread, hrecord⟩ := h.record
  refine h.beside ⟨hlater, fun _ _ hf => hf, fun j hj => Function.update_of_ne hj _ _, ?_⟩
    (h.disk.of_eq rfl rfl rfl) ⟨record, hread, hrecord.later hlater rfl rfl⟩ h.removed ?_
  · intro j hj hl
    exact ⟨by simp [State.stopped, hl, hj], rfl, rfl⟩
  · intro c hc
    simp [State.stopped, State.finish] at hc

theorem Sound.crashed (h : Sound m s) : Sound m (s.crashed pid) := by
  have hlater : Later s (s.crashed pid) :=
    .of_eq (fun _ hj => hj) rfl rfl rfl List.suffix_rfl
  obtain ⟨record, hread, hrecord⟩ := h.record
  refine ⟨h.disk.of_eq rfl rfl rfl, ⟨record, hread, hrecord.later hlater rfl rfl⟩,
    h.removed, ?_⟩
  intro id c hc
  obtain ⟨hcall, hother⟩ := Option.filter_eq_some_iff.mp hc
  refine (h.calls id c hcall).later hlater hrecord.recorded (fun _ _ hf => hf) ?_
  intro hl
  refine ⟨?_, rfl, rfl⟩
  simpa [State.crashed, hl, hcall] using hother

theorem Sound.fill (h : Sound m s) {folder : Path} {node : Node}
    (hmay : s.MayFill folder node) : Sound m { s with disk := s.disk ++ [node] } := by
  obtain ⟨⟨record, hreads, made, hmade, rfl⟩, hmarked, hin, -, ⟨parent, hparent, hpath, -⟩,
    hforeign, hnoRemover⟩ := hmay
  obtain ⟨record', hread, hrecord⟩ := h.record
  obtain rfl := Option.some.inj (hreads.symm.trans hread)
  have hfolder := hrecord.folders made hmade
  have hsame : ∀ f ∈ s.made, Inside f node.path → f = made.path := by
    intro f hf hfin
    rcases List.prefix_or_prefix_of_prefix hfin.1 hin.1 with hle | hle
    · exact h.disk.apart f hf _ hfolder hle
    · exact (h.disk.apart _ hfolder f hf hle).symm
  have hlater : Later s { s with disk := s.disk ++ [node] } := by
    refine ⟨fun _ hj => hj, fun _ hf => hf, Nat.le_refl _, List.suffix_rfl, ?_⟩
    rintro p - ⟨n, hn, hnpath, hmaking⟩
    rcases List.mem_append.mp hn with hold | hnew
    · exact ⟨n, hold, hnpath, hmaking⟩
    · obtain rfl := List.mem_singleton.mp hnew
      simp [hforeign] at hmaking
  refine ⟨h.disk.add rfl rfl rfl ?_ ?_ ?_, ⟨record, hread, hrecord.later hlater rfl rfl⟩,
    h.removed, ?_⟩
  · intro n hn a ha
    obtain rfl := List.mem_singleton.mp hn
    rcases eq_or_ne n.path a with rfl | hne
    · exact ⟨n, List.mem_append_right _ (List.mem_singleton_self _), rfl⟩
    · obtain ⟨k, hk, hkpath⟩ := h.disk.closed parent hparent a
        (hpath ▸ Inside.prefix_dropLast ⟨ha, hne⟩)
      exact ⟨k, List.mem_append_left _ hk, hkpath⟩
  · intro n hn
    rwa [List.mem_singleton.mp hn]
  · intro n hn g hg hgin
    obtain rfl := List.mem_singleton.mp hn
    rw [hsame g hg hgin]
    exact hmarked
  · intro id c hc
    have hok := h.calls id c hc
    refine hok.later hlater hrecord.recorded ?_ (fun hl => ⟨hl, rfl, rfl⟩)
    intro f hf honly n hn hnin
    rcases List.mem_append.mp hn with hold | hnew
    · exact honly n hold hnin
    · -- no delete is at its last steps in the folder that is filled
      obtain rfl := List.mem_singleton.mp hnew
      have hmadef : f ∈ s.made := by
        have hphase := hok.phase
        rw [hf] at hphase
        exact hphase.1
      have hbusy := hnoRemover id hok.started c hc
      simp [hf, Phase.removes, hsame f hmadef hnin] at hbusy

theorem State.advance_cases {t : State} {call : Call} {pick : Path}
    (h : s.advance m id call pick = some t) :
    s.actChange m id call call.phase = some t ∨ s.actCreate m id call call.phase = some t ∨
      s.actDelete m id call pick call.phase = some t := by
  unfold State.advance at h
  split at h <;> simp_all

theorem Sound.step (h : Sound m s) (e : Event) (hmeets : e.Meets s) : Sound m (s.step m e) := by
  cases e with
  | start id pid input =>
    simp only [State.step]
    split
    · exact h
    · rename_i hid
      split
      · refine h.start (fun _ _ => rfl) (fun c hc => ?_)
        exact absurd (h.calls id c hc).started hid
      · rename_i phase hfirst
        refine h.start (fun j hj => Function.update_of_ne hj _ _) (fun c hc => ?_)
        rw [Function.update_self] at hc
        obtain rfl := Option.some.inj hc
        exact Input.first_ok hfirst
  | act id pick =>
    simp only [State.step]
    split
    · exact h
    · rename_i call hcall
      split
      · exact h
      · cases hadvance : s.advance m id call pick with
        | none => exact h.stopped
        | some t =>
          have hmeets' := hmeets call hcall
          rcases State.advance_cases hadvance with hchange | hcreate | hdelete
          · exact h.actChange hcall hmeets' hchange
          · exact h.actCreate hcall hmeets' hcreate
          · exact h.actDelete hcall hdelete
  | stop id => exact h.stopped
  | crash pid => exact h.crashed
  | fill folder node =>
    simp only [State.step]
    split
    · rename_i hmay
      exact h.fill hmay
    · exact h

theorem Sound.initial : Sound m (initial m) where
  disk := ⟨m.disk_closed, fun n hn g hg => by simp [m.disk_foreign n hn] at hg,
    fun n hn hg => absurd (m.disk_foreign n hn) hg, fun f hf => absurd hf List.not_mem_nil,
    fun f hf => absurd hf List.not_mem_nil, fun f hf => absurd hf List.not_mem_nil⟩
  record := ⟨_, rfl, rfl, fun made hmade => absurd hmade List.not_mem_nil,
    fun p hp => absurd hp List.not_mem_nil, fun p hp => absurd hp List.not_mem_nil⟩
  removed := fun p hp => absurd hp List.not_mem_nil
  calls := fun id call hcall => by cases hcall

end

end MessageCrate.Staged

import MessageCrate.Desktop.Calls
import Mathlib.Data.Finset.Max

/- A staging folder that is on disk is in the record.

   1. `Goes`: a call takes its steps with no other between them; `goes_deleted`: a
      delete of a folder the record lists, whatever an earlier one left of it, can be taken
      to its end.
   2. `keeps_of_meeting`: the record is right of the disk after any run in which no delete
      forgets a path where a folder was recorded since its removal, and no folder is made
      inside a staging folder. -/
namespace MessageCrate.Staged
open Runs

/-! A delete that nothing interrupts. -/

/-- The call may take steps from one state to the other, with no other event between them. -/
def Goes (m : Machine) (id : Nat) (s t : State) : Prop :=
  ∃ picks : List Path, picks.foldl (fun s pick => s.step m (.act id pick)) s = t

section
variable {m : Machine} {s t u : State} {id pid since : Nat} {call : Call} {f : Path}
  {record : Record}

theorem Goes.refl : Goes m id s s := ⟨[], rfl⟩

theorem Goes.trans (h : Goes m id s t) (h' : Goes m id t u) : Goes m id s u := by
  obtain ⟨picks, rfl⟩ := h
  obtain ⟨picks', rfl⟩ := h'
  exact ⟨picks ++ picks', List.foldl_append⟩

theorem Goes.act (pick : Path) (hcall : s.calls id = some call)
    (hfree : call.phase.waits = false ∨ s.lock = none)
    (ht : s.advance m id call pick = some t) (hrest : Goes m id t u) : Goes m id s u := by
  obtain ⟨picks, rfl⟩ := hrest
  refine ⟨pick :: picks, ?_⟩
  have hstep : s.step m (.act id pick) = t := by
    have hlock : ¬ (call.phase.waits = true ∧ s.lock ≠ none) := by
      rcases hfree with hwaits | hnone
      · simp [hwaits]
      · simp [hnone]
    simp only [State.step, hcall]
    rw [if_neg hlock, ht, Option.getD_some]
  rw [List.foldl_cons, hstep]

/-- Of the nodes in a folder, one with a longest path has nothing in it. -/
theorem exists_empty_in (h : ¬ s.OnlySentinel f) :
    ∃ n ∈ s.disk, Inside f n.path ∧ n.path ≠ f ++ [exportSentinel] ∧ s.Empty n.path := by
  let others := s.disk.toFinset.filter
    (fun n => Inside f n.path ∧ n.path ≠ f ++ [exportSentinel])
  have hmem : ∀ n, n ∈ others ↔ n ∈ s.disk ∧ Inside f n.path ∧
      n.path ≠ f ++ [exportSentinel] := by simp [others]
  have hnonempty : others.Nonempty := by
    simp only [State.OnlySentinel, not_forall] at h
    obtain ⟨n, hn, hin, hne⟩ := h
    exact ⟨n, (hmem n).mpr ⟨hn, hin, hne⟩⟩
  obtain ⟨n, hn, hmax⟩ := others.exists_max_image (fun n => n.path.length) hnonempty
  obtain ⟨hdisk, hin, hne⟩ := (hmem n).mp hn
  refine ⟨n, hdisk, hin, hne, fun k hk hkin => ?_⟩
  have hlonger : n.path.length < k.path.length := by
    refine Nat.lt_of_le_of_ne hkin.1.length_le (fun heq => ?_)
    exact hkin.2 (hkin.1.eq_of_length heq).symm
  have hkfolder : Inside f k.path := by
    refine ⟨hin.1.trans hkin.1, fun heq => ?_⟩
    have hle := hin.1.length_le
    rw [← heq] at hle
    omega
  have hkother : k.path ≠ f ++ [exportSentinel] := by
    intro heq
    have hback : n.path <+: f := by
      rw [heq] at hkin
      exact hkin.prefix_of_concat
    exact hin.2 (hback.eq_of_length_le hin.1.length_le)
  have hle := hmax k ((hmem k).mpr ⟨hk, hkfolder, hkother⟩)
  omega

theorem goes_unmark (hcall : s.calls id = some ⟨pid, .removing f, since⟩)
    (hmarked : s.Marked f) (hdir : s.IsDir f) :
    ∃ t, Goes m id s t ∧ t.calls id = some ⟨pid, .unmark f, since⟩ ∧ t.OnlySentinel f ∧
      t.Marked f ∧ t.IsDir f ∧ t.lock = s.lock ∧ t.file = s.file := by
  -- the remover takes one node after another
  induction hlen : s.disk.length using Nat.strong_induction_on generalizing s with
  | _ len ih =>
    by_cases honly : s.OnlySentinel f
    · refine ⟨s.goto id ⟨pid, .removing f, since⟩ (.unmark f), ?_, ?_, honly, hmarked, hdir,
        rfl, rfl⟩
      · refine Goes.act f hcall (.inl rfl) ?_ .refl
        have hself : ¬ Inside f f := fun h => h.2 rfl
        simp only [State.advance, State.actDelete, hself, false_and, and_false, if_false]
        exact if_pos honly
      · simp [State.goto]
    · obtain ⟨n, hn, hin, hne, hempty⟩ := exists_empty_in honly
      have hshorter : (s.remove n.path).disk.length < len := by
        rw [← hlen]
        exact List.length_filter_lt_length_iff_exists.mpr ⟨n, hn, by simp⟩
      have hkept : ∀ k ∈ s.disk, k.path ≠ n.path → k ∈ (s.remove n.path).disk :=
        fun k hk hkne => List.mem_filter.mpr ⟨hk, by simpa using hkne⟩
      have hmarked' : (s.remove n.path).Marked f := by
        obtain ⟨k, hk, hkpath, hkind⟩ := hmarked
        exact ⟨k, hkept k hk (hkpath ▸ Ne.symm hne), hkpath, hkind⟩
      have hdir' : (s.remove n.path).IsDir f := by
        obtain ⟨k, hk, hkpath, hkind⟩ := hdir
        exact ⟨k, hkept k hk (hkpath ▸ Ne.symm hin.2), hkpath, hkind⟩
      obtain ⟨t, hgoes, ht⟩ := ih _ hshorter (s := s.remove n.path) hcall hmarked' hdir' rfl
      refine ⟨t, Goes.act n.path hcall (.inl rfl) ?_ hgoes, ht⟩
      simp only [State.advance, State.actDelete]
      exact if_pos ⟨⟨n, hn, rfl⟩, hin, hne, hempty⟩

/-- From the last step of a removal to a record without the folder. -/
theorem goes_forget (hcall : s.calls id = some ⟨pid, .lock (.forget f), since⟩)
    (hlock : s.lock = none) (hread : s.readLocked = some record) :
    ∃ t, Goes m id s t ∧ t.calls id = none ∧ t.disk = s.disk ∧
      t.readLocked = some (Change.apply none record (.forget f)) := by
  let s₁ : State := { s.goto id ⟨pid, .lock (.forget f), since⟩ (.read (.forget f)) with
    lock := some id }
  let new := Change.apply none record (.forget f)
  let s₂ := s₁.goto id ⟨pid, .read (.forget f), since⟩ (.write (.forget f) new)
  let s₃ : State := { s₂.goto id ⟨pid, .write (.forget f) new, since⟩
    (.finishWrite (.forget f) new) with temp := Function.update s.temp pid (some .torn) }
  let s₄ : State := { s₃.goto id ⟨pid, .finishWrite (.forget f) new, since⟩
    (.rename (.forget f) new) with temp := Function.update s₃.temp pid (some (.whole new)) }
  let s₅ : State := { s₄.finish id with
    file := s₄.temp pid, temp := Function.update s₄.temp pid none, lock := none }
  refine ⟨s₅, ?_, Function.update_self .., rfl, by simp [s₅, s₄, State.readLocked, new]⟩
  refine Goes.act (t := s₁) [] hcall (.inr hlock) (if_pos hlock) ?_
  refine Goes.act (t := s₂) [] (Function.update_self ..) (.inl rfl) ?_ ?_
  · have hread₁ : s₁.readLocked = some record := hread
    simp [State.advance, State.actChange, hread₁, s₂, new]
  · refine Goes.act (t := s₃) [] (Function.update_self ..) (.inl rfl) rfl ?_
    refine Goes.act (t := s₄) [] (Function.update_self ..) (.inl rfl) rfl ?_
    exact Goes.act (t := s₅) [] (Function.update_self ..) (.inl rfl) rfl .refl

/-- The call has come to the end of its removal: the folder is off the disk. -/
def Removed (id pid : Nat) (f : Path) (s t : State) : Prop :=
  (∃ since, t.calls id = some ⟨pid, .lock (.forget f), since⟩) ∧ ¬ t.OnDisk f ∧
    t.lock = s.lock ∧ t.file = s.file

theorem removed_of_remove (hcalls : ∃ since, t.calls id = some ⟨pid, .lock (.forget f), since⟩)
    (hdisk : t.disk = u.disk.filter (fun n => n.path ≠ f)) (hlock : t.lock = s.lock)
    (hfile : t.file = s.file) : Removed id pid f s t := by
  refine ⟨hcalls, ?_, hlock, hfile⟩
  rintro ⟨n, hn, hpath⟩
  rw [hdisk] at hn
  simpa [hpath] using (List.mem_filter.mp hn).2

/-- The delete has been let in. -/
theorem goes_removed (hcall : s.calls id = some ⟨pid, .removing f, since⟩)
    (hmarked : s.Marked f) (hdir : s.IsDir f) : ∃ t, Goes m id s t ∧ Removed id pid f s t := by
  obtain ⟨u, hgoes, hucall, honly, humarked, ⟨k, hk, hkpath, hkind⟩, hulock, hufile⟩ :=
    goes_unmark hcall hmarked hdir
  let v := (u.remove (f ++ [exportSentinel])).goto id ⟨pid, .unmark f, since⟩ (.rmdir f)
  have hvdir : v.IsDir f := by
    refine ⟨k, List.mem_filter.mpr ⟨hk, ?_⟩, hkpath, hkind⟩
    simp [hkpath]
  have hvempty : v.Empty f := by
    intro n hn hin
    obtain ⟨hnu, hne⟩ := List.mem_filter.mp hn
    simp [honly n hnu hin] at hne
  let w := (v.remove f).toForget id ⟨pid, .rmdir f, since⟩ f
  refine ⟨w, hgoes.trans ?_,
    removed_of_remove (u := v) ⟨_, Function.update_self ..⟩ rfl hulock hufile⟩
  refine Goes.act (t := v) [] hucall (.inl rfl) (if_pos humarked) ?_
  exact Goes.act (t := w) [] (Function.update_self ..) (.inl rfl) (if_pos ⟨hvdir, hvempty⟩) .refl

/-- The delete is let in, by the sentinel or as one that an earlier delete left empty. -/
theorem goes_removed_of_find (hcall : s.calls id = some ⟨pid, .find f, since⟩)
    (hlock : s.lock = none) (hread : s.readLocked = some record)
    (hlisted : ∃ made ∈ record.folders, made.path = f) (hcanonical : m.canonicalize f = f)
    (hdir : s.IsDir f) (hleft : s.Marked f ∨ s.Empty f) :
    ∃ t, Goes m id s t ∧ Removed id pid f s t := by
  let found := record.folders.find? (fun made => made.path = f)
  have hfound : found.isSome = true := by simpa [found] using hlisted
  have hreads : s.read = some record := by rw [State.read, if_pos hlock, hread]
  have hdisk : s.OnDisk f := by
    obtain ⟨n, hn, hpath, -⟩ := hdir
    exact ⟨n, hn, hpath⟩
  let s₁ := s.goto id ⟨pid, .find f, since⟩ (.gone f found)
  let s₂ := s₁.goto id ⟨pid, .gone f found, since⟩ (.emptied f found)
  have hgoes : Goes m id s s₂ := by
    refine Goes.act (t := s₁) [] hcall (.inr hlock) ?_ ?_
    · simp [State.advance, State.actDelete, hreads, s₁, found]
    · refine Goes.act (t := s₂) [] (Function.update_self ..) (.inl rfl) ?_ .refl
      have hthere : ¬ s₁.IsGone m f (found.bind (fun made => made.device)) :=
        fun hgone => hgone.1 (by rw [hcanonical]; exact hdisk)
      exact if_neg hthere
  by_cases hempty : s.Empty f
  · let s₃ := s₂.goto id ⟨pid, .emptied f found, since⟩ (.removeEmptied f)
    let s₄ := (s₃.remove f).toForget id ⟨pid, .removeEmptied f, since⟩ f
    refine ⟨s₄, hgoes.trans ?_,
      removed_of_remove (u := s₃) ⟨_, Function.update_self ..⟩ rfl rfl rfl⟩
    refine Goes.act (t := s₃) [] (Function.update_self ..) (.inl rfl) ?_ ?_
    · have hcond : found.isSome = true ∧ s₂.IsDir (m.canonicalize f) ∧
          s₂.Empty (m.canonicalize f) := by
        rw [hcanonical]
        exact ⟨hfound, hdir, hempty⟩
      exact if_pos hcond
    · refine Goes.act (t := s₄) [] (Function.update_self ..) (.inl rfl) ?_ .refl
      have hcond : s₃.IsDir f ∧ s₃.Empty f := ⟨hdir, hempty⟩
      simp only [State.advance, State.actDelete, hcanonical]
      exact if_pos hcond
  · let s₃ := s₂.goto id ⟨pid, .emptied f found, since⟩ (.canonicalize f true)
    let s₄ := s₃.goto id ⟨pid, .canonicalize f true, since⟩ (.check f true)
    let s₅ := s₄.goto id ⟨pid, .check f true, since⟩ (.sentinel f true)
    let s₆ := s₅.goto id ⟨pid, .sentinel f true, since⟩ (.removing f)
    have hmarked : s.Marked f := hleft.resolve_right hempty
    obtain ⟨t, hgoes', hcalls, hoff, htlock, htfile⟩ :=
      goes_removed (m := m) (s := s₆) (Function.update_self ..) hmarked hdir
    refine ⟨t, hgoes.trans ?_, hcalls, hoff, htlock, htfile⟩
    refine Goes.act (t := s₃) [] (Function.update_self ..) (.inl rfl) ?_ ?_
    · have hcond : ¬ (found.isSome = true ∧ s₂.IsDir (m.canonicalize f) ∧
          s₂.Empty (m.canonicalize f)) := by
        rw [hcanonical]
        exact fun h => hempty h.2.2
      exact if_neg hcond
    · refine Goes.act (t := s₄) [] (Function.update_self ..) (.inl rfl) ?_ ?_
      · have hthere : s₃.OnDisk f := hdisk
        simp only [State.advance, State.actDelete, hcanonical]
        exact if_pos hthere
      · refine Goes.act (t := s₅) [] (Function.update_self ..) (.inr hlock) ?_ ?_
        · have hreads₄ : s₄.read = some record := hreads
          simpa [State.advance, State.actDelete, hreads₄, s₅] using hlisted
        · exact Goes.act (t := s₆) [] (Function.update_self ..) (.inl rfl) (if_pos hmarked) hgoes'

theorem goes_deleted (hcall : s.calls id = some ⟨pid, .find f, since⟩)
    (hlock : s.lock = none) (hread : s.readLocked = some record)
    (hlisted : ∃ made ∈ record.folders, made.path = f) (hcanonical : m.canonicalize f = f)
    (hdir : s.IsDir f) (hleft : s.Marked f ∨ s.Empty f) :
    ∃ t, Goes m id s t ∧ t.calls id = none ∧ ¬ t.OnDisk f ∧
      ∃ record, t.readLocked = some record ∧ ∀ made ∈ record.folders, made.path ≠ f := by
  obtain ⟨t, hgoes, ⟨since', htcall⟩, hoff, htlock, htfile⟩ :=
    goes_removed_of_find hcall hlock hread hlisted hcanonical hdir hleft
  have htread : t.readLocked = some record := by
    rw [← hread, State.readLocked, State.readLocked, htfile]
  obtain ⟨u, hforget, hnone, hdisk, huread⟩ := goes_forget htcall (htlock.trans hlock) htread
  refine ⟨u, hgoes.trans hforget, hnone, ?_, _, huread, ?_⟩
  · unfold State.OnDisk at hoff ⊢
    rwa [hdisk]
  · intro made hmade
    simpa using (List.mem_filter.mp hmade).2

/-! What the record is right of. -/

/-- The `folder` command lets the path in. -/
def State.Accepts (m : Machine) (s : State) (dir : Path) : Prop :=
  s.OnDisk (m.canonicalize dir) ∧
    (∃ record, s.readLocked = some record ∧
      ∃ made ∈ record.folders, made.path = m.canonicalize dir) ∧
    s.Marked (m.canonicalize dir)

/-- A delete of the folder, with no other call between its steps, ends with the folder off the
disk and out of the record. -/
def State.Deletes (m : Machine) (s : State) (id pid : Nat) (dir : String) (folder : Path) :
    Prop :=
  ∃ t, Goes m id (s.step m (.start id pid (.delete dir))) t ∧ t.calls id = none ∧
    ¬ t.OnDisk folder ∧
    ∃ record, t.readLocked = some record ∧ ∀ made ∈ record.folders, made.path ≠ folder

/-- The record is right of the folders whose `create` returned. -/
structure Keeps (m : Machine) (s : State) : Prop where
  listed : ∀ p ∈ s.recorded, s.Stands p →
    ∃ record, s.readLocked = some record ∧ ∃ made ∈ record.folders, made.path = p.1
  /-- `folder` lets it in, or a delete stopped when the folder was all that was left. -/
  accepted : ∀ p ∈ s.recorded, s.Stands p →
    s.Accepts m p.1 ∨ s.IsDir p.1 ∧ s.Empty p.1
  deletes : ∀ p ∈ s.recorded, s.Stands p → s.lock = none → ∀ id ∉ s.started, ∀ pid dir,
    m.absolute dir = some p.1 → s.Deletes m id pid dir p.1
  root : ∀ record, s.readLocked = some record → record.root = s.stored
  removed : ∀ path ∈ s.removed, ∃ folder ∈ s.made, folder <+: path
  whole : s.file ≠ some .torn

theorem Sound.keeps (h : Sound m s) : Keeps m s := by
  obtain ⟨record, hread, hrecord⟩ := h.record
  have hfolder : ∀ p, s.Stands p → p.1 ∈ s.made ∧ s.IsDir p.1 ∧
      (s.Marked p.1 ∨ s.Empty p.1) := by
    rintro p ⟨n, hn, hpath, hmaking⟩
    obtain ⟨-, hmade, hkind⟩ := h.disk.made n hn _ hmaking
    have hleft := h.disk.marked n hn (by simp [hmaking])
    rw [hpath] at hmade hleft
    exact ⟨hmade, ⟨n, hn, hpath, hkind⟩, hleft⟩
  constructor
  · intro p hp hstands
    exact ⟨record, hread, hrecord.listed p hp hstands⟩
  · intro p hp hstands
    obtain ⟨hmade, hdir, hleft⟩ := hfolder p hstands
    have hcanonical := h.disk.canonical _ hmade
    have hthere : s.OnDisk p.1 := by
      obtain ⟨n, hn, hpath, -⟩ := hdir
      exact ⟨n, hn, hpath⟩
    refine hleft.imp (fun hmarked => ?_) (fun hempty => ⟨hdir, hempty⟩)
    rw [State.Accepts, hcanonical]
    exact ⟨hthere, ⟨record, hread, hrecord.listed p hp hstands⟩, hmarked⟩
  · intro p hp hstands hlock id hid pid dir hdir'
    obtain ⟨hmade, hdir, hleft⟩ := hfolder p hstands
    have hstart : s.step m (.start id pid (.delete dir)) = { s with
        calls := Function.update s.calls id (some ⟨pid, .find p.1, 0⟩)
        started := id :: s.started } := by
      simp [State.step, hid, Input.first, hdir']
    rw [State.Deletes, hstart]
    exact goes_deleted (Function.update_self ..) hlock hread (hrecord.listed p hp hstands)
      (h.disk.canonical _ hmade) hdir hleft
  · intro record' hread'
    obtain rfl := Option.some.inj (hread.symm.trans hread')
    exact hrecord.root
  · exact h.removed
  · intro htorn
    simp [State.readLocked, htorn] at hread

/-- The record loses no folder as long as no delete forgets a path where another was made and
recorded since it removed its own, and no folder is made inside a staging folder. -/
theorem keeps_of_meeting (m : Machine) (events : List Event)
    (h : Meeting (State.step m) Event.Meets (initial m) events) (pre post : List Event)
    (hevents : events = pre ++ post) : Keeps m (run m pre) :=
  (h.keeps (fun _ e hs he => Sound.step hs e he) Sound.initial hevents).keeps

end

/-! Runs of two processes. -/

/-- A machine with a home folder and nothing in it. -/
def homeMachine : Machine where
  defaultRoot := some "/home/message-crate"
  resolveRoot raw :=
    if raw = "/home/message-crate" then some ["home", "message-crate"]
    else if raw = "/home/message-crate/staging-export-1" then
      some ["home", "message-crate", "staging-export-1"]
    else none
  absolute raw :=
    if raw = "/home/message-crate/staging-export-1" then
      some ["home", "message-crate", "staging-export-1"]
    else none
  canonicalize path := path
  samePath a b := a == b
  deviceOf _ := some 1
  disk := [⟨[], .dir, none⟩, ⟨["home"], .dir, none⟩]
  canonicalize_made _ _ _ _ := rfl
  disk_closed := by
    intro n hn a ha
    have hmem := (List.mem_inits a n.path).mpr ha
    simp only [List.mem_cons, List.not_mem_nil, or_false] at hn
    rcases hn with rfl | rfl
    · have hroot : a = [] := by simpa using hmem
      simp [hroot]
    · have hcases : a = [] ∨ a = ["home"] := by simpa using hmem
      rcases hcases with rfl | rfl <;> simp
  disk_foreign := by decide

/-- So many steps of a call. -/
def steps (id n : Nat) : List Event := List.replicate n (.act id [])

def outer : Path := ["home", "message-crate", "staging-export-1"]

/-- One process deletes a folder with something in it while the other makes one. -/
def oneBesideAnother : List Event :=
  .start 0 10 (.create "export" "1") :: steps 0 10 ++
    .fill outer ⟨outer ++ ["a.jsonl"], .file, none⟩ ::
    .start 1 10 (.delete "/home/message-crate/staging-export-1") :: steps 1 6 ++
    .act 1 (outer ++ ["a.jsonl"]) :: .start 2 11 (.create "export" "1") :: steps 2 4 ++
    steps 1 3 ++ steps 2 7 ++ steps 1 5

theorem keeps_oneBesideAnother : Keeps homeMachine (run homeMachine oneBesideAnother) :=
  keeps_of_meeting homeMachine oneBesideAnother (by decide +kernel) oneBesideAnother []
    (by simp)

/-- A delete has removed its folder and is to forget it when the other process makes one with
the same label and time. -/
def remadeBeforeForget : List Event :=
  .start 0 10 (.create "export" "1") :: steps 0 10 ++
    .start 1 10 (.delete "/home/message-crate/staging-export-1") :: steps 1 9 ++
    .start 2 11 (.create "export" "1") :: steps 2 10 ++ steps 1 5

/-- The Staging Directory is a staging folder, and its delete stops part-way. -/
def stoppedAroundAnother : List Event :=
  .start 0 10 (.create "export" "1") :: steps 0 10 ++
    .start 1 10 (.setRoot "/home/message-crate/staging-export-1") :: steps 1 5 ++
    .start 2 10 (.create "export" "1") :: steps 2 10 ++
    .fill (outer ++ ["staging-export-1"])
      ⟨outer ++ ["staging-export-1", "a.jsonl"], .file, none⟩ ::
    .start 3 10 (.delete "/home/message-crate/staging-export-1") :: steps 3 6 ++
    [.act 3 (outer ++ ["staging-export-1", exportSentinel]), .crash 10]

theorem delete_loses_another :
    ¬ Keeps homeMachine (run homeMachine remadeBeforeForget) ∧
      ¬ Keeps homeMachine (run homeMachine stoppedAroundAnother) := by
  constructor
  · intro h
    have hread : (run homeMachine remadeBeforeForget).readLocked = some ⟨none, []⟩ := by
      decide +kernel
    obtain ⟨record, hread', made, hmade, -⟩ :=
      h.listed (outer, 1) (by decide +kernel) (by decide +kernel)
    obtain rfl := Option.some.inj (hread.symm.trans hread')
    exact absurd hmade List.not_mem_nil
  · intro h
    rcases h.accepted (outer ++ ["staging-export-1"], 1) (by decide +kernel)
      (by decide +kernel) with ⟨-, -, hmarked⟩ | ⟨-, hempty⟩
    · exact absurd hmarked (by decide +kernel)
    · exact absurd hempty (by decide +kernel)

end MessageCrate.Staged

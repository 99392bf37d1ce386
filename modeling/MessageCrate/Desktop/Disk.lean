import MessageCrate.Desktop.StagingFolders

/- What the calls do to the disk, and what of it the record has to follow.

   1. `DiskOk`: no staging folder is in another, and each that stands holds its sentinel or
      nothing. Each change of the disk keeps it: a remover's (`DiskOk.remove`), a command's
      (`DiskOk.add`), and those of a folder being made.
   2. `RecordOk`: the record lists every folder that stands and was recorded.
   3. `Later`: what may have happened between two states. -/
namespace MessageCrate.Staged

/-! Paths. -/

section
variable {a b f x : Path} {name : String}

theorem inside_concat : Inside f (f ++ [name]) :=
  ⟨List.prefix_append f [name], by simp⟩

theorem Inside.prefix_dropLast (h : Inside a x) : a <+: x.dropLast := by
  obtain ⟨⟨rest, rfl⟩, hne⟩ := h
  rcases List.eq_nil_or_concat rest with rfl | ⟨init, last, rfl⟩
  · simp at hne
  · rw [List.concat_eq_append, ← List.append_assoc, List.dropLast_concat]
    exact List.prefix_append a init

theorem Inside.prefix_of_concat (h : Inside a (x ++ [name])) : a <+: x := by
  simpa using h.prefix_dropLast

theorem dropLast_ne (h : f ≠ []) : ¬ f <+: f.dropLast := by
  intro hle
  have hlen := hle.length_le
  have hpos := List.length_pos_iff.mpr h
  rw [List.length_dropLast] at hlen
  omega

end

namespace State
variable (s : State)

/-- The folder that this `create` made is there. -/
def Stands (p : Path × Nat) : Prop := ∃ n ∈ s.disk, n.path = p.1 ∧ n.making = some p.2

instance (p : Path × Nat) : Decidable (s.Stands p) := inferInstanceAs (Decidable (∃ n ∈ _, _))

/-- Nothing but the sentinel is in the folder. -/
def OnlySentinel (folder : Path) : Prop :=
  ∀ n ∈ s.disk, Inside folder n.path → n.path = folder ++ [exportSentinel]

end State

/-! What holds of the disk and of the record. -/

structure DiskOk (m : Machine) (s : State) : Prop where
  /-- A folder that something is in is there. -/
  closed : ∀ n ∈ s.disk, ∀ a, a <+: n.path → s.OnDisk a
  made : ∀ n ∈ s.disk, ∀ g, n.making = some g → g < s.makings ∧ n.path ∈ s.made ∧ n.kind = .dir
  /-- A staging folder that lost its sentinel has nothing else left in it. -/
  marked : ∀ n ∈ s.disk, n.making ≠ none → s.Marked n.path ∨ s.Empty n.path
  /-- No staging folder is in another. -/
  apart : ∀ f ∈ s.made, ∀ g ∈ s.made, f <+: g → f = g
  parent : ∀ f ∈ s.made, f ≠ [] ∧ s.OnDisk f.dropLast
  canonical : ∀ f ∈ s.made, m.canonicalize f = f

structure RecordOk (s : State) (record : Record) : Prop where
  root : record.root = s.stored
  folders : ∀ made ∈ record.folders, made.path ∈ s.made
  recorded : ∀ p ∈ s.recorded, p.2 < s.makings
  listed : ∀ p ∈ s.recorded, s.Stands p → ∃ made ∈ record.folders, made.path = p.1

/-- What may have happened between two states: no folder that was made stands again. -/
structure Later (s t : State) : Prop where
  started : ∀ id ∈ s.started, id ∈ t.started
  made : ∀ f ∈ s.made, f ∈ t.made
  makings : s.makings ≤ t.makings
  recorded : s.recorded <:+ t.recorded
  stands : ∀ p, p.2 < s.makings → t.Stands p → s.Stands p

section
variable {m : Machine} {s t : State} {record : Record}

theorem Later.of_eq (hstarted : ∀ id ∈ s.started, id ∈ t.started) (hdisk : t.disk = s.disk)
    (hmade : t.made = s.made) (hmakings : t.makings = s.makings)
    (hrecorded : s.recorded <:+ t.recorded) : Later s t where
  started := hstarted
  made := fun f hf => hmade ▸ hf
  makings := by omega
  recorded := hrecorded
  stands := fun p _ h => by
    unfold State.Stands at h ⊢
    rwa [hdisk] at h

theorem DiskOk.of_eq (h : DiskOk m s) (hdisk : t.disk = s.disk) (hmade : t.made = s.made)
    (hmakings : t.makings = s.makings) : DiskOk m t := by
  cases s
  cases t
  simp only at hdisk hmade hmakings
  subst hdisk hmade hmakings
  exact ⟨h.closed, h.made, h.marked, h.apart, h.parent, h.canonical⟩

theorem RecordOk.later (h : RecordOk s record) (hlater : Later s t)
    (hrecorded : t.recorded = s.recorded) (hstored : t.stored = s.stored) :
    RecordOk t record where
  root := h.root.trans hstored.symm
  folders := fun x hx => hlater.made _ (h.folders x hx)
  recorded := fun p hp => Nat.lt_of_lt_of_le (h.recorded p (hrecorded ▸ hp)) hlater.makings
  listed := fun p hp hstands => by
    rw [hrecorded] at hp
    exact h.listed p hp (hlater.stands p (h.recorded p hp) hstands)

end

/-! What each step does to the disk. -/

section
variable {m : Machine} {s t : State} {f x : Path}

/-- A remover takes what nothing is in, and the sentinel only when it is the last. -/
theorem DiskOk.remove (h : DiskOk m s) (hf : f ∈ s.made) (hx : f <+: x) (hempty : s.Empty x)
    (honly : x = f ++ [exportSentinel] → s.OnlySentinel f)
    (hdisk : t.disk = s.disk.filter (fun n => n.path ≠ x)) (hmade : t.made = s.made)
    (hmakings : t.makings = s.makings) : DiskOk m t := by
  have hmem : ∀ n, n ∈ t.disk ↔ n ∈ s.disk ∧ n.path ≠ x := by simp [hdisk]
  have hkept : ∀ a, s.OnDisk a → a ≠ x → t.OnDisk a := by
    rintro a ⟨n, hn, rfl⟩ hne
    exact ⟨n, (hmem n).mpr ⟨hn, hne⟩, rfl⟩
  constructor
  · intro n hn a ha
    obtain ⟨hns, hnx⟩ := (hmem n).mp hn
    refine hkept a (h.closed n hns a ha) ?_
    rintro rfl
    exact hempty n hns ⟨ha, hnx⟩
  · intro n hn g hg
    rw [hmade, hmakings]
    exact h.made n ((hmem n).mp hn).1 g hg
  · intro n hn hg
    obtain ⟨hns, -⟩ := (hmem n).mp hn
    obtain ⟨g, hg⟩ := Option.ne_none_iff_exists'.mp hg
    obtain ⟨-, hnmade, -⟩ := h.made n hns g hg
    by_cases hsentinel : x = n.path ++ [exportSentinel]
    · -- the sentinel of this folder went, so nothing else was left in it
      have hfn : f = n.path := by
        rcases eq_or_ne x f with rfl | hne
        · have heq := h.apart _ hnmade _ hf (hsentinel ▸ inside_concat.1)
          simp [heq] at hsentinel
        · have hin : Inside f x := ⟨hx, hne⟩
          rw [hsentinel] at hin
          exact h.apart _ hf _ hnmade hin.prefix_of_concat
      right
      intro n' hn' hin
      obtain ⟨hn's, hn'x⟩ := (hmem n').mp hn'
      subst hfn
      exact hn'x ((honly hsentinel n' hn's hin).trans hsentinel.symm)
    · rcases h.marked n hns (by simp [hg]) with ⟨k, hk, hkpath, hkfile⟩ | hnothing
      · exact .inl ⟨k, (hmem k).mpr ⟨hk, by rw [hkpath]; exact Ne.symm hsentinel⟩, hkpath, hkfile⟩
      · exact .inr (fun n' hn' => hnothing n' ((hmem n').mp hn').1)
  · rw [hmade]
    exact h.apart
  · intro g hg
    rw [hmade] at hg
    obtain ⟨hne, hparent⟩ := h.parent g hg
    refine ⟨hne, hkept _ hparent ?_⟩
    rintro rfl
    have heq := h.apart f hf g hg (hx.trans (List.dropLast_prefix g))
    subst heq
    exact dropLast_ne hne hx
  · rw [hmade]
    exact h.canonical

/-- Things that no `create` made are added, none of them in a staging folder that stands
empty. -/
theorem DiskOk.add (h : DiskOk m s) {added : List Node} (hdisk : t.disk = s.disk ++ added)
    (hmade : t.made = s.made) (hmakings : t.makings = s.makings)
    (hclosed : ∀ n ∈ added, ∀ a, a <+: n.path → t.OnDisk a)
    (hforeign : ∀ n ∈ added, n.making = none)
    (houtside : ∀ n ∈ added, ∀ g ∈ s.made, Inside g n.path → s.Marked g) : DiskOk m t := by
  have hmem : ∀ n, n ∈ t.disk ↔ n ∈ s.disk ∨ n ∈ added := by simp [hdisk]
  have hkept : ∀ a, s.OnDisk a → t.OnDisk a := by
    rintro a ⟨n, hn, rfl⟩
    exact ⟨n, (hmem n).mpr (.inl hn), rfl⟩
  have hmarked : ∀ a, s.Marked a → t.Marked a := by
    rintro a ⟨n, hn, hpath, hkind⟩
    exact ⟨n, (hmem n).mpr (.inl hn), hpath, hkind⟩
  constructor
  · intro n hn a ha
    rcases (hmem n).mp hn with hold | hnew
    · exact hkept a (h.closed n hold a ha)
    · exact hclosed n hnew a ha
  · intro n hn g hg
    rw [hmade, hmakings]
    rcases (hmem n).mp hn with hold | hnew
    · exact h.made n hold g hg
    · simp [hforeign n hnew] at hg
  · intro n hn hg
    rcases (hmem n).mp hn with hold | hnew
    · obtain ⟨g, hg'⟩ := Option.ne_none_iff_exists'.mp hg
      obtain ⟨-, hnmade, -⟩ := h.made n hold g hg'
      rcases h.marked n hold hg with hm | hnothing
      · exact .inl (hmarked _ hm)
      · by_cases hin : ∃ k ∈ added, Inside n.path k.path
        · obtain ⟨k, hk, hin⟩ := hin
          exact .inl (hmarked _ (houtside k hk _ hnmade hin))
        · right
          intro k hk
          rcases (hmem k).mp hk with hkold | hknew
          · exact hnothing k hkold
          · exact fun hcontra => hin ⟨k, hknew, hcontra⟩
    · exact absurd (hforeign n hnew) hg
  · rw [hmade]
    exact h.apart
  · intro g hg
    rw [hmade] at hg
    exact ⟨(h.parent g hg).1, hkept _ (h.parent g hg).2⟩
  · rw [hmade]
    exact h.canonical

theorem onDisk_createDirAll {root a : Path} (ha : a <+: root) : (s.createDirAll root).OnDisk a := by
  by_cases hdisk : s.OnDisk a
  · obtain ⟨n, hn, hpath⟩ := hdisk
    exact ⟨n, List.mem_append_left _ hn, hpath⟩
  · refine ⟨⟨a, .dir, none⟩, List.mem_append_right _ ?_, rfl⟩
    exact List.mem_map_of_mem (List.mem_filter.mpr ⟨(List.mem_inits a root).mpr ha, by simpa⟩)

theorem mem_createDirAll {root : Path} {n : Node} (hn : n ∈ (root.inits.filter
    (fun a => ¬ s.OnDisk a)).map (fun a => (⟨a, .dir, none⟩ : Node))) :
    n.path <+: root ∧ n.making = none := by
  obtain ⟨a, ha, rfl⟩ := List.mem_map.mp hn
  exact ⟨(List.mem_inits a root).mp (List.mem_of_mem_filter ha), rfl⟩

theorem DiskOk.createDirAll (h : DiskOk m s) {root : Path} (hroot : ∀ g ∈ s.made, ¬ g <+: root) :
    DiskOk m (s.createDirAll root) := by
  refine h.add rfl rfl rfl ?_ (fun n hn => (mem_createDirAll hn).2) ?_
  · intro n hn a ha
    exact onDisk_createDirAll (ha.trans (mem_createDirAll hn).1)
  · intro n hn g hg hin
    exact absurd (hin.1.trans (mem_createDirAll hn).1) (hroot g hg)

/-- The new folder is in no staging folder, and no staging folder is in it: the folder one was
made in is still there. -/
theorem DiskOk.makeFolder (h : DiskOk m s) {root : Path} {raw : String}
    (hraw : m.resolveRoot raw = some root) (hroot : ∀ g ∈ s.made, ¬ g <+: root)
    (hfree : ¬ s.OnDisk (root ++ [name])) (hdir : s.IsDir root)
    (hdisk : t.disk = s.disk ++ [⟨root ++ [name], .dir, some s.makings⟩])
    (hmade : t.made = (root ++ [name]) :: s.made) (hmakings : t.makings = s.makings + 1) :
    DiskOk m t := by
  have hmem : ∀ n, n ∈ t.disk ↔ n ∈ s.disk ∨ n = ⟨root ++ [name], .dir, some s.makings⟩ := by
    simp [hdisk]
  have hkept : ∀ a, s.OnDisk a → t.OnDisk a := by
    rintro a ⟨n, hn, rfl⟩
    exact ⟨n, (hmem n).mpr (.inl hn), rfl⟩
  have hnotIn : ∀ g ∈ s.made, ¬ Inside g (root ++ [name]) :=
    fun g hg hin => hroot g hg hin.prefix_of_concat
  have hnothing : s.Empty (root ++ [name]) :=
    fun n hn hin => hfree (h.closed n hn _ hin.1)
  have hbelow : ∀ g ∈ s.made, root ++ [name] <+: g → root ++ [name] = g := by
    intro g hg hle
    by_contra hne
    obtain ⟨k, hk, hkpath⟩ := (h.parent g hg).2
    exact hfree (h.closed k hk _ (hkpath ▸ Inside.prefix_dropLast ⟨hle, Ne.symm hne⟩))
  have habove : ∀ g ∈ s.made, g <+: root ++ [name] → g = root ++ [name] := by
    intro g hg hle
    by_contra hne
    exact hroot g hg (Inside.prefix_of_concat ⟨hle, Ne.symm hne⟩)
  constructor
  · intro n hn a ha
    rcases (hmem n).mp hn with hold | rfl
    · exact hkept a (h.closed n hold a ha)
    · rcases eq_or_ne (root ++ [name]) a with rfl | hne
      · exact ⟨_, hn, rfl⟩
      · obtain ⟨k, hk, hkpath, -⟩ := hdir
        exact hkept a (h.closed k hk a (hkpath ▸ Inside.prefix_of_concat ⟨ha, hne⟩))
  · intro n hn g hg
    rw [hmade, hmakings]
    rcases (hmem n).mp hn with hold | rfl
    · obtain ⟨hlt, hin, hkind⟩ := h.made n hold g hg
      exact ⟨by omega, List.mem_cons_of_mem _ hin, hkind⟩
    · obtain rfl := Option.some.inj hg
      exact ⟨by omega, List.mem_cons_self, rfl⟩
  · intro n hn hg
    rcases (hmem n).mp hn with hold | rfl
    · obtain ⟨g, hg'⟩ := Option.ne_none_iff_exists'.mp hg
      obtain ⟨-, hnmade, -⟩ := h.made n hold g hg'
      rcases h.marked n hold hg with ⟨k, hk, hkpath, hkkind⟩ | hempty
      · exact .inl ⟨k, (hmem k).mpr (.inl hk), hkpath, hkkind⟩
      · right
        intro k hk hin
        rcases (hmem k).mp hk with hkold | rfl
        · exact hempty k hkold hin
        · exact hin.2 (habove _ hnmade hin.1).symm
    · right
      intro k hk hin
      rcases (hmem k).mp hk with hkold | rfl
      · exact hnothing k hkold hin
      · exact hin.2 rfl
  · intro f hf g hg hle
    rw [hmade] at hf hg
    rcases List.mem_cons.mp hf with rfl | hf <;> rcases List.mem_cons.mp hg with rfl | hg
    · rfl
    · exact hbelow g hg hle
    · exact habove f hf hle
    · exact h.apart f hf g hg hle
  · intro f hf
    rw [hmade] at hf
    rcases List.mem_cons.mp hf with rfl | hf
    · refine ⟨by simp, hkept _ ?_⟩
      obtain ⟨k, hk, hkpath, -⟩ := hdir
      exact ⟨k, hk, by simp [hkpath]⟩
    · exact ⟨(h.parent f hf).1, hkept _ (h.parent f hf).2⟩
  · intro f hf
    rw [hmade] at hf
    rcases List.mem_cons.mp hf with rfl | hf
    · exact m.canonicalize_made raw root name hraw
    · exact h.canonical f hf

/-- The sentinel is written into a folder that is there. -/
theorem DiskOk.mark (h : DiskOk m s) (hf : f ∈ s.made) (hdir : s.IsDir f)
    (hdisk : t.disk = s.disk.filter (fun n => n.path ≠ f ++ [exportSentinel]) ++
      [⟨f ++ [exportSentinel], .file, none⟩])
    (hmade : t.made = s.made) (hmakings : t.makings = s.makings) : DiskOk m t := by
  have hmem : ∀ n, n ∈ t.disk ↔ (n ∈ s.disk ∧ n.path ≠ f ++ [exportSentinel]) ∨
      n = ⟨f ++ [exportSentinel], .file, none⟩ := by
    simp [hdisk]
  have hkept : ∀ a, s.OnDisk a → t.OnDisk a := by
    rintro a ⟨n, hn, rfl⟩
    by_cases hpath : n.path = f ++ [exportSentinel]
    · exact ⟨_, (hmem _).mpr (.inr rfl), hpath.symm⟩
    · exact ⟨n, (hmem n).mpr (.inl ⟨hn, hpath⟩), rfl⟩
  have hself : t.Marked f := ⟨_, (hmem _).mpr (.inr rfl), rfl, rfl⟩
  constructor
  · intro n hn a ha
    rcases (hmem n).mp hn with ⟨hold, -⟩ | rfl
    · exact hkept a (h.closed n hold a ha)
    · rcases eq_or_ne (f ++ [exportSentinel]) a with rfl | hne
      · exact ⟨_, hn, rfl⟩
      · obtain ⟨k, hk, hkpath, -⟩ := hdir
        exact hkept a (h.closed k hk a (hkpath ▸ Inside.prefix_of_concat ⟨ha, hne⟩))
  · intro n hn g hg
    rw [hmade, hmakings]
    rcases (hmem n).mp hn with ⟨hold, -⟩ | rfl
    · exact h.made n hold g hg
    · cases hg
  · intro n hn hg
    rcases (hmem n).mp hn with ⟨hold, -⟩ | rfl
    · obtain ⟨g, hg'⟩ := Option.ne_none_iff_exists'.mp hg
      obtain ⟨-, hnmade, -⟩ := h.made n hold g hg'
      rcases eq_or_ne n.path f with rfl | hne
      · exact .inl hself
      · rcases h.marked n hold hg with ⟨k, hk, hkpath, hkkind⟩ | hempty
        · refine .inl ⟨k, (hmem k).mpr (.inl ⟨hk, ?_⟩), hkpath, hkkind⟩
          rw [hkpath]
          simpa using hne
        · right
          intro k hk hin
          rcases (hmem k).mp hk with ⟨hkold, -⟩ | rfl
          · exact hempty k hkold hin
          · exact hne (h.apart _ hnmade _ hf hin.prefix_of_concat)
    · exact absurd rfl hg
  · rw [hmade]
    exact h.apart
  · intro g hg
    rw [hmade] at hg
    exact ⟨(h.parent g hg).1, hkept _ (h.parent g hg).2⟩
  · rw [hmade]
    exact h.canonical

end

end MessageCrate.Staged

import MessageCrate.Formats.StemReadBack
import MessageCrate.Lib.Inodes
import MessageCrate.Lib.Runs

/- The files a pull downloads (`download_asset` of pull/src/http.rs, run by the workers of
   `download_assets_parallel` in pull/src/run.rs).

   A worker writes an answer to a `.part` file beside the destination and hashes what it writes, and
   gives the file its name only when the hash is the fingerprint asked for. Several workers do this
   at once, each job may be tried again, and the program may stop anywhere.

     1. `downloads_right`: where no two jobs share a file, each name holds what it held before or
        bytes of its fingerprint, in every state of every run; a job that succeeded has the latter.
     2. `shared_part_mixes`: two destinations that differ in their extension share their `.part`
        file, and one of them can then be left with what arrived for the other, though both jobs
        succeed.

   A run lets any job go on or be given up at any time: the workers' number, the order they take
   jobs in and the number of retries only choose among the runs. A request that the server refuses
   changes nothing, and is not a step. -/
namespace MessageCrate.Downloads
open Inodes Runs Text Stems Utf8

/-- A file's path, in the folders it is in. -/
structure FilePath where
  folders : List String
  name : String
  deriving DecidableEq, Repr

/-- `Path::with_extension`. -/
def FilePath.withExtension (path : FilePath) (extension : String) : FilePath :=
  { path with name := Stems.fileStem path.name ++ "." ++ extension }

structure AssetDownloadJob where
  sha256 : String
  dest : FilePath
  deriving DecidableEq, Repr

/-- The `.part` file, beside the destination. -/
def AssetDownloadJob.tmp (job : AssetDownloadJob) : FilePath := job.dest.withExtension "part"

/-- A fingerprint that may stand in the address. -/
def isFingerprint (sha : String) : Bool :=
  size sha.toList = 64 && sha.toList.all fun c => isHexDigit c.toLower

/-- Where one job is. A job that has failed once is `waiting` again, until it is given up. -/
inductive Phase where
  | waiting
  | writing (file : Nat) (received : List UInt8)
  | accepted
  | discarding (again : Bool)
  | finished
  | failed
  deriving DecidableEq, Repr

inductive Event where
  | create
  | createFails (again : Bool)
  | write (bytes : List UInt8)
  | finish
  | breakOff
  | discard
  | discardFails
  | rename (synced : Bool)
  | renameFails
  | giveUp
  deriving DecidableEq, Repr

section turn
variable (hash : Sha256)

def AssetDownloadJob.Accepts (job : AssetDownloadJob) (bytes : List UInt8) : Prop :=
  toAsciiLower (hash.hex bytes) = toAsciiLower (trim job.sha256)

instance (job : AssetDownloadJob) (bytes : List UInt8) : Decidable (job.Accepts hash bytes) :=
  inferInstanceAs (Decidable (_ = _))

/-- What a job's worker does next. -/
def turn (job : AssetDownloadJob) (d : Disk FilePath) :
    Phase → Event → Option (Disk FilePath × Phase)
  | .waiting, .create =>
    if isFingerprint (trim job.sha256) then
      some (d.create job.tmp, .writing (d.fileAt job.tmp) [])
    else none
  -- what a tried job left under that name is removed, though this one made no file
  | .waiting, .createFails again =>
    if isFingerprint (trim job.sha256) then some (d, .discarding again) else none
  | .writing file received, .write bytes =>
    some (d.writeAt file received.length bytes, .writing file (received ++ bytes))
  | .writing _ received, .finish =>
    if job.Accepts hash received then some (d, .accepted) else some (d, .discarding false)
  -- the answer breaks off, or the disk is full
  | .writing _ _, .breakOff => some (d, .discarding true)
  | .discarding again, .discard => some (d.remove job.tmp, if again then .waiting else .failed)
  -- the answer of `remove_file` is not looked at
  | .discarding again, .discardFails => some (d, if again then .waiting else .failed)
  | .accepted, .rename synced =>
    if (d.names job.tmp).isSome then
      -- the folder may fail to be synced after the file has its name
      some (d.rename job.tmp job.dest, if synced then .finished else .waiting)
    else
      -- `NotFound` is not tried again
      some (d, .failed)
  | .accepted, .renameFails => some (d, .waiting)
  | .waiting, .giveUp => some (d, .failed)
  | _, _ => none

/-- The destination holds bytes of the fingerprint asked for. -/
def Right (d : Disk FilePath) (job : AssetDownloadJob) : Prop :=
  ∃ bytes, d.read job.dest = some bytes ∧ job.Accepts hash bytes

/-- What a job's phase says of the disk. -/
def Phase.Ok (d : Disk FilePath) (job : AssetDownloadJob) : Phase → Prop
  | .writing file received => d.names job.tmp = some file ∧ d.data file = received
  | .accepted => ∃ bytes, d.read job.tmp = some bytes ∧ job.Accepts hash bytes
  | .finished => Right hash d job
  | _ => True

/-- What a turn leaves as it was: other names, and the destination unless it is right. -/
structure Aside (job : AssetDownloadJob) (d d' : Disk FilePath) : Prop where
  names : ∀ q, q ≠ job.tmp → q ≠ job.dest → d'.names q = d.names q
  data : ∀ q file, q ≠ job.tmp → d.names q = some file → d'.data file = d.data file
  own : ∀ q, d.Own q → q ≠ job.tmp → q ≠ job.dest → d'.Own q
  part : d'.Own job.tmp
  dest : d'.read job.dest = d.read job.dest ∨ Right hash d' job

end turn

section one
variable {hash : Sha256} {job other : AssetDownloadJob} {d d' : Disk FilePath}
variable {ph ph' : Phase} {e : Event}

theorem Right.congr (hread : d'.read job.dest = d.read job.dest) (h : Right hash d job) :
    Right hash d' job := by
  obtain ⟨bytes, hbytes, haccepts⟩ := h
  exact ⟨bytes, hread.trans hbytes, haccepts⟩

theorem Aside.of_onlyAt (h : Disk.OnlyAt job.tmp d d') (hne : job.dest ≠ job.tmp) :
    Aside hash job d d' where
  names q hq _ := h.names q hq
  data := h.data
  own _ hown hq _ := h.own_of_ne hown hq
  part := h.own
  dest := .inl (h.read hne)

theorem Aside.of_rename (hread : ∃ bytes, d.read job.tmp = some bytes ∧ job.Accepts hash bytes)
    (hne : job.dest ≠ job.tmp) : Aside hash job d (d.rename job.tmp job.dest) where
  names _ hq hq' := Disk.names_rename hq hq'
  data _ _ _ _ := rfl
  own _ hown hq hq' := Disk.own_rename hown hq hq'
  part := Disk.own_rename_src
  dest := by
    obtain ⟨bytes, hbytes, haccepts⟩ := hread
    exact .inr ⟨bytes, (Disk.read_rename_dst hne).trans hbytes, haccepts⟩

/-- One turn of a job: what it leaves aside, and what its phase says afterwards. -/
theorem turn_ok (h : turn hash job d ph e = some (d', ph')) (hok : ph.Ok hash d job)
    (hown : d.Own job.tmp) (hne : job.dest ≠ job.tmp) :
    Aside hash job d d' ∧ ph'.Ok hash d' job := by
  unfold turn at h
  split at h
  · split at h
    · cases h
      exact ⟨.of_onlyAt (Disk.onlyAt_create hown) hne, Disk.names_create, Disk.data_create⟩
    · cases h
  · split at h
    · cases h
      exact ⟨.of_onlyAt (.refl hown) hne, trivial⟩
    · cases h
  · next file received bytes =>
    cases h
    obtain ⟨hfile, hdata⟩ := hok
    refine ⟨.of_onlyAt (Disk.onlyAt_writeAt hown hfile) hne, hfile, ?_⟩
    rw [Disk.data_writeAt (by rw [hdata]), hdata]
  · next file received =>
    have haside : Aside hash job d d := .of_onlyAt (.refl hown) hne
    split at h
    · next haccepts =>
      cases h
      obtain ⟨hfile, hdata⟩ := hok
      refine ⟨haside, received, ?_, haccepts⟩
      rw [Disk.read, hfile, Option.map_some, hdata]
    · cases h
      exact ⟨haside, trivial⟩
  · cases h
    exact ⟨.of_onlyAt (.refl hown) hne, trivial⟩
  · next again =>
    cases h
    refine ⟨.of_onlyAt Disk.onlyAt_remove hne, ?_⟩
    cases again with
    | false => trivial
    | true => trivial
  · next again =>
    cases h
    refine ⟨.of_onlyAt (.refl hown) hne, ?_⟩
    cases again with
    | false => trivial
    | true => trivial
  · next synced =>
    split at h
    · cases h
      have haside : Aside hash job d (d.rename job.tmp job.dest) := .of_rename hok hne
      refine ⟨haside, ?_⟩
      cases synced with
      | false => trivial
      | true =>
        obtain ⟨bytes, hbytes, haccepts⟩ := hok
        exact ⟨bytes, (Disk.read_rename_dst hne).trans hbytes, haccepts⟩
    · cases h
      exact ⟨.of_onlyAt (.refl hown) hne, trivial⟩
  · cases h
    exact ⟨.of_onlyAt (.refl hown) hne, trivial⟩
  · cases h
    exact ⟨.of_onlyAt (.refl hown) hne, trivial⟩
  · cases h

theorem Aside.read (h : Aside hash job d d') {q : FilePath} (hpart : q ≠ job.tmp)
    (hdest : q ≠ job.dest) : d'.read q = d.read q :=
  Disk.read_congr (h.names q hpart hdest) fun file => h.data q file hpart

/-- Two jobs with no file in common. -/
structure AssetDownloadJob.Apart (job other : AssetDownloadJob) : Prop where
  parts : other.tmp ≠ job.tmp
  dests : other.dest ≠ job.dest
  part : other.tmp ≠ job.dest
  dest : other.dest ≠ job.tmp

/-- A turn of one job takes nothing from another. -/
theorem Phase.Ok.aside (hok : ph.Ok hash d other) (h : Aside hash job d d')
    (hapart : job.Apart other) : ph.Ok hash d' other := by
  have hnames := h.names _ hapart.parts hapart.part
  have hdest : d'.read other.dest = d.read other.dest := h.read hapart.dest hapart.dests
  cases ph with
  | writing file received =>
    obtain ⟨hfile, hdata⟩ := hok
    exact ⟨hnames.trans hfile, (h.data _ _ hapart.parts hfile).trans hdata⟩
  | accepted =>
    obtain ⟨bytes, hbytes, haccepts⟩ := hok
    exact ⟨bytes, (h.read hapart.parts hapart.part).trans hbytes, haccepts⟩
  | finished => exact Right.congr hdest hok
  | waiting => trivial
  | discarding => trivial
  | failed => trivial

end one

/-! The jobs together. -/

structure State (ι : Type) where
  disk : Disk FilePath
  phase : ι → Phase

section jobs
variable {ι : Type} [DecidableEq ι] (hash : Sha256) (jobs : ι → AssetDownloadJob)

/-- The jobs before the first of them is taken. -/
def State.start (d : Disk FilePath) : State ι := ⟨d, fun _ => .waiting⟩

/-- Job `i` goes on. -/
def step (s : State ι) (i : ι) (e : Event) : Option (State ι) :=
  (turn hash (jobs i) s.disk (s.phase i) e).map fun r => ⟨r.1, Function.update s.phase i r.2⟩

def Step (s : State ι) (e : ι × Event) (s' : State ι) : Prop :=
  step hash jobs s e.1 e.2 = some s'

/-- No job's two files are one, and no two jobs share a file. -/
structure Apart (jobs : ι → AssetDownloadJob) : Prop where
  self : ∀ i, (jobs i).dest ≠ (jobs i).tmp
  others : ∀ i j, i ≠ j → (jobs i).Apart (jobs j)

/-- What holds in every state of a run that begins with the disk `before`. -/
structure Sound (before : Disk FilePath) (s : State ι) : Prop where
  phase : ∀ i, (s.phase i).Ok hash s.disk (jobs i)
  own : ∀ i, s.disk.Own (jobs i).tmp
  dest : ∀ i, s.disk.read (jobs i).dest = before.read (jobs i).dest ∨ Right hash s.disk (jobs i)
  rest : ∀ q, (∀ i, q ≠ (jobs i).tmp ∧ q ≠ (jobs i).dest) → s.disk.read q = before.read q

end jobs

section run
variable {ι : Type} {hash : Sha256} {jobs : ι → AssetDownloadJob}
variable {before : Disk FilePath} {s s' : State ι}

theorem Sound.start (hown : ∀ i, before.Own (jobs i).tmp) :
    Sound hash jobs before (State.start before) where
  phase _ := trivial
  own := hown
  dest _ := .inl rfl
  rest _ _ := rfl

variable [DecidableEq ι]

theorem Sound.step (h : Sound hash jobs before s) (hapart : Apart jobs) {e : ι × Event}
    (hstep : Step hash jobs s e s') : Sound hash jobs before s' := by
  obtain ⟨i, e⟩ := e
  obtain ⟨⟨d', ph'⟩, hturn, rfl⟩ := Option.map_eq_some_iff.mp hstep
  obtain ⟨haside, hok⟩ := turn_ok hturn (h.phase i) (h.own i) (hapart.self i)
  refine ⟨?_, ?_, ?_, ?_⟩
  · intro j
    by_cases hij : j = i
    · subst hij
      show Phase.Ok hash d' _ (Function.update s.phase j ph' j)
      rw [Function.update_self]
      exact hok
    · show Phase.Ok hash d' _ (Function.update s.phase i ph' j)
      rw [Function.update_of_ne hij]
      exact (h.phase j).aside haside (hapart.others i j (Ne.symm hij))
  · intro j
    by_cases hij : j = i
    · subst hij
      exact haside.part
    · have hother := hapart.others i j (Ne.symm hij)
      exact haside.own _ (h.own j) hother.parts hother.part
  · intro j
    have hread : d'.read (jobs j).dest = s.disk.read (jobs j).dest ∨ Right hash d' (jobs j) := by
      by_cases hij : j = i
      · subst hij
        exact haside.dest
      · have hother := hapart.others i j (Ne.symm hij)
        exact .inl (haside.read hother.dest hother.dests)
    rcases hread with hread | hright
    · rcases h.dest j with hbefore | hright
      · exact .inl (hread.trans hbefore)
      · exact .inr (hright.congr hread)
    · exact .inr hright
  · intro q hq
    exact (haside.read (hq i).1 (hq i).2).trans (h.rest q hq)

variable (hash jobs) in
/-- **What is downloaded is what was asked for.** In every state of every run, in whatever order the
jobs go on: a job that succeeded left bytes of its fingerprint at its destination, a destination
holds such bytes or what it held before, and nothing else is touched but the `.part` files. -/
theorem downloads_right (hapart : Apart jobs) (before : Disk FilePath)
    (hown : ∀ i, before.Own (jobs i).tmp) (events : List (ι × Event)) (s : State ι)
    (hrun : Run (Step hash jobs) (.start before) events s) :
    (∀ i, s.phase i = .finished → Right hash s.disk (jobs i)) ∧
    (∀ i, s.disk.read (jobs i).dest = before.read (jobs i).dest ∨ Right hash s.disk (jobs i)) ∧
    ∀ q, (∀ i, q ≠ (jobs i).tmp ∧ q ≠ (jobs i).dest) → s.disk.read q = before.read q := by
  have hsound : Sound hash jobs before s :=
    hrun.keeps (fun _ _ _ hstep h => h.step hapart hstep)
      (Sound.start hown)
  refine ⟨?_, hsound.dest, hsound.rest⟩
  intro i hfinished
  have hok := hsound.phase i
  rw [hfinished] at hok
  exact hok

end run

/-! Two jobs with one `.part` file. -/

section shared
variable {ι : Type} [DecidableEq ι] {hash : Sha256} {jobs : ι → AssetDownloadJob}
variable {s : State ι} {i : ι} {bytes : List UInt8}

/-- The disk after an answer is written to `p`. -/
def fetched (d : Disk FilePath) (p : FilePath) (bytes : List UInt8) : Disk FilePath :=
  (d.create p).writeAt (d.fileAt p) 0 bytes

theorem names_fetched (d : Disk FilePath) (p : FilePath) :
    (fetched d p bytes).names p = some (d.fileAt p) := Disk.names_create

theorem read_fetched (d : Disk FilePath) (p : FilePath) :
    (fetched d p bytes).read p = some bytes := by
  have hempty : (d.create p).data (d.fileAt p) = [] := Disk.data_create
  have hdata : (fetched d p bytes).data (d.fileAt p) = bytes := by
    rw [fetched, Disk.data_writeAt (by rw [hempty]; rfl), hempty, List.nil_append]
  rw [Disk.read, names_fetched, Option.map_some, hdata]

theorem onlyAt_fetched {d : Disk FilePath} {p : FilePath} (hown : d.Own p) :
    Disk.OnlyAt p d (fetched d p bytes) := by
  have hcreate : Disk.OnlyAt p d (d.create p) := Disk.onlyAt_create hown
  exact hcreate.trans (Disk.onlyAt_writeAt hcreate.own Disk.names_create)

theorem isSome_names_fetched (d : Disk FilePath) (p : FilePath) :
    ((fetched d p bytes).names p).isSome = true := by
  rw [names_fetched]
  rfl

/-- What stood for a file still does. -/
theorem isSome_names_fetched_of {d : Disk FilePath} {p q : FilePath}
    (h : (d.names q).isSome = true) : ((fetched d p bytes).names q).isSome = true := by
  by_cases hq : q = p
  · rw [hq]
    exact isSome_names_fetched d p
  · have hnames : (fetched d p bytes).names q = d.names q := Disk.names_create_of_ne hq
    rw [hnames]
    exact h

/-- An attempt up to the end of what arrives. -/
theorem run_write (hphase : s.phase i = .waiting)
    (hprint : isFingerprint (trim (jobs i).sha256) = true) :
    Run (Step hash jobs) s [(i, .create), (i, .write bytes)]
      ⟨fetched s.disk (jobs i).tmp bytes,
        Function.update s.phase i (.writing (s.disk.fileAt (jobs i).tmp) bytes)⟩ := by
  let created : State ι :=
    ⟨s.disk.create (jobs i).tmp,
      Function.update s.phase i (.writing (s.disk.fileAt (jobs i).tmp) [])⟩
  have hcreate : Step hash jobs s (i, .create) created := by
    simp [Step, step, hphase, turn, hprint, created]
  refine .cons hcreate (.cons ?_ (.nil _))
  simp [Step, step, turn, created, fetched]

/-- An attempt whose bytes have the fingerprint. -/
theorem run_fetch (hphase : s.phase i = .waiting)
    (hprint : isFingerprint (trim (jobs i).sha256) = true) (haccepts : (jobs i).Accepts hash bytes) :
    Run (Step hash jobs) s ([(i, .create), (i, .write bytes)] ++ [(i, .finish)])
      ⟨fetched s.disk (jobs i).tmp bytes, Function.update s.phase i .accepted⟩ := by
  refine (run_write hphase hprint).append (.cons ?_ (.nil _))
  simp [Step, step, turn, haccepts]

theorem run_rename (hphase : s.phase i = .accepted)
    (hname : (s.disk.names (jobs i).tmp).isSome = true) :
    Run (Step hash jobs) s [(i, .rename true)]
      ⟨s.disk.rename (jobs i).tmp (jobs i).dest, Function.update s.phase i .finished⟩ := by
  refine .cons ?_ (.nil _)
  simp [Step, step, hphase, turn, hname]

/-- An answer that breaks off is asked for again. -/
theorem run_breakOff {file : Nat} (hphase : s.phase i = .writing file bytes) :
    Run (Step hash jobs) s [(i, .breakOff), (i, .discard)]
      ⟨s.disk.remove (jobs i).tmp, Function.update s.phase i .waiting⟩ := by
  let broken : State ι := ⟨s.disk, Function.update s.phase i (.discarding true)⟩
  have hbreak : Step hash jobs s (i, .breakOff) broken := by
    simp [Step, step, hphase, turn, broken]
  refine .cons hbreak (.cons ?_ (.nil _))
  simp [Step, step, turn, broken]

/-- Job `j` writes to the `.part` file between the hash of job `i` and its renaming, its answer
breaks off, and it tries again. -/
def mix (i j : ι) (a part b : List UInt8) : List (ι × Event) :=
  ([(i, Event.create), (i, Event.write a)] ++ [(i, Event.finish)]) ++
    ([(j, Event.create), (j, Event.write part)] ++ ([(i, Event.rename true)] ++
      ([(j, Event.breakOff), (j, Event.discard)] ++
        (([(j, Event.create), (j, Event.write b)] ++ [(j, Event.finish)]) ++
          [(j, Event.rename true)]))))

/-- The disk after those turns. -/
def mixed (first second : AssetDownloadJob) (a part b : List UInt8) (before : Disk FilePath) :
    Disk FilePath :=
  let written := fetched (fetched before first.tmp a) second.tmp part
  let again := (written.rename first.tmp first.dest).remove second.tmp
  (fetched again second.tmp b).rename second.tmp second.dest

theorem run_mix {i j : ι} {a b : List UInt8} (part : List UInt8) (before : Disk FilePath)
    (hij : i ≠ j) (hprints : isFingerprint (trim (jobs i).sha256) = true ∧
      isFingerprint (trim (jobs j).sha256) = true)
    (ha : (jobs i).Accepts hash a) (hb : (jobs j).Accepts hash b) :
    ∃ s, Run (Step hash jobs) (.start before) (mix i j a part b) s ∧
      s.phase i = .finished ∧ s.phase j = .finished ∧
      s.disk = mixed (jobs i) (jobs j) a part b before := by
  have hji : j ≠ i := hij.symm
  -- the state after each of the six parts of the run
  let s₁ : State ι := ⟨fetched before (jobs i).tmp a, Function.update (fun _ => .waiting) i .accepted⟩
  let s₂ : State ι := ⟨fetched s₁.disk (jobs j).tmp part,
    Function.update s₁.phase j (.writing (s₁.disk.fileAt (jobs j).tmp) part)⟩
  let s₃ : State ι :=
    ⟨s₂.disk.rename (jobs i).tmp (jobs i).dest, Function.update s₂.phase i .finished⟩
  let s₄ : State ι := ⟨s₃.disk.remove (jobs j).tmp, Function.update s₃.phase j .waiting⟩
  let s₅ : State ι := ⟨fetched s₄.disk (jobs j).tmp b, Function.update s₄.phase j .accepted⟩
  let s₆ : State ι :=
    ⟨s₅.disk.rename (jobs j).tmp (jobs j).dest, Function.update s₅.phase j .finished⟩
  have hname₂ : (s₂.disk.names (jobs i).tmp).isSome = true :=
    isSome_names_fetched_of (isSome_names_fetched _ _)
  have hwaiting₁ : s₁.phase j = .waiting := by simp [s₁, hji]
  have haccepted₂ : s₂.phase i = .accepted := by simp [s₂, s₁, hij]
  have hwriting₃ : s₃.phase j = .writing (s₁.disk.fileAt (jobs j).tmp) part := by
    simp [s₃, s₂, hji]
  have hwaiting₄ : s₄.phase j = .waiting := by simp [s₄]
  have haccepted₅ : s₅.phase j = .accepted := by simp [s₅]
  have hfinished₆ : s₆.phase i = .finished ∧ s₆.phase j = .finished := by
    simp [s₆, s₅, s₄, s₃, hij]
  have hfetch : Run (Step hash jobs) (.start before) _ s₁ := run_fetch rfl hprints.1 ha
  have hwrite : Run (Step hash jobs) s₁ _ s₂ := run_write hwaiting₁ hprints.2
  have hrename : Run (Step hash jobs) s₂ _ s₃ := run_rename haccepted₂ hname₂
  have hbreakOff : Run (Step hash jobs) s₃ _ s₄ := run_breakOff hwriting₃
  have hagain : Run (Step hash jobs) s₄ _ s₅ := run_fetch hwaiting₄ hprints.2 hb
  have hlast : Run (Step hash jobs) s₅ _ s₆ := run_rename haccepted₅ (isSome_names_fetched _ _)
  have hrun : Run (Step hash jobs) (.start before) (mix i j a part b) s₆ :=
    hfetch.append (hwrite.append (hrename.append (hbreakOff.append (hagain.append hlast))))
  exact ⟨s₆, hrun, hfinished₆.1, hfinished₆.2, rfl⟩

/-- The name the second job writes under stands for no file by the time it tries again. -/
theorem read_mixed {first second : AssetDownloadJob} {a part b : List UInt8}
    {before : Disk FilePath} (hpart : first.tmp = second.tmp) (hdest : first.dest ≠ second.dest)
    (hself : first.dest ≠ first.tmp) :
    (mixed first second a part b before).read first.dest = some part := by
  have hne : first.dest ≠ second.tmp := hpart ▸ hself
  let written := fetched (fetched before first.tmp a) second.tmp part
  let again := (written.rename first.tmp first.dest).remove second.tmp
  have hwritten : written.read first.tmp = some part := by
    rw [hpart]
    exact read_fetched _ _
  have hrenamed : (written.rename first.tmp first.dest).read first.dest = some part :=
    (Disk.read_rename_dst hself).trans hwritten
  have hremove : Disk.OnlyAt second.tmp (written.rename first.tmp first.dest) again :=
    Disk.onlyAt_remove
  have hagain : (fetched again second.tmp b).read first.dest = some part :=
    ((hremove.trans (onlyAt_fetched hremove.own)).read hne).trans hrenamed
  exact (Disk.read_rename hne hdest).trans hagain

variable (hash jobs) in
/-- **One `.part` file for two.** Two jobs whose destinations share it can both succeed and leave
what first arrived for the second under the name of the first, which is right only if it has that
one's fingerprint too. -/
theorem shared_part_mixes (i j : ι) (a part b : List UInt8) (before : Disk FilePath)
    (hij : i ≠ j) (hpart : (jobs i).tmp = (jobs j).tmp) (hdest : (jobs i).dest ≠ (jobs j).dest)
    (hself : (jobs i).dest ≠ (jobs i).tmp ∧ (jobs j).dest ≠ (jobs j).tmp)
    (hprints : isFingerprint (trim (jobs i).sha256) = true ∧
      isFingerprint (trim (jobs j).sha256) = true)
    (ha : (jobs i).Accepts hash a) (hb : (jobs j).Accepts hash b) :
    ∃ s, Run (Step hash jobs) (.start before) (mix i j a part b) s ∧
      s.phase i = .finished ∧ s.phase j = .finished ∧
      s.disk.read (jobs i).dest = some part ∧ s.disk.read (jobs j).dest = some b ∧
      (Right hash s.disk (jobs i) ↔ (jobs i).Accepts hash part) := by
  obtain ⟨s, hrun, hfirst, hsecond, hdisk⟩ := run_mix part before hij hprints ha hb
  have hread : s.disk.read (jobs i).dest = some part := by
    rw [hdisk]
    exact read_mixed hpart hdest hself.1
  refine ⟨s, hrun, hfirst, hsecond, hread, ?_, ?_⟩
  · rw [hdisk]
    exact (Disk.read_rename_dst hself.2).trans (read_fetched _ _)
  · constructor
    · rintro ⟨bytes, hbytes, haccepts⟩
      obtain rfl : bytes = part := Option.some.inj (hbytes.symm.trans hread)
      exact haccepts
    · intro haccepts
      exact ⟨part, hread, haccepts⟩

end shared

/-! A photo and its film. -/

def emptyDisk : Disk FilePath := ⟨fun _ => none, fun _ => [], 0, fun _ _ h => nomatch h⟩

def inAttachments (sha256 name : String) : AssetDownloadJob := ⟨sha256, ⟨["attachments"], name⟩⟩

def photoSha256 : String := "d844666bd213c5790079ecb5a40a04e1a979240ad278b5d5744f1dbb305cec73"

def filmSha256 : String := "f2eaa4420443e15d7fcef6675cb146b2c4184a512dd4868bbc853408f5394825"

def photoBytes : List UInt8 := encode "chat8812".toList

def filmBytes : List UInt8 := encode "chat4407".toList

/-- Two photos, under two names. -/
def twoNames : Bool → AssetDownloadJob
  | false => inAttachments photoSha256 "IMG_0001.HEIC"
  | true => inAttachments filmSha256 "IMG_0002.MOV"

/-- A photo and the film that was taken with it. -/
def oneName : Bool → AssetDownloadJob
  | false => inAttachments photoSha256 "IMG_0001.HEIC"
  | true => inAttachments filmSha256 "IMG_0001.MOV"

theorem apart_twoNames : Apart twoNames := by
  refine ⟨by decide +kernel, ?_⟩
  intro i j hij
  have hnames : (twoNames j).tmp ≠ (twoNames i).tmp ∧ (twoNames j).dest ≠ (twoNames i).dest ∧
      (twoNames j).tmp ≠ (twoNames i).dest ∧ (twoNames j).dest ≠ (twoNames i).tmp := by
    revert i j
    decide +kernel
  exact ⟨hnames.1, hnames.2.1, hnames.2.2.1, hnames.2.2.2⟩

theorem isFingerprint_samples :
    isFingerprint (trim photoSha256) = true ∧ isFingerprint (trim filmSha256) = true := by
  decide +kernel

theorem accepts_photo (name : String) :
    (inAttachments photoSha256 name).Accepts sampleSha256 photoBytes := by
  show toAsciiLower (sampleSha256.hex photoBytes) = toAsciiLower (trim photoSha256)
  decide +kernel

theorem accepts_film (name : String) :
    (inAttachments filmSha256 name).Accepts sampleSha256 filmBytes := by
  show toAsciiLower (sampleSha256.hex filmBytes) = toAsciiLower (trim filmSha256)
  decide +kernel

/-- The run that mixes two files of one name leaves the files of two names right. -/
theorem downloads_right_twoNames :
    ∃ s, Run (Step sampleSha256 twoNames) (.start emptyDisk)
        (mix false true photoBytes [0, 0] filmBytes) s ∧
      s.phase false = .finished ∧ Right sampleSha256 s.disk (twoNames false) := by
  have hprints : isFingerprint (trim (twoNames false).sha256) = true ∧
      isFingerprint (trim (twoNames true).sha256) = true := isFingerprint_samples
  have hphoto : (twoNames false).Accepts sampleSha256 photoBytes := accepts_photo "IMG_0001.HEIC"
  have hfilm : (twoNames true).Accepts sampleSha256 filmBytes := accepts_film "IMG_0002.MOV"
  obtain ⟨s, hrun, hphase, -, -⟩ :=
    run_mix [0, 0] emptyDisk Bool.false_ne_true hprints hphoto hfilm
  have hown : ∀ i, emptyDisk.Own (twoNames i).tmp := fun _ _ h => nomatch h
  exact ⟨s, hrun, hphase,
    (downloads_right sampleSha256 twoNames apart_twoNames emptyDisk hown _ s hrun).1 false hphase⟩

theorem shared_part_mixes_oneName :
    ∃ s, Run (Step sampleSha256 oneName) (.start emptyDisk)
        (mix false true photoBytes [0, 0] filmBytes) s ∧
      s.phase false = .finished ∧ s.phase true = .finished ∧
      ¬ Right sampleSha256 s.disk (oneName false) := by
  have hprints : isFingerprint (trim (oneName false).sha256) = true ∧
      isFingerprint (trim (oneName true).sha256) = true := isFingerprint_samples
  have hphoto : (oneName false).Accepts sampleSha256 photoBytes := accepts_photo "IMG_0001.HEIC"
  have hfilm : (oneName true).Accepts sampleSha256 filmBytes := accepts_film "IMG_0001.MOV"
  obtain ⟨s, hrun, hfirst, hsecond, -, -, hright⟩ :=
    shared_part_mixes sampleSha256 oneName false true photoBytes [0, 0] filmBytes emptyDisk
      Bool.false_ne_true (by decide +kernel) (by decide +kernel) (by decide +kernel)
      hprints hphoto hfilm
  refine ⟨s, hrun, hfirst, hsecond, ?_⟩
  rw [hright]
  decide +kernel

end MessageCrate.Downloads

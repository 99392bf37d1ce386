import Mathlib.Algebra.BigOperators.Group.List.Basic
import Mathlib.Tactic.Ring
import MessageCrate.Server.AssetUploads

/- A multipart upload stores the declared file or nothing.

   1. `partsCover_iff`: the lengths of the parts make up the file just when their number fits a
      `u32`; `expected_part_count` narrows it without a check.
   2. `Intact`: the parts in an upload's folder are no longer than is expected, and
      `session_of_run`: each is the last body that was written to its file, and the manifest names
      those of which one was accepted.
   3. `storeVerified_ok`, `storeVerified_error`: what is stored has the fingerprint that was
      claimed, and what is refused leaves the store as it was, but where the MIME type of a file
      just put in place cannot be written.
   4. `stores_declared_iff`: what is stored are the bodies last written, so they are those last
      accepted just when none of them was written over by one that was then refused.
   5. `upload_stores_the_declared_file`: these for every run of requests to an upload, whichever
      of their file operations fail. -/
namespace MessageCrate.AssetUploads
open Runs

/-! Part sizes. -/

/-- The parts' lengths are in range and make up the file. -/
def PartsCover (bytes partSize : Nat) : Prop :=
  (∀ n ∈ partNumbers bytes partSize,
    1 ≤ expectedPartLen bytes partSize n ∧ expectedPartLen bytes partSize n ≤ partSize) ∧
  ((partNumbers bytes partSize).map (expectedPartLen bytes partSize)).sum = bytes

section sizes
variable {bytes partSize part : Nat}

theorem mem_partNumbers :
    part ∈ partNumbers bytes partSize ↔ 1 ≤ part ∧ part ≤ expectedPartCount bytes partSize := by
  rw [partNumbers, List.mem_range'_1]
  omega

/-- The parts before a part are shorter than the file. -/
theorem partStart_lt (h : part ∈ partNumbers bytes partSize) : (part - 1) * partSize < bytes := by
  obtain ⟨hlow, hhigh⟩ := mem_partNumbers.mp h
  have hnarrow : expectedPartCount bytes partSize ≤ (bytes + partSize - 1) / partSize :=
    Nat.mod_le _ _
  have hfloor := Nat.div_mul_le_self (bytes + partSize - 1) partSize
  have hpart : part * partSize ≤ (bytes + partSize - 1) / partSize * partSize :=
    Nat.mul_le_mul_right _ (le_trans hhigh hnarrow)
  have hsub : (part - 1) * partSize + partSize = part * partSize := by
    rw [← Nat.succ_mul]
    congr 1
    omega
  have hsize : 0 < partSize := by
    by_contra hzero
    obtain rfl : partSize = 0 := by omega
    rw [Nat.div_zero] at hnarrow
    omega
  omega

theorem expectedPartLen_bounds (hsize : 1 ≤ partSize) (h : part ∈ partNumbers bytes partSize) :
    1 ≤ expectedPartLen bytes partSize part ∧ expectedPartLen bytes partSize part ≤ partSize := by
  have hstart := partStart_lt h
  obtain ⟨hlow, hhigh⟩ := mem_partNumbers.mp h
  rw [expectedPartLen, if_neg (by omega)]
  omega

/-- The lengths of the first parts, up to the end of the file. -/
theorem sum_expectedPartLen (bytes partSize : Nat) : ∀ k, k ≤ expectedPartCount bytes partSize →
    ((List.range' 1 k).map (expectedPartLen bytes partSize)).sum = min bytes (k * partSize)
  | 0, _ => by simp
  | k + 1, hk => by
    have hbefore := sum_expectedPartLen bytes partSize k (by omega)
    rw [List.range'_concat, List.map_append, List.sum_append, hbefore, List.map_singleton,
      List.sum_singleton, expectedPartLen, if_neg (by omega)]
    have hlast : 1 + 1 * k - 1 = k := by omega
    rw [hlast, Nat.succ_mul]
    omega

theorem partsCover_iff (hsize : 1 ≤ partSize) :
    PartsCover bytes partSize ↔ (bytes + partSize - 1) / partSize < 2 ^ 32 := by
  have hsum := sum_expectedPartLen bytes partSize _ (Nat.le_refl _)
  have hceil : bytes ≤ (bytes + partSize - 1) / partSize * partSize := by
    have hrest := Nat.div_add_mod (bytes + partSize - 1) partSize
    have hmod := Nat.mod_lt (bytes + partSize - 1) hsize
    rw [Nat.mul_comm] at hrest
    omega
  constructor
  · rintro ⟨-, hcover⟩
    by_contra hwide
    -- the number that is left after the cast is too small
    have hfew : expectedPartCount bytes partSize + 1 ≤ (bytes + partSize - 1) / partSize := by
      have : expectedPartCount bytes partSize < 2 ^ 32 := Nat.mod_lt _ (by norm_num)
      omega
    have hfloor := Nat.div_mul_le_self (bytes + partSize - 1) partSize
    have hshort := Nat.mul_le_mul_right partSize hfew
    rw [Nat.succ_mul] at hshort
    rw [partNumbers, hsum] at hcover
    omega
  · intro hfits
    refine ⟨fun n hn => expectedPartLen_bounds hsize hn, ?_⟩
    have hcount : expectedPartCount bytes partSize = (bytes + partSize - 1) / partSize :=
      Nat.mod_eq_of_lt hfits
    rw [partNumbers, hsum, hcount]
    omega

end sizes

/-! Parts that are accepted, and parts that are written. -/

/-- The body a request had accepted for a part. -/
def acceptedBody (part : Nat) : Event → Option (List UInt8)
  | (.put n body _ _, .put (.ok _)) => if n = part then some body else none
  | _ => none

/-- What a request left in a part's file: the body it had accepted, or one it had refused after the
file was written over. -/
def writtenBody (part : Nat) : Event → Option (List UInt8)
  | (.put n body _ _, .put (.ok _)) => if n = part then some body else none
  | (.put n body _ write, .put (.error .internal)) => if n = part then write.left body else none
  | _ => none

/-- The last of what the requests had, where one had any. -/
def lastOf (body : Event → Option (List UInt8)) : List Event → Option (List UInt8)
  | [] => none
  | e :: es => (lastOf body es).or (body e)

/-- The last body accepted for a part. -/
def lastAccepted (part : Nat) (trace : List Event) : Option (List UInt8) :=
  lastOf (acceptedBody part) trace

/-- What was last written to a part's file. -/
def lastWritten (part : Nat) (trace : List Event) : Option (List UInt8) :=
  lastOf (writtenBody part) trace

section parts
variable {sha256 : String} {part : Nat} {body : List UInt8} {s s' : Session} {n : Nat}

theorem checkPart_ok {m : UploadManifest} (hm : m.sha256 = sha256) :
    checkPart sha256 m part body = .ok () ↔
      part ≤ expectedPartCount m.bytes m.partSize ∧
        body.length = expectedPartLen m.bytes m.partSize part := by
  have hlen : expectedPartLen m.bytes m.partSize part ≤ m.partSize := by
    rw [expectedPartLen]
    split
    · omega
    · exact Nat.min_le_right _ _
  rw [checkPart]
  simp only [hm, ne_eq, not_true_eq_false, if_false]
  split
  · simp only [invalid, reduceCtorEq, false_iff]
    omega
  split
  · simp only [invalid, reduceCtorEq, false_iff]
    omega
  split
  · next hne =>
    simp only [invalid, reduceCtorEq, false_iff]
    exact fun h => hne h.2
  · next hpart heq => exact ⟨fun _ => ⟨by omega, not_not.mp heq⟩, fun _ => rfl⟩

theorem checkPart_ne_internal {m : UploadManifest} :
    checkPart sha256 m part body ≠ .error .internal := by
  rw [checkPart]
  simp only [invalid]
  intro h
  split at h
  · cases h
  split at h
  · cases h
  split at h
  · cases h
  split at h <;> cases h

/-- A part is refused, and nothing changes; or its file is written over, and it is refused or, where
all is written, accepted. -/
theorem putPart_cases (sha256 : String) (busy : Bool) (write : PartWrite) (part : Nat)
    (body : List UInt8) (s : Session) :
    (∃ e, putPart sha256 busy write part body (some s) = (.error e, some s) ∧
        (e = .internal → write.left body = none)) ∨
      (1 ≤ part ∧ checkPart sha256 s.manifest part body = .ok () ∧ write ≠ .whole ∧
        putPart sha256 busy write part body (some s) =
          (.error .internal, some (s.overwrite part (write.left body)))) ∨
      (1 ≤ part ∧ checkPart sha256 s.manifest part body = .ok () ∧ busy = false ∧ write = .whole ∧
        putPart sha256 busy write part body (some s) =
          (.ok body.length, some ((s.overwrite part (some body)).record part))) := by
  rw [putPart]
  split
  · exact .inl ⟨_, rfl, fun h => by cases h⟩
  next hpart =>
  simp only [writePart]
  split
  · next hlock => exact .inl ⟨_, rfl, fun _ => by rw [hlock]; rfl⟩
  split
  · exact .inl ⟨_, rfl, fun h => by cases h⟩
  next hfree =>
  split
  · next hmanifest => exact .inl ⟨_, rfl, fun _ => by rw [hmanifest]; rfl⟩
  cases hcheck : checkPart sha256 s.manifest part body with
  | error e => exact .inl ⟨e, rfl, fun h => absurd (h ▸ hcheck) checkPart_ne_internal⟩
  | ok =>
    by_cases hwhole : write = .whole
    · subst hwhole
      exact .inr (.inr ⟨by omega, rfl, by simpa using hfree, rfl, rfl⟩)
    · refine .inr (.inl ⟨by omega, rfl, hwhole, ?_⟩)
      simp only [hwhole, if_false]

theorem putPart_accepts_iff {busy : Bool} {write : PartWrite} (hm : s.manifest.sha256 = sha256) :
    (∃ n session, putPart sha256 busy write part body (some s) = (.ok n, session)) ↔
      (busy = false ∧ write = .whole) ∧
        part ∈ partNumbers s.manifest.bytes s.manifest.partSize ∧
        body.length = expectedPartLen s.manifest.bytes s.manifest.partSize part := by
  rw [mem_partNumbers]
  constructor
  · rintro ⟨n, session, h⟩
    rcases putPart_cases sha256 busy write part body s with
      ⟨e, hput, -⟩ | ⟨-, -, -, hput⟩ | ⟨hlow, hcheck, hfree, hwhole, -⟩
    · rw [hput] at h
      cases h
    · rw [hput] at h
      cases h
    · obtain ⟨hhigh, hlen⟩ := (checkPart_ok hm).mp hcheck
      exact ⟨⟨hfree, hwhole⟩, ⟨hlow, hhigh⟩, hlen⟩
  · rintro ⟨⟨rfl, rfl⟩, ⟨hlow, hhigh⟩, hlen⟩
    rw [putPart, if_neg (by omega)]
    simp only [writePart, (checkPart_ok hm).mpr ⟨hhigh, hlen⟩]
    exact ⟨_, _, rfl⟩

end parts

/-! The folder. -/

/-- The folder of an upload of `bytes` bytes in parts of `partSize`: no part in it is longer than is
expected. -/
structure Intact (claimed : String) (bytes partSize : Nat) (mime : Option String) (s : Session) :
    Prop where
  ofSha : s.manifest.sha256 = claimed
  ofBytes : s.manifest.bytes = bytes
  ofPartSize : s.manifest.partSize = partSize
  ofMime : s.manifest.mime = mime
  sized : ∀ n body, s.parts n = some body →
    n ∈ partNumbers bytes partSize ∧ body.length ≤ expectedPartLen bytes partSize n

/-- What requests made of a folder that left `written` in the parts' files and had `accepted`
accepted: a part in it was written or was there before, and the manifest names the parts that were
accepted or that it named before. -/
structure Progress (claimed : String) (bytes partSize : Nat) (mime : Option String)
    (written accepted : Nat → Option (List UInt8)) (s s' : Session) : Prop where
  parts : ∀ n body, s'.parts n = some body → (written n).or (s.parts n) = some body
  received : ∀ n, n ∈ s'.manifest.received ↔ accepted n ≠ none ∨ n ∈ s.manifest.received
  intact : Intact claimed bytes partSize mime s → Intact claimed bytes partSize mime s'
  expected : Intact claimed bytes partSize mime s → ∀ n body, accepted n = some body →
    body.length = expectedPartLen bytes partSize n

section folder
variable {sha : List UInt8 → String} {claimed : String} {bytes partSize : Nat} {mime : Option String}
  {written written' accepted accepted' : Nat → Option (List UInt8)}
  {s s₁ s' : Session} {st st' : State} {e : Event} {trace : List Event} {store : String → Entry}

theorem Progress.refl (s : Session) :
    Progress claimed bytes partSize mime (fun _ => none) (fun _ => none) s s where
  parts := fun _ _ h => h
  received := fun _ => by simp
  intact := id
  expected := fun _ _ _ h => by cases h

theorem Progress.trans (h : Progress claimed bytes partSize mime written accepted s s₁)
    (h' : Progress claimed bytes partSize mime written' accepted' s₁ s') :
    Progress claimed bytes partSize mime (fun n => (written' n).or (written n))
      (fun n => (accepted' n).or (accepted n)) s s' where
  parts := by
    intro n body hn
    rw [Option.or_assoc]
    have hlast := h'.parts n body hn
    cases hw : written' n with
    | some body' =>
      rw [hw] at hlast
      exact hlast
    | none =>
      rw [hw] at hlast
      exact h.parts n body hlast
  received := by
    intro n
    rw [h'.received n, h.received n]
    cases accepted' n <;> simp
  intact := fun hs => h'.intact (h.intact hs)
  expected := by
    intro hs n body hn
    cases ha : accepted' n with
    | some body' =>
      simp only [ha, Option.some_or] at hn
      exact h'.expected (h.intact hs) n body (by rw [ha, hn])
    | none =>
      simp only [ha, Option.none_or] at hn
      exact h.expected hs n body hn

/-- A part's file that is written over is no longer than the part. -/
theorem length_left {body body' : List UInt8} {write : PartWrite}
    (h : write.left body = some body') : body'.length ≤ body.length := by
  cases write with
  | noLock | noManifest | noFile => cases h
  | cutOff k =>
    cases h
    exact List.length_take_le' _ _
  | noRecord | whole =>
    cases h
    exact Nat.le_refl _

theorem Intact.overwrite {part : Nat} {body : List UInt8} {write : PartWrite}
    (h : Intact claimed bytes partSize mime s) (hpart : 1 ≤ part)
    (hcheck : checkPart claimed s.manifest part body = .ok ()) :
    Intact claimed bytes partSize mime (s.overwrite part (write.left body)) where
  ofSha := h.ofSha
  ofBytes := h.ofBytes
  ofPartSize := h.ofPartSize
  ofMime := h.ofMime
  sized := by
    intro n body' hn
    have hexpect := (checkPart_ok h.ofSha).mp hcheck
    rw [h.ofBytes, h.ofPartSize] at hexpect
    simp only [Session.overwrite, Function.update_apply] at hn
    split at hn
    · next heq =>
      subst heq
      rcases Option.or_eq_some_iff.mp hn with hleft | ⟨-, hbefore⟩
      · exact ⟨mem_partNumbers.mpr ⟨hpart, hexpect.1⟩, hexpect.2 ▸ length_left hleft⟩
      · exact h.sized n body' hbefore
    · exact h.sized n body' hn

/-- A part's file is written over. -/
theorem progress_overwrite {part : Nat} {body : List UInt8} {write : PartWrite} (hpart : 1 ≤ part)
    (hcheck : checkPart claimed s.manifest part body = .ok ()) :
    Progress claimed bytes partSize mime (fun n => if part = n then write.left body else none)
      (fun _ => none) s (s.overwrite part (write.left body)) where
  parts := by
    intro n body' hn
    simp only [Session.overwrite, Function.update_apply] at hn
    split at hn
    · next heq =>
      rw [if_pos heq.symm, heq]
      exact hn
    · next hne =>
      rw [if_neg (Ne.symm hne)]
      exact hn
  received := fun n => by simp [Session.overwrite]
  intact := fun hs => hs.overwrite hpart hcheck
  expected := fun _ _ _ h => by cases h

/-- A part is written whole and recorded. -/
theorem progress_record {part : Nat} {body : List UInt8} (hpart : 1 ≤ part)
    (hcheck : checkPart claimed s.manifest part body = .ok ()) :
    Progress claimed bytes partSize mime (fun n => if part = n then some body else none)
      (fun n => if part = n then some body else none) s
      ((s.overwrite part (some body)).record part) := by
  have hover : Progress claimed bytes partSize mime
      (fun n => if part = n then PartWrite.whole.left body else none) (fun _ => none) s
      (s.overwrite part (PartWrite.whole.left body)) := progress_overwrite hpart hcheck
  refine ⟨hover.parts, ?_, ?_, ?_⟩
  · intro n
    simp only [Session.overwrite, Session.record, Finset.mem_insert]
    by_cases heq : part = n
    · simp [heq]
    · simp [heq, Ne.symm heq]
  · intro hs
    have hafter := hover.intact hs
    exact ⟨hafter.ofSha, hafter.ofBytes, hafter.ofPartSize, hafter.ofMime, hafter.sized⟩
  · intro hs n body' hn
    have hexpect := (checkPart_ok hs.ofSha).mp hcheck
    rw [hs.ofBytes, hs.ofPartSize] at hexpect
    split at hn
    · next heq =>
      cases hn
      exact heq ▸ hexpect.2
    · cases hn

/-- A removal that leaves the manifest may take parts away. -/
theorem progress_removed {leaves : Option (Finset Nat)} (h : s.removed leaves = some s') :
    Progress claimed bytes partSize mime (fun _ => none) (fun _ => none) s s' := by
  have hkept : ∀ n body, s'.parts n = some body → s.parts n = some body := by
    intro n body hn
    obtain ⟨gone, -, rfl⟩ := Option.map_eq_some_iff.mp h
    simp only at hn
    split at hn
    · cases hn
    · exact hn
  have hmanifest : s'.manifest = s.manifest := by
    obtain ⟨gone, -, rfl⟩ := Option.map_eq_some_iff.mp h
    rfl
  exact {
    parts := hkept
    received := fun n => by simp [hmanifest]
    intact := fun hs => ⟨hmanifest ▸ hs.ofSha, hmanifest ▸ hs.ofBytes, hmanifest ▸ hs.ofPartSize,
      hmanifest ▸ hs.ofMime, fun n body hn => hs.sized n body (hkept n body hn)⟩
    expected := fun _ _ _ hn => by cases hn }

/-- A completion leaves the folder as it was, or removes it. -/
theorem completeUpload_session (sha : List UInt8 → String) (claimed : String) (busy : Bool)
    (disk : Disk) (st : State) :
    (completeUpload sha claimed busy disk st).2 = st ∨
      ∃ s, st.session = some s ∧
        (completeUpload sha claimed busy disk st).2.session = s.removed disk.leaves := by
  rw [completeUpload]
  split
  · exact .inl rfl
  next s hs =>
  split
  · exact .inl rfl
  split
  · exact .inl rfl
  split
  · exact .inl rfl
  · exact .inr ⟨s, hs, rfl⟩

/-- **One request**: an open folder was open before, and what the request wrote and had accepted is
what changed in it. -/
theorem session_of_answers (h : Answers sha claimed st e st') (hs' : st'.session = some s') :
    ∃ s, st.session = some s ∧ Progress claimed bytes partSize mime (fun n => writtenBody n e)
      (fun n => acceptedBody n e) s s' := by
  obtain ⟨request, response⟩ := e
  cases request with
  | put part body busy write =>
    cases hsession : st.session with
    | none =>
      rw [Answers, respond, hsession] at h
      simp only [putPart] at h
      split at h
      · cases h
        cases hs'
      · cases h
        cases hs'
    | some s =>
      refine ⟨s, rfl, ?_⟩
      rw [Answers, respond, hsession] at h
      rcases putPart_cases claimed busy write part body s with
        ⟨err, hput, hleft⟩ | ⟨hpart, hcheck, -, hput⟩ | ⟨hpart, hcheck, -, -, hput⟩
      · rw [hput] at h
        cases h
        cases hs'
        have hnone : (fun n => writtenBody n
            ((.put part body busy write, .put (.error err)) : Event)) = fun _ => none := by
          funext n
          cases err with
          | internal =>
            simp only [writtenBody, hleft rfl, ite_self]
          | _ => rfl
        rw [hnone]
        exact Progress.refl _
      · rw [hput] at h
        cases h
        cases hs'
        exact progress_overwrite hpart hcheck
      · rw [hput] at h
        cases h
        cases hs'
        exact progress_record hpart hcheck
  | complete busy disk =>
    obtain ⟨-, rfl⟩ := Prod.mk.inj h
    have hst' : (completeUpload sha claimed busy disk st).2.session = some s' := hs'
    rcases completeUpload_session sha claimed busy disk st with hsame | ⟨s, hs, hremoved⟩
    · rw [hsame] at hst'
      exact ⟨s', hst', Progress.refl s'⟩
    · rw [hremoved] at hst'
      exact ⟨s, hs, progress_removed hst'⟩

/-- The type that an upload is started with. -/
def declaredMime (mime : Option String) : Option String := (mime.map Text.trim).filter (· ≠ "")

theorem intact_started : Intact claimed bytes partSize (declaredMime mime)
    (started claimed bytes partSize mime) where
  ofSha := rfl
  ofBytes := rfl
  ofPartSize := rfl
  ofMime := rfl
  sized := by
    intro n body h
    cases h

/-- **Over a run** an open folder holds what was last written for each part, over what it held at
first, and its manifest names the parts that were accepted. -/
theorem session_of_run (h : Run (Answers sha claimed) st trace st') (hs' : st'.session = some s') :
    ∃ s, st.session = some s ∧ Progress claimed bytes partSize mime (fun n => lastWritten n trace)
      (fun n => lastAccepted n trace) s s' := by
  induction h with
  | nil st => exact ⟨s', hs', Progress.refl s'⟩
  | cons hstep _ ih =>
    obtain ⟨s₁, hs₁, hprogress⟩ := ih hs'
    obtain ⟨s, hs, hfirst⟩ := session_of_answers hstep hs₁
    exact ⟨s, hs, hfirst.trans hprogress⟩

end folder

/-! The store. -/

section store
variable {sha : List UInt8 → String} {disk : Disk} {source : List UInt8} {claimed : String}
  {mime : Option String} {entry entry' : Entry}

/-- A file put in place whose MIME type then cannot be written. -/
structure LosesType (sha : List UInt8 → String) (disk : Disk) (source : List UInt8) (claimed : String)
    (mime : Option String) (entry : Entry) : Prop where
  shards : disk.shards = true
  verified : sha source = claimed
  regular : entry.blob ≠ .irregular
  replaced : ∀ stored, entry.blob = .file stored → sha stored ≠ claimed
  copies : disk.copies = true
  persists : disk.persists = true
  typed : ∃ m, resolveMime mime = some m ∧ Text.trim m ≠ ""
  untyped : readMimeMetadata disk entry.sidecar = none
  records : disk.records = false

theorem persist_ok {already : Bool} {blob : Blob} :
    persist sha disk source claimed = .ok (already, blob) ↔
      (disk.copies = true ∧ disk.persists = true) ∧ sha source = claimed ∧ already = false ∧
        blob = .file source := by
  rw [persist, copyToVerifiedTemp]
  by_cases hcopies : disk.copies = false
  · simp [hcopies]
  by_cases hsha : sha source = claimed
  · by_cases hpersists : disk.persists = false
    · simp [hcopies, hsha, hpersists]
    · simp [hcopies, hsha, hpersists, eq_comm]
  · simp [hcopies, hsha]

/-- A file is there already with the right fingerprint, or is put in place. -/
theorem installBlob_ok {blob blob' : Blob} {already : Bool} :
    installBlob sha disk source claimed blob = .ok (already, blob') ↔
      disk.shards = true ∧ sha source = claimed ∧
      ((∃ stored, blob = .file stored ∧ (disk.rereads = true ∧ sha stored = claimed) ∧
          disk.verifies = true ∧ already = true ∧ blob' = blob) ∨
        blob ≠ .irregular ∧
          (∀ stored, blob = .file stored → ¬ (disk.rereads = true ∧ sha stored = claimed)) ∧
          (disk.copies = true ∧ disk.persists = true) ∧ already = false ∧ blob' = .file source) := by
  unfold installBlob
  by_cases hshards : disk.shards = false
  · simp [hshards]
  rw [if_neg hshards]
  have hmade : disk.shards = true := by simpa using hshards
  cases blob with
  | irregular => simp
  | absent =>
    simp only [persist_ok, hmade, reduceCtorEq, false_and, exists_false, false_or, ne_eq,
      not_false_eq_true, false_implies, implies_true, true_and]
    tauto
  | file stored =>
    simp only
    by_cases hthere : disk.rereads = true ∧ sha stored = claimed
    · rw [if_pos hthere]
      by_cases hverifies : disk.verifies = false
      · rw [if_pos hverifies]
        simp only [reduceCtorEq, hverifies, Bool.false_eq_true, false_and, and_false, exists_false,
          Blob.file.injEq, false_or, false_iff]
        exact fun h => h.2.2.2.1 stored rfl hthere
      · rw [if_neg hverifies]
        by_cases hsource : sha source = claimed
        · rw [if_neg (not_not.mpr hsource)]
          constructor
          · intro h
            cases h
            exact ⟨hmade, hsource, .inl ⟨stored, rfl, hthere, by simpa using hverifies, rfl, rfl⟩⟩
          · rintro ⟨-, -, ⟨other, -, -, -, rfl, rfl⟩ | ⟨-, hreplaced, -⟩⟩
            · rfl
            · exact absurd hthere (hreplaced stored rfl)
        · simp [hsource]
    · rw [if_neg hthere, persist_ok]
      constructor
      · rintro ⟨hdisk, hsource, hplace⟩
        exact ⟨hmade, hsource,
          .inr ⟨by simp, by rintro _ ⟨rfl⟩; exact hthere, hdisk, hplace⟩⟩
      · rintro ⟨-, hsource, ⟨other, hfile, hother, -⟩ | ⟨-, -, hdisk, hplace⟩⟩
        · cases hfile
          exact absurd hother hthere
        · exact ⟨hdisk, hsource, hplace⟩

theorem storeMimeMetadata_error {m : String} {sidecar : Option String} {e : AssetError} :
    storeMimeMetadata disk m sidecar = .error e ↔ Text.trim m ≠ "" ∧
      readMimeMetadata disk sidecar = none ∧ disk.records = false ∧ e = .internal := by
  rw [storeMimeMetadata]
  by_cases hblank : Text.trim m = ""
  · simp [hblank]
  by_cases hread : (readMimeMetadata disk sidecar).isSome
  · rw [if_neg hblank, if_pos hread]
    simp [Option.isSome_iff_ne_none.mp hread]
  · rw [if_neg hblank, if_neg hread]
    have hnone : readMimeMetadata disk sidecar = none := by simpa using hread
    by_cases hrecords : disk.records = false
    · simp [hblank, hnone, hrecords, eq_comm]
    · simp [hrecords]

/-- **What is stored has the claimed fingerprint, and so has what was sent.** -/
theorem storeVerified_ok {asset : StoredAsset} {already : Bool}
    (h : storeVerified sha disk source claimed mime entry = (.ok (asset, already), entry')) :
    sha source = claimed ∧ ∃ stored, entry'.blob = .file stored ∧ sha stored = claimed := by
  rw [storeVerified] at h
  cases hinstall : installBlob sha disk source claimed entry.blob with
  | error e =>
    rw [hinstall] at h
    cases h
  | ok installed =>
    obtain ⟨already', blob⟩ := installed
    obtain ⟨-, hsource, hplace⟩ := installBlob_ok.mp hinstall
    have hblob : entry'.blob = blob := by
      rw [hinstall] at h
      simp only at h
      split at h
      · cases h
        rfl
      · split at h
        · cases h
        · cases h
          rfl
    refine ⟨hsource, ?_⟩
    rcases hplace with ⟨stored, hfile, hstored, -, -, hsame⟩ | ⟨-, -, -, -, hnew⟩
    · exact ⟨stored, by rw [hblob, hsame, hfile], hstored.2⟩
    · exact ⟨source, by rw [hblob, hnew], hsource⟩

/-- **What is refused leaves the store as it was, but for a file whose type is lost.** A file that
could not be read is replaced by one like it. -/
theorem storeVerified_error (hsha : Function.Injective sha) {e : AssetError}
    (h : storeVerified sha disk source claimed mime entry = (.error e, entry')) :
    entry' = entry ↔ ¬ LosesType sha disk source claimed mime entry := by
  have hplaces : LosesType sha disk source claimed mime entry →
      installBlob sha disk source claimed entry.blob = .ok (false, .file source) := fun hl =>
    installBlob_ok.mpr ⟨hl.shards, hl.verified, .inr ⟨hl.regular,
      fun stored hfile hthere => hl.replaced stored hfile hthere.2,
      ⟨hl.copies, hl.persists⟩, rfl, rfl⟩⟩
  rw [storeVerified] at h
  cases hinstall : installBlob sha disk source claimed entry.blob with
  | error err =>
    rw [hinstall] at h
    cases h
    refine iff_of_true rfl ?_
    intro hloses
    rw [hplaces hloses] at hinstall
    cases hinstall
  | ok installed =>
    obtain ⟨already, blob⟩ := installed
    obtain ⟨hshards, hsource, hplace⟩ := installBlob_ok.mp hinstall
    rw [hinstall] at h
    simp only at h
    split at h
    · cases h
    next m hmime =>
    split at h
    · next err hrecord =>
      cases h
      obtain ⟨htyped, huntyped, hrecords, -⟩ := storeMimeMetadata_error.mp hrecord
      -- a file of the claimed fingerprint that was there is there still
      have hkept : ∀ stored, entry.blob = .file stored → sha stored = claimed →
          blob = entry.blob := by
        intro stored hfile hstored
        rcases hplace with ⟨-, -, -, -, -, hsame⟩ | ⟨-, -, -, -, hnew⟩
        · exact hsame
        · rw [hnew, hfile, hsha (hsource.trans hstored.symm)]
      by_cases hthere : ∃ stored, entry.blob = .file stored ∧ sha stored = claimed
      · obtain ⟨stored, hfile, hstored⟩ := hthere
        refine iff_of_true (by rw [hkept stored hfile hstored]) ?_
        intro hloses
        exact hloses.replaced stored hfile hstored
      · rcases hplace with ⟨stored, hfile, hstored, -⟩ | ⟨hregular, -, hdisk, -, rfl⟩
        · exact absurd ⟨stored, hfile, hstored.2⟩ hthere
        · have hloses : LosesType sha disk source claimed mime entry :=
            { shards := hshards
              verified := hsource
              regular := hregular
              replaced := fun stored hfile hstored => hthere ⟨stored, hfile, hstored⟩
              copies := hdisk.1
              persists := hdisk.2
              typed := ⟨m, hmime, htyped⟩
              untyped := huntyped
              records := hrecords }
          refine iff_of_false ?_ (not_not.mpr hloses)
          intro hsame
          have hblob := congrArg Entry.blob hsame
          exact hthere ⟨source, hblob.symm, hsource⟩
    · cases h

end store

/-! Completion. -/

section completion
variable {sha : List UInt8 → String} {claimed : String} {bytes partSize : Nat} {mime : Option String}
  {s : Session} {st st' : State} {busy : Bool} {disk : Disk}

/-- Every part arrived and is there. -/
def Session.Full (s : Session) (bytes partSize : Nat) : Prop :=
  ∀ n ∈ partNumbers bytes partSize, n ∈ s.manifest.received ∧ s.parts n ≠ none

theorem assemble_ok (h : Intact claimed bytes partSize mime s) {content : List UInt8} :
    assemble claimed disk s = .ok content ↔ (disk.reads = true ∧ disk.joins = true) ∧
      s.Full bytes partSize ∧ content = joined bytes partSize s.parts ∧ content.length = bytes := by
  unfold assemble
  simp only [h.ofSha, h.ofBytes, h.ofPartSize, ne_eq, not_true_eq_false, if_false]
  split
  · next hreads => simp [hreads]
  next hreads =>
  split
  · next n hfind =>
    have hnone := List.find?_some hfind
    have hmem := List.mem_of_find?_eq_some hfind
    simp only [invalid, reduceCtorEq, false_iff]
    rintro ⟨-, hall, -⟩
    obtain ⟨hreceived, hthere⟩ := hall n hmem
    simp [hreceived, hthere] at hnone
  next hfind =>
  have hall : s.Full bytes partSize := by
    intro n hn
    have hkept := List.find?_eq_none.mp hfind n hn
    simpa [not_or] using hkept
  split
  · next hjoins => simp [hjoins]
  next hjoins =>
  split
  · next hlen =>
    simp only [invalid, reduceCtorEq, false_iff]
    rintro ⟨-, -, rfl, heq⟩
    exact hlen heq
  · next hlen =>
    simp only [Except.ok.injEq]
    constructor
    · rintro rfl
      exact ⟨⟨by simpa using hreads, by simpa using hjoins⟩, hall, rfl, not_not.mp hlen⟩
    · rintro ⟨-, -, rfl, -⟩
      rfl

theorem completeUpload_ok {asset : StoredAsset} {already : Bool}
    (hintact : ∀ s, st.session = some s → Intact claimed bytes partSize mime s)
    (h : completeUpload sha claimed busy disk st = (.ok (asset, already), st')) :
    ∃ s, st.session = some s ∧ s.Full bytes partSize ∧
      (joined bytes partSize s.parts).length = bytes ∧ sha (joined bytes partSize s.parts) = claimed ∧
      (∃ stored, (st'.store claimed).blob = .file stored ∧ sha stored = claimed) ∧
      (∀ other, other ≠ claimed → st'.store other = st.store other) := by
  rw [completeUpload] at h
  split at h
  · cases h
  next s hs =>
  split at h
  · cases h
  split at h
  · cases h
  split at h
  · cases h
  next content hcontent =>
  obtain ⟨-, hall, hjoined, hlen⟩ := (assemble_ok (hintact s hs)).mp hcontent
  cases hstore : storeVerified sha disk content claimed s.manifest.mime (st.store claimed) with
  | mk result entry =>
    rw [hstore] at h
    simp only [Prod.mk.injEq] at h
    obtain ⟨rfl, rfl⟩ := h
    obtain ⟨hsource, stored, hblob, hstored⟩ := storeVerified_ok hstore
    rw [hjoined] at hlen hsource
    refine ⟨s, hs, hall, hlen, hsource, ⟨stored, ?_, hstored⟩, ?_⟩
    · simp only [Function.update_self]
      exact hblob
    · intro other hne
      exact Function.update_of_ne hne _ _

/-- A completion that gets to the store and loses the type of the file it puts in place. -/
def CompletionLosesType (sha : List UInt8 → String) (claimed : String) (bytes partSize : Nat)
    (mime : Option String) (busy : Bool) (disk : Disk) (st : State) : Prop :=
  (disk.locks = true ∧ busy = false ∧ disk.reads = true ∧ disk.joins = true) ∧
    ∃ s, st.session = some s ∧ s.Full bytes partSize ∧
      (joined bytes partSize s.parts).length = bytes ∧
      LosesType sha disk (joined bytes partSize s.parts) claimed mime (st.store claimed)

theorem completeUpload_error (hsha : Function.Injective sha) {e : AssetError}
    (hintact : ∀ s, st.session = some s → Intact claimed bytes partSize mime s)
    (h : completeUpload sha claimed busy disk st = (.error e, st')) :
    st'.store = st.store ↔ ¬ CompletionLosesType sha claimed bytes partSize mime busy disk st := by
  rw [completeUpload] at h
  split at h
  · next hnone =>
    cases h
    refine iff_of_true rfl ?_
    rintro ⟨-, s, hs, -⟩
    rw [hnone] at hs
    cases hs
  next s hs =>
  split at h
  · next hlocks =>
    cases h
    refine iff_of_true rfl ?_
    rintro ⟨⟨hopens, -⟩, -⟩
    rw [hlocks] at hopens
    cases hopens
  next hlocks =>
  split at h
  · next hbusy =>
    cases h
    refine iff_of_true rfl ?_
    rintro ⟨⟨-, hfree, -⟩, -⟩
    rw [hfree] at hbusy
    cases hbusy
  next hfree =>
  split at h
  · next err hassemble =>
    cases h
    refine iff_of_true rfl ?_
    rintro ⟨⟨-, -, hdisk⟩, s', hs', hall, hlen, -⟩
    obtain rfl : s = s' := Option.some.inj (hs.symm.trans hs')
    rw [(assemble_ok (hintact s hs)).mpr ⟨hdisk, hall, rfl, hlen⟩] at hassemble
    cases hassemble
  next content hcontent =>
  obtain ⟨hdisk, hall, rfl, hlen⟩ := (assemble_ok (hintact s hs)).mp hcontent
  cases hstore : storeVerified sha disk (joined bytes partSize s.parts) claimed s.manifest.mime
      (st.store claimed) with
  | mk result entry =>
    rw [hstore] at h
    simp only [Prod.mk.injEq] at h
    obtain ⟨rfl, rfl⟩ := h
    have hkept := storeVerified_error hsha hstore
    rw [(hintact s hs).ofMime] at hkept
    have hupdate : Function.update st.store claimed entry = st.store ↔
        entry = st.store claimed := by
      constructor
      · intro hsame
        rw [← hsame, Function.update_self]
      · rintro rfl
        exact Function.update_eq_self _ _
    rw [hupdate, hkept, not_iff_not]
    constructor
    · exact fun hloses =>
        ⟨⟨by simpa using hlocks, by simpa using hfree, hdisk⟩, s, hs, hall, hlen, hloses⟩
    · rintro ⟨-, s', hs', -, -, hloses⟩
      obtain rfl : s = s' := Option.some.inj (hs.symm.trans hs')
      exact hloses

/-- A completion with a part missing leaves all as it is. -/
theorem completeUpload_missing (hintact : ∀ s, st.session = some s → Intact claimed bytes partSize mime s)
    (hmissing : ∀ s, st.session = some s → ¬ s.Full bytes partSize) :
    ∃ e, completeUpload sha claimed busy disk st = (.error e, st) := by
  rw [completeUpload]
  split
  · exact ⟨_, rfl⟩
  next s hs =>
  split
  · exact ⟨_, rfl⟩
  split
  · exact ⟨_, rfl⟩
  split
  · exact ⟨_, rfl⟩
  · next content hcontent =>
    exact absurd ((assemble_ok (hintact s hs)).mp hcontent).2.1 (hmissing s hs)

end completion

/-! A whole upload. -/

/-- The bodies last accepted, joined. -/
def sent (bytes partSize : Nat) (trace : List Event) : List UInt8 :=
  joined bytes partSize fun n => lastAccepted n trace

/-- What was last written for the parts, joined. -/
def laidDown (bytes partSize : Nat) (trace : List Event) : List UInt8 :=
  joined bytes partSize fun n => lastWritten n trace

theorem joined_congr {bytes partSize : Nat} {parts parts' : Nat → Option (List UInt8)}
    (h : ∀ n ∈ partNumbers bytes partSize, parts n = parts' n) :
    joined bytes partSize parts = joined bytes partSize parts' :=
  List.flatMap_congr fun n hn => by rw [h n hn]

/-- Pieces that join to one list are the same ones, where none is longer than its counterpart. -/
theorem flatMap_inj_of_length_le {α β : Type} {f g : α → List β} : ∀ {l : List α},
    (∀ a ∈ l, (f a).length ≤ (g a).length) → l.flatMap f = l.flatMap g → ∀ a ∈ l, f a = g a
  | [], _, _ => by simp
  | a :: l, hle, h => by
    have hrest : (l.flatMap f).length ≤ (l.flatMap g).length := by
      rw [List.length_flatMap, List.length_flatMap]
      exact List.sum_le_sum fun b hb => hle b (List.mem_cons_of_mem a hb)
    have hfirst := hle a List.mem_cons_self
    rw [List.flatMap_cons, List.flatMap_cons] at h
    have hlength := congrArg List.length h
    rw [List.length_append, List.length_append] at hlength
    obtain ⟨hsame, hothers⟩ := List.append_inj h (by omega)
    rw [List.forall_mem_cons]
    exact ⟨hsame, flatMap_inj_of_length_le (fun b hb => hle b (List.mem_cons_of_mem a hb)) hothers⟩

/-- After a completion that succeeds every part was accepted, and the store holds a file of the
declared size and fingerprint, `content`, and what it held before under every other one. -/
structure StoresFile (sha : List UInt8 → String) (claimed : String) (bytes partSize : Nat)
    (trace : List Event) (content : List UInt8) (before after : String → Entry) : Prop where
  arrived : ∀ n ∈ partNumbers bytes partSize, lastAccepted n trace ≠ none
  stored : (after claimed).blob = .file content
  hashes : sha content = claimed
  size : content.length = bytes
  others : ∀ other, other ≠ claimed → after other = before other

/-- **What is stored was last accepted**, where no part was written over by one that was refused,
and only there. -/
theorem stores_declared_iff {sha : List UInt8 → String} {claimed : String} {bytes partSize : Nat}
    {trace : List Event} {before after : String → Entry}
    (hfile : StoresFile sha claimed bytes partSize trace (laidDown bytes partSize trace) before after)
    (hwritten : ∀ n ∈ partNumbers bytes partSize, ∃ body, lastWritten n trace = some body ∧
      body.length ≤ expectedPartLen bytes partSize n)
    (hexpected : ∀ n body, lastAccepted n trace = some body →
      body.length = expectedPartLen bytes partSize n) :
    StoresFile sha claimed bytes partSize trace (sent bytes partSize trace) before after ↔
      ∀ n ∈ partNumbers bytes partSize, lastWritten n trace = lastAccepted n trace := by
  constructor
  · intro hsent n hn
    have hsame : laidDown bytes partSize trace = sent bytes partSize trace := by
      have := hfile.stored.symm.trans hsent.stored
      injection this
    have hpieces := flatMap_inj_of_length_le (fun k hk => by
      obtain ⟨body, hbody, hlen⟩ := hwritten k hk
      obtain ⟨body', hbody'⟩ := Option.ne_none_iff_exists'.mp (hfile.arrived k hk)
      simp only [hbody, hbody', Option.getD_some, hexpected k body' hbody']
      exact hlen) hsame n hn
    obtain ⟨body, hbody, -⟩ := hwritten n hn
    obtain ⟨body', hbody'⟩ := Option.ne_none_iff_exists'.mp (hfile.arrived n hn)
    simp only [hbody, hbody', Option.getD_some] at hpieces
    rw [hbody, hbody', hpieces]
  · intro hlast
    have hsame : laidDown bytes partSize trace = sent bytes partSize trace := joined_congr hlast
    exact hsame ▸ hfile

/-- **A multipart upload stores the declared file or nothing**, with a fingerprint that no two
files share: the parts' lengths make up the file when their number fits a `u32`; and after any
requests, whichever of their file operations fail, a part is accepted when it has its expected length
and all of it is written, a completion that succeeds stores a file of the declared size and
fingerprint, which is what was last accepted unless a part was written over by one that was refused,
one that fails keeps the store unless it loses the type of a file it has put in place, and one with a
part missing keeps the parts too. -/
theorem upload_stores_the_declared_file {sha : List UInt8 → String} (hsha : Function.Injective sha)
    (claimed : String) {bytes partSize : Nat} (hsize : 1 ≤ partSize) (mime : Option String)
    (store : String → Entry) :
    (PartsCover bytes partSize ↔ (bytes + partSize - 1) / partSize < 2 ^ 32) ∧
    ∀ trace st, Run (Answers sha claimed) ⟨some (started claimed bytes partSize mime), store⟩ trace st →
      (∀ busy write part body, st.session ≠ none →
        ((∃ n session, putPart claimed busy write part body st.session = (.ok n, session)) ↔
          (busy = false ∧ write = .whole) ∧ part ∈ partNumbers bytes partSize ∧
            body.length = expectedPartLen bytes partSize part)) ∧
      ∀ busy disk,
        (∀ result st', completeUpload sha claimed busy disk st = (.ok result, st') →
          StoresFile sha claimed bytes partSize trace (laidDown bytes partSize trace) st.store
            st'.store ∧
          (StoresFile sha claimed bytes partSize trace (sent bytes partSize trace) st.store
              st'.store ↔
            ∀ n ∈ partNumbers bytes partSize, lastWritten n trace = lastAccepted n trace)) ∧
        (∀ e st', completeUpload sha claimed busy disk st = (.error e, st') →
          (st'.store = st.store ↔
            ¬ CompletionLosesType sha claimed bytes partSize (declaredMime mime) busy disk st)) ∧
        ((∃ n ∈ partNumbers bytes partSize, lastAccepted n trace = none) →
          ∃ e, completeUpload sha claimed busy disk st = (.error e, st)) := by
  refine ⟨partsCover_iff hsize, ?_⟩
  intro trace st hrun
  -- an open folder is intact, its parts are those last written, and it names those accepted
  have hfolder : ∀ s, st.session = some s → Progress claimed bytes partSize (declaredMime mime)
      (fun n => lastWritten n trace) (fun n => lastAccepted n trace)
      (started claimed bytes partSize mime) s := by
    intro s hs
    obtain ⟨s₀, hs₀, hprogress⟩ := session_of_run hrun hs
    cases hs₀
    exact hprogress
  have hintact := fun s hs => (hfolder s hs).intact intact_started
  have hreceived : ∀ s, st.session = some s → ∀ n,
      n ∈ s.manifest.received ↔ lastAccepted n trace ≠ none := by
    intro s hs n
    rw [(hfolder s hs).received n]
    exact or_iff_left (Finset.notMem_empty n)
  refine ⟨?_, ?_⟩
  · intro busy write part body hopen
    obtain ⟨s, hs⟩ := Option.ne_none_iff_exists'.mp hopen
    have h := hintact s hs
    rw [hs, putPart_accepts_iff h.ofSha, h.ofBytes, h.ofPartSize]
  · intro busy disk
    refine ⟨?_, ?_, ?_⟩
    · rintro ⟨asset, already⟩ st' h
      obtain ⟨s, hs, hall, hlen, hhash, ⟨stored, hblob, hstored⟩, hothers⟩ :=
        completeUpload_ok hintact h
      have hparts : ∀ n ∈ partNumbers bytes partSize, s.parts n = lastWritten n trace := by
        intro n hn
        obtain ⟨body, hbody⟩ := Option.ne_none_iff_exists'.mp (hall n hn).2
        have hlast := (hfolder s hs).parts n body hbody
        rw [hbody, ← hlast]
        exact Option.or_none
      rw [joined_congr hparts] at hlen hhash
      have hfile : StoresFile sha claimed bytes partSize trace (laidDown bytes partSize trace)
          st.store st'.store :=
        { arrived := fun n hn => (hreceived s hs n).mp (hall n hn).1
          stored := by
            rw [hblob, hsha (hstored.trans hhash.symm)]
            rfl
          hashes := hhash
          size := hlen
          others := hothers }
      refine ⟨hfile, stores_declared_iff hfile ?_ ((hfolder s hs).expected intact_started)⟩
      intro n hn
      obtain ⟨body, hbody⟩ := Option.ne_none_iff_exists'.mp (hall n hn).2
      exact ⟨body, (hparts n hn).symm.trans hbody, ((hintact s hs).sized n body hbody).2⟩
    · intro e st' h
      exact completeUpload_error hsha hintact h
    · rintro ⟨n, hn, hnone⟩
      refine completeUpload_missing hintact ?_
      intro s hs hfull
      exact (hreceived s hs n).mp (hfull n hn).1 hnone

/-- The fingerprint of the three letters `abc`, and a text of its own for any other file. -/
def abcSha : String := "ba7816bf8f01cfea414140de5dae2223b00361a396177a9cb410ff61f20015ad"

def shaOfAbc (bytes : List UInt8) : String :=
  if bytes = [97, 98, 99] then abcSha
  else String.ofList ('/' :: bytes.map fun b => Char.ofNat b.toNat)

theorem ofNat_toNat_injective : Function.Injective fun b : UInt8 => Char.ofNat b.toNat := by
  intro x y h
  have hchar : ∀ b : UInt8, (Char.ofNat b.toNat).toNat = b.toNat := by
    intro b
    have hvalid : b.toNat.isValidChar := .inl (by have := b.toNat_lt; omega)
    rw [Char.ofNat, dif_pos hvalid]
    rfl
  have hsame : Char.ofNat x.toNat = Char.ofNat y.toNat := h
  have hnat : x.toNat = y.toNat := by rw [← hchar x, ← hchar y, hsame]
  exact UInt8.toNat_inj.mp hnat

theorem shaOfAbc_injective : Function.Injective shaOfAbc := by
  have hother : ∀ bytes : List UInt8,
      abcSha ≠ String.ofList ('/' :: bytes.map fun b => Char.ofNat b.toNat) := by
    intro bytes h
    have hchars := congrArg (fun s => s.toList.head?) h
    simp only [String.toList_ofList, List.head?_cons] at hchars
    revert hchars
    decide
  intro a b h
  simp only [shaOfAbc] at h
  split at h
  · next ha =>
    split at h
    · next hb => rw [ha, hb]
    · exact absurd h (hother b)
  · split at h
    · exact absurd h.symm (hother a)
    · have hchars := (List.cons.inj (String.ofList_injective h)).2
      exact List.map_injective_iff.mpr ofNat_toNat_injective hchars

/-- The second part, then the first, whose file was cut off the first time. -/
def abcTrace : List Event :=
  [(.put 2 [99] false .whole, .put (.ok 1)), (.put 1 [97, 98] false (.cutOff 1), .put (.error .internal)),
    (.put 1 [97, 98] false .whole, .put (.ok 2))]

def abcStart : State := ⟨some (started abcSha 3 2 none), fun _ => ⟨.absent, none⟩⟩

/-- The upload after the requests of a trace. -/
def stateAfter (trace : List Event) : State :=
  trace.foldl (fun st e => (respond shaOfAbc abcSha st e.1).2) abcStart

theorem upload_stores_the_declared_file_abc :
    StoresFile shaOfAbc abcSha 3 2 abcTrace (sent 3 2 abcTrace) (stateAfter abcTrace).store
      (completeUpload shaOfAbc abcSha false Disk.sound (stateAfter abcTrace)).2.store := by
  have hrun : Run (Answers shaOfAbc abcSha) abcStart abcTrace (stateAfter abcTrace) :=
    .cons rfl (.cons rfl (.cons rfl (.nil _)))
  have hdone : completeUpload shaOfAbc abcSha false Disk.sound (stateAfter abcTrace) =
      (.ok (⟨abcSha, shardRelPath abcSha, none⟩, false),
        (completeUpload shaOfAbc abcSha false Disk.sound (stateAfter abcTrace)).2) :=
    Prod.ext (by decide) rfl
  exact ((((upload_stores_the_declared_file shaOfAbc_injective abcSha (by decide) none _).2
    abcTrace _ hrun).2 false Disk.sound).1 _ _ hdone).2.mpr (by decide)

/-- A first part is accepted, then written over by one that is refused. -/
def overwrittenTrace : List Event :=
  [(.put 1 [120, 121] false .whole, .put (.ok 2)), (.put 2 [99] false .whole, .put (.ok 1)),
    (.put 1 [97, 98] false .noRecord, .put (.error .internal))]

/-- A file of 2⁵⁸ bytes in parts of the default size has 2³² parts, and the cast leaves none: no
part of it is ever accepted. And a part that was refused, after its file was written over, is in the
file that a completion then stores. -/
theorem wide_upload_has_no_parts :
    (¬ PartsCover (2 ^ 58) (64 * 1024 * 1024) ∧
      ∀ part body busy write, ∃ e, (putPart abcSha busy write part body
        (some (started abcSha (2 ^ 58) (64 * 1024 * 1024) none))).1 = .error e) ∧
    Run (Answers shaOfAbc abcSha) abcStart overwrittenTrace (stateAfter overwrittenTrace) ∧
      (completeUpload shaOfAbc abcSha false Disk.sound (stateAfter overwrittenTrace)).1 =
        .ok (⟨abcSha, shardRelPath abcSha, none⟩, false) ∧
      ((completeUpload shaOfAbc abcSha false Disk.sound (stateAfter overwrittenTrace)).2.store
        abcSha).blob = .file [97, 98, 99] ∧
      sent 3 2 overwrittenTrace = [120, 121, 99] := by
  have hcount : expectedPartCount (2 ^ 58) (64 * 1024 * 1024) = 0 := by decide
  refine ⟨⟨?_, ?_⟩, .cons rfl (.cons rfl (.cons rfl (.nil _))), by decide, by decide, by decide⟩
  · rw [partsCover_iff (by decide)]
    decide
  · intro part body busy write
    have hnone : ¬ (1 ≤ part ∧ checkPart abcSha
        (started abcSha (2 ^ 58) (64 * 1024 * 1024) none).manifest part body = .ok ()) := by
      rintro ⟨hpart, hcheck⟩
      have hrange : part ≤ expectedPartCount (2 ^ 58) (64 * 1024 * 1024) :=
        ((checkPart_ok rfl).mp hcheck).1
      omega
    rcases putPart_cases abcSha busy write part body
        (started abcSha (2 ^ 58) (64 * 1024 * 1024) none)
      with ⟨e, hput, -⟩ | ⟨hpart, hcheck, -⟩ | ⟨hpart, hcheck, -⟩
    · exact ⟨e, by rw [hput]⟩
    · exact absurd ⟨hpart, hcheck⟩ hnone
    · exact absurd ⟨hpart, hcheck⟩ hnone

end MessageCrate.AssetUploads

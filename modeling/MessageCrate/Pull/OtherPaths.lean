import MessageCrate.Pull.Downloads

/- The other paths of a downloaded file (`note_asset_refs` and `place_other_paths` of
   pull/src/run.rs, over `export_path` of pull/src/project.rs).

   A fingerprint is downloaded to the path of the first message that names it. A later message may
   name it under another path, and the file is put there too, by a hard link or by a copy.

     1. `covers_notedOf`: each attachment's path is its fingerprint's first path, or is noted
        among the others.
     2. `other_paths_right`: where the first paths are right, every path that was free is then right
        too, and every file that was there is as it was. -/
namespace MessageCrate.Downloads
open Inodes Runs Text Stems

/-- What an attachment of an exported message says of its file. -/
structure Attachment where
  path : Option String
  sha256 : Option String
  deriving DecidableEq, Repr

/-- The named parts of a path. -/
def pathParts (path : String) : List String :=
  ((path.toList.splitOn '/').map String.ofList).filter fun part => part ≠ "" && part ≠ "."

/-- `safe_attachment_path`: the path stays under the folder it is joined to. -/
def safeAttachmentPath (path : String) : Bool :=
  let path := trim path
  !"/".toList.isPrefixOf path.toList && pathParts path ≠ [] && ".." ∉ pathParts path

/-- The path an attachment is written at, and the one that was refused. -/
structure ExportPath where
  rel : Option String
  refused : Option String
  deriving DecidableEq, Repr

def exportPath (att : Attachment) : ExportPath :=
  let byFingerprint := (att.sha256.bind trimmed).map fun sha => "attachments/" ++ sha
  match att.path.bind trimmed with
  | none => ⟨byFingerprint, none⟩
  | some path =>
    if safeAttachmentPath path then ⟨some path, none⟩ else ⟨byFingerprint, att.path⟩

/-- The fingerprint an attachment names, and its path. -/
def Attachment.ref (att : Attachment) : Option (String × String) :=
  match att.sha256.bind trimmed, (exportPath att).rel with
  | some sha, some rel => some (sha, rel)
  | _, _ => none

/-- `assets` and `other_paths`: the first path of each fingerprint, and the others. -/
structure Noted where
  assets : String → Option String
  otherPaths : List (String × String)

def Noted.ref (noted : Noted) (r : String × String) : Noted :=
  match noted.assets r.1 with
  | none => { noted with assets := Function.update noted.assets r.1 (some r.2) }
  | some first =>
    if first ≠ r.2 then { noted with otherPaths := noted.otherPaths ++ [r] } else noted

/-- What one message's attachments add, and the paths among them that are refused. -/
def noteAssetRefs (attachments : List Attachment) (noted : Noted) :
    Noted × List (String × Option String) :=
  ((attachments.filterMap Attachment.ref).foldl Noted.ref noted,
    attachments.filterMap fun att => (exportPath att).refused.map fun path =>
      (path, (exportPath att).rel))

/-- The other paths, each once, in the order of the fingerprints and then of the paths. -/
def Noted.ordered (noted : Noted) : List (String × String) :=
  noted.otherPaths.dedup.mergeSort fun a b => decide (a.1 < b.1 ∨ a.1 = b.1 ∧ a.2 ≤ b.2)

/-- Where a path leads, in the output folder. -/
def relPath (rel : String) : FilePath := ⟨(pathParts rel).dropLast, (pathParts rel).getLastD ""⟩

/-- One other path. `linked` is whether the disk has hard links. -/
def placeOtherPath (linked : Bool) (d : Disk FilePath) (first dest : FilePath) :
    Option (Disk FilePath) :=
  if (d.read dest).isSome then some d
  else
    match d.read first with
    | none => none
    | some bytes =>
      if linked then some (d.link first dest)
      else some ((fetched d (dest.withExtension "part") bytes).rename (dest.withExtension "part") dest)

/-- What all the messages note. -/
def notedOf (messages : List (List Attachment)) : Noted :=
  messages.foldl (fun noted attachments => (noteAssetRefs attachments noted).1) ⟨fun _ => none, []⟩

/-- The `.part` file that a copy is written to. -/
def partPath (r : String × String) : FilePath := (relPath r.2).withExtension "part"

/-- The loop's body. -/
def placeNoted (links : String × String → Bool) (noted : Noted) (d : Disk FilePath)
    (r : String × String) : Option (Disk FilePath) :=
  match noted.assets r.1 with
  | none => some d
  | some first => placeOtherPath (links r) d (relPath first) (relPath r.2)

def placeOtherPaths (links : String × String → Bool) (noted : Noted) (d : Disk FilePath) :
    Option (Disk FilePath) :=
  noted.ordered.foldlM (placeNoted links noted) d

/-! What is noted. -/

/-- The path is the fingerprint's first, or noted among the others. -/
def Noted.Covers (noted : Noted) (r : String × String) : Prop :=
  noted.assets r.1 = some r.2 ∨ (noted.assets r.1).isSome ∧ r ∈ noted.otherPaths

section noted
variable {noted : Noted} {r r' : String × String}

theorem covers_ref (noted : Noted) (r : String × String) : (noted.ref r).Covers r := by
  rw [Noted.ref]
  cases hfirst : noted.assets r.1 with
  | none => exact .inl (Function.update_self ..)
  | some first =>
    by_cases hsame : first = r.2
    · simp only [hsame, ne_eq, not_true_eq_false, if_false]
      exact .inl (hsame ▸ hfirst)
    · simp only [ne_eq, hsame, not_false_eq_true, if_true]
      exact .inr ⟨by rw [hfirst]; rfl, List.mem_append_right _ List.mem_cons_self⟩

/-- A first path stays the first. -/
theorem assets_ref {sha first : String} (h : noted.assets sha = some first) :
    (noted.ref r).assets sha = some first := by
  rw [Noted.ref]
  cases hfirst : noted.assets r.1 with
  | none =>
    have hne : sha ≠ r.1 := by
      intro heq
      rw [heq, hfirst] at h
      cases h
    exact (Function.update_of_ne hne _ _).trans h
  | some first' =>
    by_cases hsame : first' = r.2
    · simpa [hsame] using h
    · simpa [hsame] using h

theorem mem_otherPaths_ref (h : r' ∈ noted.otherPaths) : r' ∈ (noted.ref r).otherPaths := by
  rw [Noted.ref]
  cases noted.assets r.1 with
  | none => exact h
  | some first =>
    by_cases hsame : first = r.2
    · simpa [hsame] using h
    · simp [hsame, h]

theorem Noted.Covers.ref (h : noted.Covers r') (r : String × String) :
    (noted.ref r).Covers r' := by
  rcases h with hfirst | ⟨hsome, hmem⟩
  · exact .inl (assets_ref hfirst)
  · obtain ⟨first, hfirst⟩ := Option.isSome_iff_exists.mp hsome
    refine .inr ⟨?_, mem_otherPaths_ref hmem⟩
    rw [assets_ref hfirst]
    rfl

theorem Noted.Covers.refs (h : noted.Covers r) (refs : List (String × String)) :
    (refs.foldl Noted.ref noted).Covers r := by
  induction refs generalizing noted with
  | nil => exact h
  | cons r' refs ih => exact ih (h.ref r')

theorem covers_refs {refs : List (String × String)} (hr : r ∈ refs) :
    (refs.foldl Noted.ref noted).Covers r := by
  induction refs generalizing noted with
  | nil => cases hr
  | cons r' refs ih =>
    rw [List.foldl_cons]
    rcases List.mem_cons.mp hr with rfl | hr
    · exact (covers_ref noted r).refs refs
    · exact ih hr

/-- Every message's attachments are noted. -/
theorem covers_notedOf {messages : List (List Attachment)} {attachments : List Attachment}
    {att : Attachment} (hmessage : attachments ∈ messages) (hatt : att ∈ attachments)
    (href : att.ref = some r) : (notedOf messages).Covers r := by
  have hflat : notedOf messages =
      (messages.flatMap fun attachments => attachments.filterMap Attachment.ref).foldl
        Noted.ref ⟨fun _ => none, []⟩ := by
    rw [List.foldl_flatMap]
    rfl
  rw [hflat]
  apply covers_refs
  exact List.mem_flatMap.mpr ⟨attachments, hmessage, List.mem_filterMap.mpr ⟨att, hatt, href⟩⟩

end noted

theorem mem_ordered {noted : Noted} {r : String × String} :
    r ∈ noted.ordered ↔ r ∈ noted.otherPaths := by
  rw [Noted.ordered, List.mem_mergeSort, List.mem_dedup]

/-! What is placed. -/

/-- What the placing of one path leaves. -/
structure Placed (first dest part : FilePath) (d d' : Disk FilePath) : Prop where
  same : ∀ q, q ≠ part → q ≠ dest → d'.read q = d.read q
  held : d'.read dest = if (d.read dest).isSome then d.read dest else d.read first
  there : (d'.read dest).isSome
  own : ∀ q, d.Own q → q ≠ part → q ≠ dest → q ≠ first → d'.Own q
  part : d'.Own part

section one
variable {d d' : Disk FilePath} {first dest : FilePath} {linked : Bool}

theorem placed_of_placeOtherPath (h : placeOtherPath linked d first dest = some d')
    (hown : d.Own (dest.withExtension "part")) (hdest : dest ≠ dest.withExtension "part")
    (hfirst : first ≠ dest.withExtension "part") :
    Placed first dest (dest.withExtension "part") d d' := by
  rw [placeOtherPath] at h
  by_cases hthere : (d.read dest).isSome = true
  · rw [if_pos hthere] at h
    cases h
    exact ⟨fun _ _ _ => rfl, (if_pos hthere).symm, hthere, fun _ hq _ _ _ => hq, hown⟩
  rw [if_neg hthere] at h
  cases hbytes : d.read first with
  | none => simp [hbytes] at h
  | some bytes =>
    simp only [hbytes] at h
    cases linked with
    | true =>
      cases h
      have hread : (d.link first dest).read dest = d.read first := Disk.read_link_dst
      refine ⟨fun _ _ hq => Disk.read_link hq, ?_, ?_, ?_, ?_⟩
      · rw [if_neg hthere, hread]
      · rw [hread, hbytes]
        rfl
      · intro q hq _ hqdest hqfirst
        exact Disk.own_link hq hqfirst hqdest
      · exact Disk.own_link hown hfirst.symm hdest.symm
    | false =>
      cases h
      have honly : Disk.OnlyAt (dest.withExtension "part") d
          (fetched d (dest.withExtension "part") bytes) := onlyAt_fetched hown
      have hread : ((fetched d (dest.withExtension "part") bytes).rename
          (dest.withExtension "part") dest).read dest = some bytes :=
        (Disk.read_rename_dst hdest).trans (read_fetched _ _)
      refine ⟨?_, ?_, ?_, ?_, Disk.own_rename_src⟩
      · intro q hqpart hqdest
        exact (Disk.read_rename hqpart hqdest).trans (honly.read hqpart)
      · rw [if_neg hthere, hread, hbytes]
      · rw [hread]
        rfl
      · intro q hq hqpart hqdest _
        exact Disk.own_rename (honly.own_of_ne hq hqpart) hqpart hqdest

end one

/-- The `.part` files of the other paths are no attachment's, and no two fingerprints share another
path. -/
structure Noted.Free (noted : Noted) (d : Disk FilePath) : Prop where
  own : ∀ r ∈ noted.otherPaths, d.Own (partPath r)
  firsts : ∀ r ∈ noted.otherPaths, ∀ sha first, noted.assets sha = some first →
    relPath first ≠ partPath r
  dests : ∀ r ∈ noted.otherPaths, ∀ r' ∈ noted.otherPaths, relPath r'.2 ≠ partPath r
  one : ∀ r ∈ noted.otherPaths, ∀ r' ∈ noted.otherPaths, relPath r.2 = relPath r'.2 → r.1 = r'.1

/-- The first path of every fingerprint is right. -/
def FirstsRight (hash : Sha256) (noted : Noted) (d : Disk FilePath) : Prop :=
  ∀ sha first, noted.assets sha = some first → Right hash d ⟨sha, relPath first⟩

/-- What holds after the paths `done` are placed. -/
structure Placing (hash : Sha256) (noted : Noted) (before : Disk FilePath)
    (done : List (String × String)) (d : Disk FilePath) : Prop where
  own : ∀ r ∈ noted.otherPaths, d.Own (partPath r)
  kept : ∀ q, (before.read q).isSome → (∀ r ∈ noted.otherPaths, q ≠ partPath r) →
    d.read q = before.read q
  right : ∀ r ∈ noted.otherPaths, before.read (relPath r.2) = none →
    (d.read (relPath r.2)).isSome → Right hash d ⟨r.1, relPath r.2⟩
  there : ∀ r ∈ noted.otherPaths, r ∈ done → (noted.assets r.1).isSome →
    (d.read (relPath r.2)).isSome

section placing
variable {hash : Sha256} {noted : Noted} {before d d' : Disk FilePath}
variable {done : List (String × String)} {r : String × String} {sha first : String}

theorem Placing.start (hfree : noted.Free before) : Placing hash noted before [] before where
  own := hfree.own
  kept _ _ _ := rfl
  right r _ hnone hsome := by
    rw [hnone] at hsome
    cases hsome
  there _ _ h := nomatch h

/-- The first path still holds what it held. -/
theorem Placing.read_first (h : Placing hash noted before done d) (hfree : noted.Free before)
    (hfirsts : FirstsRight hash noted before) (hfirst : noted.assets sha = some first) :
    d.read (relPath first) = before.read (relPath first) := by
  obtain ⟨bytes, hbytes, -⟩ := hfirsts sha first hfirst
  apply h.kept
  · rw [hbytes]
    rfl
  · intro r' hr'
    exact hfree.firsts r' hr' sha first hfirst

theorem Placing.place (h : Placing hash noted before done d) (hfree : noted.Free before)
    (hfirsts : FirstsRight hash noted before) (hr : r ∈ noted.otherPaths)
    (hfirst : noted.assets r.1 = some first)
    (hplaced : Placed (relPath first) (relPath r.2) (partPath r) d d') :
    Placing hash noted before (done ++ [r]) d' := by
  have hread (r') (hr' : r' ∈ noted.otherPaths) (hne : relPath r'.2 ≠ relPath r.2) :
      d'.read (relPath r'.2) = d.read (relPath r'.2) :=
    hplaced.same _ (hfree.dests r hr r' hr') hne
  refine ⟨?_, ?_, ?_, ?_⟩
  · intro r' hr'
    by_cases hpart : partPath r' = partPath r
    · rw [hpart]
      exact hplaced.part
    · exact hplaced.own _ (h.own r' hr') hpart (hfree.dests r' hr' r hr).symm
        (hfree.firsts r' hr' r.1 first hfirst).symm
  · intro q hq hparts
    have hkept := h.kept q hq hparts
    by_cases hdest : q = relPath r.2
    · subst hdest
      rw [hplaced.held, hkept, if_pos hq]
    · exact (hplaced.same q (hparts r hr) hdest).trans hkept
  · intro r' hr' hnone hsome
    by_cases hdest : relPath r'.2 = relPath r.2
    · by_cases hthere : (d.read (relPath r.2)).isSome = true
      · have hsame : d'.read (relPath r'.2) = d.read (relPath r'.2) := by
          rw [hdest, hplaced.held, if_pos hthere]
        exact (h.right r' hr' hnone (hdest ▸ hthere)).congr hsame
      · obtain ⟨bytes, hbytes, haccepts⟩ := hfirsts r.1 first hfirst
        have hsha : r'.1 = r.1 := hfree.one r' hr' r hr hdest
        refine ⟨bytes, ?_, ?_⟩
        · show d'.read (relPath r'.2) = some bytes
          rw [hdest, hplaced.held, if_neg hthere, h.read_first hfree hfirsts hfirst]
          exact hbytes
        · rw [hsha]
          exact haccepts
    · have hsame := hread r' hr' hdest
      rw [hsame] at hsome
      exact (h.right r' hr' hnone hsome).congr hsame
  · intro r' hr' hdone hassets
    by_cases hdest : relPath r'.2 = relPath r.2
    · rw [hdest]
      exact hplaced.there
    · rw [hread r' hr' hdest]
      rcases List.mem_append.mp hdone with hdone | hdone
      · exact h.there r' hr' hdone hassets
      · obtain rfl := List.mem_singleton.mp hdone
        exact absurd rfl hdest

theorem Placing.step {links : String × String → Bool} (h : Placing hash noted before done d)
    (hfree : noted.Free before) (hfirsts : FirstsRight hash noted before)
    (hr : r ∈ noted.otherPaths) (hstep : placeNoted links noted d r = some d') :
    Placing hash noted before (done ++ [r]) d' := by
  rw [placeNoted] at hstep
  cases hfirst : noted.assets r.1 with
  | none =>
    simp only [hfirst, Option.some.injEq] at hstep
    subst hstep
    refine ⟨h.own, h.kept, h.right, ?_⟩
    intro r' hr' hdone hassets
    rcases List.mem_append.mp hdone with hdone | hdone
    · exact h.there r' hr' hdone hassets
    · obtain rfl := List.mem_singleton.mp hdone
      rw [hfirst] at hassets
      cases hassets
  | some first =>
    simp only [hfirst] at hstep
    exact h.place hfree hfirsts hr hfirst (placed_of_placeOtherPath hstep (h.own r hr)
      (hfree.dests r hr r hr) (hfree.firsts r hr r.1 first hfirst))

theorem placing_placeOtherPaths {links : String × String → Bool} (hfree : noted.Free before)
    (hfirsts : FirstsRight hash noted before) (h : placeOtherPaths links noted before = some d) :
    Placing hash noted before noted.ordered d := by
  have hstep : ∀ done d r d',
      ((∀ r' ∈ done, r' ∈ noted.otherPaths) → Placing hash noted before done d) →
      placeNoted links noted d r = some d' →
      (∀ r' ∈ done ++ [r], r' ∈ noted.otherPaths) → Placing hash noted before (done ++ [r]) d' := by
    intro done d r d' hdone hplace hmem
    have hr : r ∈ noted.otherPaths := hmem r (List.mem_append_right _ List.mem_cons_self)
    have hbefore : ∀ r' ∈ done, r' ∈ noted.otherPaths := by
      intro r' hr'
      exact hmem r' (List.mem_append_left _ hr')
    exact (hdone hbefore).step hfree hfirsts hr hplace
  have hrun := foldlM_keeps hstep (fun _ => Placing.start hfree) h
  exact hrun fun r hr => mem_ordered.mp hr

variable (hash) in
/-- **Every path that a message names.** Where each fingerprint's first path is right, every path
that an attachment is written at is right once the others are placed, or held a file before that is
left as it was; and so is every other file. -/
theorem other_paths_right (messages : List (List Attachment)) (links : String × String → Bool)
    (before after : Disk FilePath) (hfree : (notedOf messages).Free before)
    (hfirsts : FirstsRight hash (notedOf messages) before)
    (hplaced : placeOtherPaths links (notedOf messages) before = some after) :
    (∀ attachments ∈ messages, ∀ att ∈ attachments, ∀ sha rel, att.ref = some (sha, rel) →
      Right hash after ⟨sha, relPath rel⟩ ∨
        (before.read (relPath rel)).isSome ∧
          after.read (relPath rel) = before.read (relPath rel)) ∧
    ∀ q, (before.read q).isSome → (∀ r ∈ (notedOf messages).otherPaths, q ≠ partPath r) →
      after.read q = before.read q := by
  have hplacing : Placing hash (notedOf messages) before (notedOf messages).ordered after :=
    placing_placeOtherPaths hfree hfirsts hplaced
  refine ⟨?_, hplacing.kept⟩
  intro attachments hmessage att hatt sha rel href
  rcases covers_notedOf hmessage hatt href with hfirst | ⟨hassets, hmem⟩
  · have hread := hplacing.read_first hfree hfirsts hfirst
    exact .inl ((hfirsts sha rel hfirst).congr hread)
  · cases hbefore : before.read (relPath rel) with
    | none =>
      have hthere := hplacing.there (sha, rel) hmem (mem_ordered.mpr hmem) hassets
      exact .inl (hplacing.right (sha, rel) hmem hbefore hthere)
    | some bytes =>
      refine .inr ⟨rfl, ?_⟩
      rw [← hbefore]
      apply hplacing.kept
      · rw [hbefore]
        rfl
      · intro r hr
        exact hfree.dests r hr (sha, rel) hmem

end placing

/-! One photo, sent on two days. -/

def january : Attachment := ⟨some "2024-01-31/photo.jpg", some photoSha256⟩

def february : Attachment := ⟨some " 2024-02-01/photo.jpg ", some photoSha256⟩

def downloaded : Disk FilePath := fetched emptyDisk (relPath "2024-01-31/photo.jpg") photoBytes

theorem ref_january : january.ref = some (photoSha256, "2024-01-31/photo.jpg") := by decide +kernel

theorem ref_february : february.ref = some (photoSha256, "2024-02-01/photo.jpg") := by
  decide +kernel

theorem notedOf_days : notedOf [[january], [february]] =
    ⟨Function.update (fun _ => none) photoSha256 (some "2024-01-31/photo.jpg"),
      [(photoSha256, "2024-02-01/photo.jpg")]⟩ := by
  simp [notedOf, noteAssetRefs, Noted.ref, ref_january, ref_february]

theorem assets_days {sha first : String}
    (h : (notedOf [[january], [february]]).assets sha = some first) :
    sha = photoSha256 ∧ "2024-01-31/photo.jpg" = first := by
  rw [notedOf_days] at h
  have hfirst : (if sha = photoSha256 then some "2024-01-31/photo.jpg" else none) = some first := by
    simpa [Function.update_apply] using h
  by_cases hsha : sha = photoSha256
  · rw [if_pos hsha] at hfirst
    exact ⟨hsha, Option.some.inj hfirst⟩
  · rw [if_neg hsha] at hfirst
    cases hfirst

theorem free_days : (notedOf [[january], [february]]).Free downloaded := by
  have hpaths : (notedOf [[january], [february]]).otherPaths =
      [(photoSha256, "2024-02-01/photo.jpg")] := by rw [notedOf_days]
  have hnone : downloaded.names (partPath (photoSha256, "2024-02-01/photo.jpg")) = none := by
    decide +kernel
  refine ⟨?_, ?_, ?_, ?_⟩
  · rw [hpaths]
    intro r hr file hfile
    obtain rfl := List.mem_singleton.mp hr
    rw [hnone] at hfile
    cases hfile
  · rw [hpaths]
    intro r hr sha first hfirst
    obtain rfl := List.mem_singleton.mp hr
    obtain ⟨-, rfl⟩ := assets_days hfirst
    decide +kernel
  · rw [hpaths]
    intro r hr r' hr'
    obtain rfl := List.mem_singleton.mp hr
    obtain rfl := List.mem_singleton.mp hr'
    decide +kernel
  · rw [hpaths]
    intro r hr r' hr' _
    obtain rfl := List.mem_singleton.mp hr
    obtain rfl := List.mem_singleton.mp hr'
    rfl

/-- On a disk without hard links. -/
theorem other_paths_right_days :
    ∃ after, placeOtherPaths (fun _ => false) (notedOf [[january], [february]]) downloaded =
        some after ∧
      Right sampleSha256 after ⟨photoSha256, relPath "2024-02-01/photo.jpg"⟩ := by
  have hordered : (notedOf [[january], [february]]).ordered =
      [(photoSha256, "2024-02-01/photo.jpg")] := by
    simp [notedOf_days, Noted.ordered]
  have hsome : (placeOtherPaths (fun _ => false) (notedOf [[january], [february]])
      downloaded).isSome = true := by
    rw [placeOtherPaths, hordered, notedOf_days]
    decide +kernel
  obtain ⟨after, hafter⟩ := Option.isSome_iff_exists.mp hsome
  have hfirsts : FirstsRight sampleSha256 (notedOf [[january], [february]]) downloaded := by
    intro sha first hfirst
    obtain ⟨rfl, rfl⟩ := assets_days hfirst
    exact ⟨photoBytes, read_fetched _ _, by decide +kernel⟩
  have hright := (other_paths_right sampleSha256 [[january], [february]] (fun _ => false) downloaded
    after free_days hfirsts hafter).1 [february] (by simp) february (by simp) _ _ ref_february
  have hfree : ¬ (downloaded.read (relPath "2024-02-01/photo.jpg")).isSome = true := by
    decide +kernel
  exact ⟨after, hafter, hright.resolve_right fun h => hfree h.1⟩

end MessageCrate.Downloads

import MessageCrate.Ir.DocumentStems

/- A conversation file read again (`recover_stem_suffix` of ir-format/src/util.rs, over the names
   that ir-format/src/write.rs gives the files).

   A document's suffix is not written inside its file: the reader takes it from the file's name, as
   what follows the name the document has without one.

     1. `filenameStem_readBack_iff`: a file that is read and written again keeps its name exactly
        when its suffix begins with `__` and goes on, or there is none.
     2. `giveEach_readBack`: so a folder that is read whole, in any order, and given names again
        keeps every one.

   The readers restore the conversation's own fields; that is JSON's and JSON Lines' round trip. -/
namespace MessageCrate.Stems
open Text Grouping Utf8

/-- `Path::file_stem`: the path's last part, less what follows its last dot, unless it begins with
that dot. -/
def fileStem (path : String) : String :=
  let name := path.toList.rtakeWhile (· != '/')
  let front := (name.rdropWhile (· != '.')).dropLast
  String.ofList (if front = [] then name else front)

/-- The formats with one document a file. -/
inductive DocumentFormat where
  | json
  | jsonl
  deriving DecidableEq, Repr

def DocumentFormat.extension : DocumentFormat → String
  | json => "json"
  | jsonl => "jsonl"

section read
variable (sha256 : Sha256)

/-- Where `write_conversation_json` and `write_conversation_jsonl` write, in the output folder. -/
def writtenPath (format : DocumentFormat) (doc : ConversationDocument) : String :=
  doc.filenameStem sha256 ++ "." ++ format.extension

def recoverStemSuffix (doc : ConversationDocument) (fileStem : Option String) :
    ConversationDocument :=
  if doc.packagingStemSuffix.isSome then doc
  else
    match fileStem with
    | none => doc
    | some fileStem =>
      let base := doc.filenameStem sha256
      if base = "" then doc
      else
        match stripPrefix base fileStem with
        | some rest =>
          if 2 < size rest.toList ∧ "__".toList <+: rest.toList then
            { doc with packagingStemSuffix := some rest }
          else doc
        | none => doc

/-- The document as a reader of its file has it. -/
def readBack (format : DocumentFormat) (doc : ConversationDocument) : ConversationDocument :=
  recoverStemSuffix sha256 { doc with packagingStemSuffix := none }
    (some (fileStem (writtenPath sha256 format doc)))

end read

/-- A suffix that a file's name can be told from. -/
def Marked (suffix : String) : Prop := 2 < size suffix.toList ∧ "__".toList <+: suffix.toList

instance (suffix : String) : Decidable (Marked suffix) :=
  inferInstanceAs (Decidable (2 < size suffix.toList ∧ "__".toList <+: suffix.toList))

/-- The document's suffix is read from its file's name. -/
def Kept (sha256 : Sha256) (doc : ConversationDocument) : Prop :=
  doc.packagingStemSuffix.getD "" = "" ∨
    doc.baseStem sha256 ≠ "" ∧ Marked (doc.packagingStemSuffix.getD "")

/-! A name without a slash. -/

theorem fileStem_append {stem : String} (ext : String) (hext : '.' ∉ ext.toList ∧ '/' ∉ ext.toList)
    (hstem : '/' ∉ stem.toList) (hne : stem ≠ "") : fileStem (stem ++ "." ++ ext) = stem := by
  have hpath : (stem ++ "." ++ ext).toList = stem.toList ++ '.' :: ext.toList := by
    simp
  have hname : (stem.toList ++ '.' :: ext.toList).rtakeWhile (· != '/') =
      stem.toList ++ '.' :: ext.toList := by
    rw [List.rtakeWhile_eq_self_iff]
    intro c hc
    rw [bne_iff_ne]
    rintro rfl
    simp [hstem, hext.2] at hc
  have hfront : (stem.toList ++ '.' :: ext.toList).rdropWhile (· != '.') = stem.toList ++ ['.'] := by
    have hall : ∀ c ∈ ext.toList, (c != '.') = true := by
      intro c hc
      rw [bne_iff_ne]
      rintro rfl
      exact hext.1 hc
    have hcut := rdropWhile_append_of_all (stem.toList ++ ['.']) hall
    rw [List.append_assoc, List.singleton_append] at hcut
    rw [hcut]
    exact List.rdropWhile_concat_neg _ _ _ (by simp)
  rw [fileStem, hpath, hname, hfront, List.dropLast_concat, if_neg (by simpa using hne), String.ofList_toList]

/-- Characters that are not kept become `_`. -/
theorem notMem_replaced {keep : Char → Bool} (hkeep : keep '/' = false) (cs : List Char) :
    '/' ∉ cs.map fun c => if keep c then c else '_' := by
  rw [List.mem_map]
  rintro ⟨c, -, hc⟩
  split at hc
  · next h =>
    subst hc
    rw [hkeep] at h
    cases h
  · exact absurd hc (by decide)

theorem notMem_sanitizeStem (value : String) : '/' ∉ (sanitizeStem value).toList := by
  rw [sanitizeStem, String.toList_ofList]
  exact notMem_replaced (by decide) _

theorem notMem_first {sha256 : Sha256} (n : Nat) (text : String) :
    '/' ∉ (sha256.first n text).toList := by
  intro h
  exact absurd (digit_first _ h) (by decide)

/-- A phone has digits and a `+`. -/
theorem notMem_phone {value : String} (h : isPhoneHandle (trim value) = true) :
    '/' ∉ (trim value).toList := by
  intro hslash
  rw [isPhoneHandle, trim_trim] at h
  by_cases hempty : trim value = ""
  · rw [hempty] at hslash
    exact absurd hslash (by decide)
  rw [if_neg hempty] at h
  by_cases hplus : "+".toList.isPrefixOf (trim value).toList = true
  · rw [stripPrefix, if_pos hplus] at h
    obtain ⟨rest, hrest⟩ := List.isPrefixOf_iff_prefix.mp hplus
    rw [← hrest] at h hslash
    rcases List.mem_append.mp hslash with hslash | hslash
    · exact absurd hslash (by decide)
    · simp only [Bool.and_eq_true, String.toList_ofList] at h
      have hdigit := List.all_eq_true.mp h.2 '/' (show '/' ∈ (List.drop 1 ('+' :: rest)) from hslash)
      exact absurd hdigit (by decide)
  · rw [stripPrefix, if_neg hplus] at h
    exact absurd (List.all_eq_true.mp h '/' hslash) (by decide)

theorem notMem_intercalated {phones : List String} (h : ∀ p ∈ phones, '/' ∉ p.toList)
    {stem : String} (hstem : '/' ∉ stem.toList) :
    '/' ∉ (phones.foldl (fun stem phone => stem ++ "_" ++ phone) stem).toList := by
  induction phones generalizing stem with
  | nil => exact hstem
  | cons phone phones ih =>
    obtain ⟨hphone, hphones⟩ := List.forall_mem_cons.mp h
    rw [List.foldl_cons]
    apply ih hphones
    simp [hstem, hphone]

theorem notMem_append {a b : String} (ha : '/' ∉ a.toList) (hb : '/' ∉ b.toList) :
    '/' ∉ (a ++ b).toList := by
  rw [String.toList_append, List.mem_append, not_or]
  exact ⟨ha, hb⟩

/-- A document's name without its suffix is one part of a path. -/
theorem notMem_baseStem {sha256 : Sha256} (doc : ConversationDocument) :
    '/' ∉ (doc.baseStem sha256).toList := by
  show '/' ∉ (conversationStem sha256 _ _ _ _ none).toList
  unfold conversationStem
  simp only [withSuffix_eq, Option.getD_none, String.append_empty]
  split
  · exact notMem_sanitizeStem _
  cases htitle : titleStem doc.groupTitle with
  | some stem =>
    simp only
    rw [titleStem, Option.filter_eq_some_iff, Option.map_eq_some_iff] at htitle
    obtain ⟨⟨title, -, rfl⟩, -⟩ := htitle
    exact notMem_sanitizeStem title
  | none =>
    simp only
    split
    · split
      · decide
      · exact notMem_append (by decide) (notMem_first 16 _)
    · have hphones : ∀ p ∈ uniqueSortedPhoneHandles (doc.handles.filterMap id), '/' ∉ p.toList := by
        intro p hp
        rw [uniqueSortedPhoneHandles, mem_sortedSet, List.mem_filter, List.mem_map] at hp
        obtain ⟨⟨value, -, rfl⟩, hphone⟩ := hp
        exact notMem_phone hphone
      have htaken : ∀ p ∈ (uniqueSortedPhoneHandles (doc.handles.filterMap id)).take
          groupFilenameMaxPhones, '/' ∉ p.toList := by
        intro p hp
        exact hphones p (List.mem_of_mem_take hp)
      have hgroup : '/' ∉ "group".toList := by decide
      have hjoined := notMem_intercalated htaken hgroup
      rw [phonesStem]
      split
      · exact notMem_append (notMem_append hjoined (by decide)) (notMem_first 16 _)
      · exact hjoined

/-! A file read and written again. -/

section back
variable {sha256 : Sha256} {format : DocumentFormat} {doc : ConversationDocument}

theorem notMem_extension (format : DocumentFormat) :
    '.' ∉ format.extension.toList ∧ '/' ∉ format.extension.toList := by
  cases format with
  | json => decide
  | jsonl => decide

theorem stripPrefix_append (base rest : String) : stripPrefix base (base ++ rest) = some rest := by
  have hprefix : base.toList.isPrefixOf (base ++ rest).toList = true := by
    rw [String.toList_append]
    exact List.isPrefixOf_iff_prefix.mpr (List.prefix_append _ _)
  rw [stripPrefix, if_pos hprefix, String.toList_append, ← String.length_toList, List.drop_left,
    String.ofList_toList]

theorem append_eq_left_iff {base s : String} : base ++ "" = base ++ s ↔ s = "" := by
  constructor
  · intro h
    have hlists := congrArg String.toList h
    rw [String.toList_append, String.toList_append] at hlists
    exact String.toList_inj.mp (List.append_cancel_left hlists).symm
  · intro h
    rw [h]

theorem recoverStemSuffix_of_empty (name : Option String) (hbase : doc.filenameStem sha256 = "") :
    recoverStemSuffix sha256 doc name = doc := by
  unfold recoverStemSuffix
  split
  · rfl
  · cases name with
    | none => rfl
    | some name => exact if_pos hbase

theorem recoverStemSuffix_of {name rest : String} (hnone : doc.packagingStemSuffix = none)
    (hbase : doc.filenameStem sha256 ≠ "")
    (hstrip : stripPrefix (doc.filenameStem sha256) name = some rest) :
    recoverStemSuffix sha256 doc (some name) =
      if Marked rest then { doc with packagingStemSuffix := some rest } else doc := by
  rw [recoverStemSuffix, hnone]
  simp only [Option.isSome_none, Bool.false_eq_true, if_false]
  rw [if_neg hbase, hstrip]
  rfl

/-- What a reader takes for a document's suffix. -/
theorem readBack_eq (hslash : '/' ∉ (doc.packagingStemSuffix.getD "").toList)
    (hbase : doc.baseStem sha256 ≠ "") :
    readBack sha256 format doc =
      if Marked (doc.packagingStemSuffix.getD "") then
        { doc with packagingStemSuffix := some (doc.packagingStemSuffix.getD "") }
      else { doc with packagingStemSuffix := none } := by
  have hname := filenameStem_eq sha256 doc
  have hne : doc.filenameStem sha256 ≠ "" := by
    rw [hname]
    intro hempty
    exact hbase (String.append_eq_empty_iff.mp hempty).1
  have hslash' : '/' ∉ (doc.filenameStem sha256).toList := by
    rw [hname]
    exact notMem_append (notMem_baseStem doc) hslash
  have hstem : fileStem (writtenPath sha256 format doc) =
      doc.baseStem sha256 ++ doc.packagingStemSuffix.getD "" := by
    rw [writtenPath, fileStem_append _ (notMem_extension format) hslash' hne, hname]
  rw [readBack, hstem]
  exact recoverStemSuffix_of rfl hbase (stripPrefix_append _ _)

theorem baseStem_readBack : (readBack sha256 format doc).baseStem sha256 = doc.baseStem sha256 := by
  rw [readBack, recoverStemSuffix]
  simp only [Option.isSome_none, Bool.false_eq_true, if_false]
  split
  · rfl
  · split
    · split
      · rfl
      · rfl
    · rfl

/-- **A file that is read and written again keeps its name** exactly when its suffix can be told
from the rest of it, or there is none. -/
theorem filenameStem_readBack_iff (hslash : '/' ∉ (doc.packagingStemSuffix.getD "").toList) :
    (readBack sha256 format doc).filenameStem sha256 = doc.filenameStem sha256 ↔
      Kept sha256 doc := by
  have hname := filenameStem_eq sha256 doc
  have hback := filenameStem_eq sha256 (readBack sha256 format doc)
  rw [hback, hname, baseStem_readBack, Kept]
  by_cases hbase : doc.baseStem sha256 = ""
  · have hnone : (readBack sha256 format doc).packagingStemSuffix = none := by
      rw [readBack, recoverStemSuffix_of_empty _ hbase]
    rw [hnone, Option.getD_none, append_eq_left_iff]
    exact (or_iff_left (fun h => h.1 hbase)).symm
  · rw [readBack_eq hslash hbase]
    by_cases hmarked : Marked (doc.packagingStemSuffix.getD "")
    · rw [if_pos hmarked]
      exact iff_of_true rfl (.inr ⟨hbase, hmarked⟩)
    · rw [if_neg hmarked, Option.getD_none, append_eq_left_iff]
      exact (or_iff_left (fun h => hmarked h.2)).symm

end back

section again
variable {table : Casing.Table} {wordFinal : List Char → List Char → Bool} {sha256 : Sha256}
variable {format : DocumentFormat} {doc : ConversationDocument} {docs : List ConversationDocument}

/-- A suffix that is kept is still kept after the start of a hash is put after it. -/
theorem marked_giveSuffix
    (h : doc.packagingStemSuffix.getD "" = "" ∨ Marked (doc.packagingStemSuffix.getD "")) :
    Marked ((giveSuffix sha256 doc).packagingStemSuffix.getD "") := by
  show Marked (doc.packagingStemSuffix.getD "" ++ "__" ++ sha256.first 8 doc.chatIdentifier)
  rw [Marked, String.toList_append, String.toList_append]
  refine ⟨?_, ?_⟩
  · have hlong := length_le_size ((doc.packagingStemSuffix.getD "").toList ++ "__".toList ++
      (sha256.first 8 doc.chatIdentifier).toList)
    rw [List.length_append, List.length_append, length_first (by omega)] at hlong
    omega
  · rw [List.append_assoc]
    rcases h with hempty | hmarked
    · rw [hempty]
      exact List.prefix_append _ _
    · exact hmarked.2.trans (List.prefix_append _ _)

/-- A document whose suffix its file's name will keep. -/
structure Keeps (sha256 : Sha256) (doc : ConversationDocument) : Prop where
  base : doc.baseStem sha256 ≠ ""
  slash : '/' ∉ (doc.packagingStemSuffix.getD "").toList
  suffix : doc.packagingStemSuffix.getD "" = "" ∨ Marked (doc.packagingStemSuffix.getD "")

theorem Keeps.ownFile (h : Keeps sha256 doc) :
    Keeps sha256 (ownFile table wordFinal sha256 docs doc) := by
  rw [Stems.ownFile]
  split
  · refine ⟨h.base, ?_, .inr (marked_giveSuffix h.suffix)⟩
    exact notMem_append (notMem_append h.slash (by decide)) (notMem_first 8 _)
  · exact h

theorem Keeps.filenameStem (h : Keeps sha256 doc) :
    (readBack sha256 format doc).filenameStem sha256 = doc.filenameStem sha256 := by
  rw [filenameStem_readBack_iff h.slash]
  rcases h.suffix with hempty | hmarked
  · exact .inl hempty
  · exact .inr ⟨h.base, hmarked⟩

/-- Among different names none is shared. -/
theorem not_one_lt_countP {α : Type} {f : α → String} {l : List α} (h : (l.map f).Nodup) (x : α) :
    ¬ 1 < l.countP fun y => f y = f x := by
  have hle := List.nodup_iff_count_le_one.mp h (f x)
  rw [List.count, List.countP_map] at hle
  have hcount : l.countP ((fun y => y == f x) ∘ f) = l.countP fun y => f y = f x := by
    apply List.countP_congr
    intro y _
    simp
  omega

theorem not_shared_of_nodup (h : (docs.map (lowered table wordFinal sha256)).Nodup) :
    ¬ Shared table wordFinal sha256 docs doc :=
  not_one_lt_countP h doc

theorem map_lowered (docs : List ConversationDocument) :
    docs.map (lowered table wordFinal sha256) =
      (docs.map (ConversationDocument.filenameStem sha256)).map
        (Casing.toLowercase table wordFinal) := by
  rw [List.map_map]
  apply List.map_congr_left
  intro doc _
  rfl

/-- Documents with different names are left as they are. -/
theorem giveEach_of_nodup (walk : Walk) (h : (docs.map (lowered table wordFinal sha256)).Nodup) :
    giveEachDocumentItsOwnFile table wordFinal sha256 walk docs = (docs, .ok ()) := by
  have hown : ownFile table wordFinal sha256 docs = id := by
    funext doc
    rw [ownFile, if_neg (not_shared_of_nodup h), id]
  have hdocs : (giveEachDocumentItsOwnFile table wordFinal sha256 walk docs).1 = docs := by
    rw [giveEach_docs, hown, List.map_id]
  apply Prod.ext hdocs
  rw [giveEach_ok_iff, hdocs]
  exact h

theorem names_readBack {after back : List ConversationDocument}
    (hstems : ∀ doc ∈ after,
      (readBack sha256 format doc).filenameStem sha256 = doc.filenameStem sha256)
    (hback : back.Perm (after.map (readBack sha256 format))) :
    (back.map (ConversationDocument.filenameStem sha256)).Perm
      (after.map (ConversationDocument.filenameStem sha256)) := by
  refine (hback.map _).trans (List.Perm.of_eq ?_)
  rw [List.map_map]
  apply List.map_congr_left
  intro doc hdoc
  rw [Function.comp_apply, hstems doc hdoc]

variable (table wordFinal sha256 format) in
/-- **Names last.** Files written under the names that the call gave are read back, in any order and
through any map, to documents that the call leaves as they are, under the names they had. -/
theorem giveEach_readBack (walk walk' : Walk) (docs back : List ConversationDocument)
    (hok : (giveEachDocumentItsOwnFile table wordFinal sha256 walk docs).2 = .ok ())
    (hkeeps : ∀ doc ∈ docs, Keeps sha256 doc)
    (hback : back.Perm ((giveEachDocumentItsOwnFile table wordFinal sha256 walk docs).1.map
      (readBack sha256 format))) :
    giveEachDocumentItsOwnFile table wordFinal sha256 walk' back = (back, .ok ()) ∧
    (back.map (ConversationDocument.filenameStem sha256)).Perm
      ((giveEachDocumentItsOwnFile table wordFinal sha256 walk docs).1.map
        (ConversationDocument.filenameStem sha256)) := by
  have hstems : ∀ doc ∈ (giveEachDocumentItsOwnFile table wordFinal sha256 walk docs).1,
      (readBack sha256 format doc).filenameStem sha256 = doc.filenameStem sha256 := by
    intro doc hdoc
    rw [giveEach_docs, List.mem_map] at hdoc
    obtain ⟨first, hfirst, rfl⟩ := hdoc
    exact (hkeeps first hfirst).ownFile.filenameStem
  have hnames : (back.map (ConversationDocument.filenameStem sha256)).Perm
      ((giveEachDocumentItsOwnFile table wordFinal sha256 walk docs).1.map
        (ConversationDocument.filenameStem sha256)) := names_readBack hstems hback
  refine ⟨giveEach_of_nodup walk' ?_, hnames⟩
  have hlowered : (back.map (lowered table wordFinal sha256)).Perm
      ((giveEachDocumentItsOwnFile table wordFinal sha256 walk docs).1.map
        (lowered table wordFinal sha256)) := by
    rw [map_lowered, map_lowered]
    exact hnames.map _
  rw [hlowered.nodup_iff]
  exact giveEach_ok_iff.mp hok

end again

/-! The suffixes there are. -/

/-- `sanitize_source_suffix` of pull/src/run.rs. -/
def sanitizeSourceSuffix (source : String) : String :=
  String.ofList (source.toList.map fun c =>
    if c.isAlphanum || c == '-' || c == '_' then c else '_')

/-- The suffixes that a pull and the exporters choose, of WhatsApp chats and of a source that has
anything but white space in its name. -/
inductive Chosen : Option String → Prop
  | none : Chosen none
  | whatsapp : Chosen (some "__whatsapp")
  | source (source : String) : trim source ≠ "" → Chosen (some ("__" ++ sanitizeSourceSuffix source))

/-- **Every suffix that is chosen is kept**, where the document has a name. -/
theorem Chosen.keeps {sha256 : Sha256} {doc : ConversationDocument}
    (h : Chosen doc.packagingStemSuffix) (hbase : doc.baseStem sha256 ≠ "") : Keeps sha256 doc := by
  refine ⟨hbase, ?_, ?_⟩
  · generalize doc.packagingStemSuffix = suffix at h
    cases h with
    | none => decide
    | whatsapp => decide
    | source source hsource =>
      refine notMem_append (by decide) ?_
      rw [sanitizeSourceSuffix, String.toList_ofList]
      exact notMem_replaced (by decide) _
  · generalize doc.packagingStemSuffix = suffix at h
    cases h with
    | none => exact .inl rfl
    | whatsapp => exact .inr (by decide)
    | source source hsource =>
      refine .inr ⟨?_, ?_⟩
      · have hne : source.toList ≠ [] := by
          intro hempty
          apply hsource
          rw [trim, hempty]
          rfl
        have hpos := List.length_pos_iff.mpr hne
        have hlength : (sanitizeSourceSuffix source).toList.length = source.toList.length := by
          rw [sanitizeSourceSuffix, String.toList_ofList, List.length_map]
        have hlong := length_le_size (sanitizeSourceSuffix source).toList
        have htwo : size "__".toList = 2 := by decide
        show 2 < size ("__" ++ sanitizeSourceSuffix source).toList
        rw [String.toList_append, size_append]
        omega
      · show "__".toList <+: ("__" ++ sanitizeSourceSuffix source).toList
        rw [String.toList_append]
        exact List.prefix_append _ _

/-- The documents of the two groups' files and of a chat's, as they are read. -/
def readAgain : List ConversationDocument :=
  [ann, ⟨.group, "chat4407", some " family ", [], some "__f2eaa442"⟩,
    ⟨.group, "chat8812", some "Family", [], some "__d844666b"⟩]

theorem giveEach_readBack_family :
    giveEachDocumentItsOwnFile asciiCasing (fun _ _ => true) sampleSha256 backwards readAgain =
        (readAgain, .ok ()) ∧
    (readAgain.map (ConversationDocument.filenameStem sampleSha256)).Perm
      ((giveEachDocumentItsOwnFile asciiCasing (fun _ _ => true) sampleSha256 .inserted
        [family, ann, familyAgain]).1.map (ConversationDocument.filenameStem sampleSha256)) := by
  have hkeeps : ∀ doc ∈ [family, ann, familyAgain], Keeps sampleSha256 doc := by
    intro doc hdoc
    have hbase : doc.baseStem sampleSha256 ≠ "" := by
      revert doc
      decide +kernel
    have hchosen : doc.packagingStemSuffix = none ∨ doc.packagingStemSuffix = some "__whatsapp" := by
      revert doc
      decide +kernel
    rcases hchosen with h | h
    · exact Chosen.keeps (h ▸ .none) hbase
    · exact Chosen.keeps (h ▸ .whatsapp) hbase
  exact giveEach_readBack asciiCasing (fun _ _ => true) sampleSha256 .jsonl .inserted backwards
    [family, ann, familyAgain] readAgain
    (giveEach_ok_iff.mpr (by rw [giveEach_docs]; decide +kernel)) hkeeps
    (by rw [giveEach_docs]; decide +kernel)

end MessageCrate.Stems

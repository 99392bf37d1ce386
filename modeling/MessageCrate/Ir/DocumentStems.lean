import MessageCrate.Ir.Handle
import MessageCrate.Lib.Grouping
import MessageCrate.Lib.Utf8

/- The name of a conversation's file (`filename_stem`, `conversation_stem` and
   `give_each_document_its_own_file` of ir/src/lib.rs).

   A document is named after its chat, its title or its people, and two documents can reduce to one
   name, or to two that a disk which ignores case takes for one. Each document of such a clash gets
   the first digits of its chat identifier's hash after its name.

     1. `giveEach_docs`: what a document's name becomes depends on the document and on whether
        another has its name, not on the order of the list or of the map the names are counted in.
     2. `own_files`: the call succeeds exactly when the names are then all different, and only the
        documents that shared a name have a new one.
     3. `own_files_refused_iff`: it is refused exactly for two documents whose chat identifiers'
        hashes begin alike, or a document that was already named as another one now is.

   `Sha256` is the hash in hexadecimal, and lower case is `Casing.toLowercase`. -/
namespace MessageCrate.Stems
open Text Grouping Utf8

/-! The name of a document. -/

inductive IrConversationType where
  | individual
  | group
  deriving DecidableEq, Repr

def IrConversationType.asStr : IrConversationType → String
  | individual => "individual"
  | group => "group"

/-- What a document's name is made of: its `conversation` and the suffix its exporter chose. -/
structure ConversationDocument where
  conversationType : IrConversationType
  chatIdentifier : String
  groupTitle : Option String
  handles : List (Option String)
  packagingStemSuffix : Option String
  deriving DecidableEq, Repr

def isHexDigit (c : Char) : Prop := 48 ≤ c.toNat ∧ c.toNat ≤ 57 ∨ 97 ≤ c.toNat ∧ c.toNat ≤ 102

instance (c : Char) : Decidable (isHexDigit c) := inferInstanceAs (Decidable (_ ∨ _))

/-- A SHA-256 in hexadecimal, with small letters. -/
structure Sha256 where
  hex : List UInt8 → String
  length : ∀ bytes, (hex bytes).toList.length = 64
  digit : ∀ bytes, ∀ c ∈ (hex bytes).toList, isHexDigit c

/-- `GROUP_FILENAME_MAX_PHONES`. -/
def groupFilenameMaxPhones : Nat := 10

def sanitizeStem (value : String) : String :=
  String.ofList (value.toList.map fun c =>
    if c.isAlphanum || c == '-' || c == '_' || c == '+' then c else '_')

/-- An optional `+`, then digits. -/
def isPhoneHandle (value : String) : Bool :=
  let value := trim value
  if value = "" then false
  else
    match stripPrefix "+" value with
    | some rest => rest ≠ "" && rest.toList.all Char.isDigit
    | none => value.toList.all Char.isDigit

def withSuffix (stem : String) (suffix : Option String) : String :=
  match suffix with
  | some s => if s ≠ "" then stem ++ s else stem
  | none => stem

def uniqueSortedPhoneHandles (participantE164s : List String) : List String :=
  sortedSet ((participantE164s.map trim).filter isPhoneHandle)

/-- A title's stem, when it says anything. -/
def titleStem (groupTitle : Option String) : Option String :=
  ((groupTitle.bind trimmed).map sanitizeStem).filter fun stem =>
    stem ≠ "" && !stem.toList.all (· == '_')

section stems
variable (sha256 : Sha256)

/-- The first `n` digits of the hash of `text`. -/
def Sha256.first (n : Nat) (text : String) : String :=
  String.ofList ((sha256.hex (encode text.toList)).toList.take n)

/-- The stem of a group with no title, from its phones. -/
def phonesStem (phones : List String) : String :=
  let stem := (phones.take groupFilenameMaxPhones).foldl (fun stem phone => stem ++ "_" ++ phone) "group"
  if groupFilenameMaxPhones < phones.length then
    stem ++ "_" ++ sha256.first 16 ("|".intercalate phones)
  else stem

def conversationStem (conversationType chatId : String) (groupTitle : Option String)
    (participantE164s : List String) (suffix : Option String) : String :=
  if toAsciiLower conversationType ≠ "group" then withSuffix (sanitizeStem chatId) suffix
  else
    match titleStem groupTitle with
    | some stem => withSuffix stem suffix
    | none =>
      let phones := uniqueSortedPhoneHandles participantE164s
      if phones = [] then
        let stem := if trim chatId = "" then "group_unknown" else "group_" ++ sha256.first 16 chatId
        withSuffix stem suffix
      else withSuffix (phonesStem sha256 phones) suffix

def ConversationDocument.filenameStem (doc : ConversationDocument) : String :=
  conversationStem sha256 doc.conversationType.asStr doc.chatIdentifier doc.groupTitle
    (doc.handles.filterMap id) doc.packagingStemSuffix

/-- The document's name as it is without a suffix. -/
def ConversationDocument.baseStem (doc : ConversationDocument) : String :=
  { doc with packagingStemSuffix := none }.filenameStem sha256

end stems

/-! A name for each document. -/

section give
variable (table : Casing.Table) (wordFinal : List Char → List Char → Bool) (sha256 : Sha256)
variable (walk : Walk)

/-- The document's name as a disk that ignores case has it. -/
def lowered (doc : ConversationDocument) : String :=
  Casing.toLowercase table wordFinal (doc.filenameStem sha256)

/-- `by_name`: where the documents of each name stand in the list. -/
def byName (docs : List ConversationDocument) : List (String × List Nat) :=
  (group (fun p => lowered table wordFinal sha256 p.1) docs.zipIdx).map fun entry =>
    (entry.1, entry.2.map Prod.snd)

/-- The document with the start of its chat identifier's hash after its suffix. -/
def giveSuffix (doc : ConversationDocument) : ConversationDocument :=
  let digest := sha256.first 8 doc.chatIdentifier
  let suffix := doc.packagingStemSuffix.getD ""
  { doc with packagingStemSuffix := some (suffix ++ "__" ++ digest) }

/-- The loop over the names that more than one document has. -/
def giveSuffixes (clashes : List (List Nat)) (docs : List ConversationDocument) :
    List ConversationDocument :=
  clashes.foldl (fun docs clash =>
    clash.foldl (fun docs i => docs.modify i (giveSuffix sha256)) docs) docs

/-- The loop that looks for a name given twice. -/
def checkNames (names : List String) : List ConversationDocument → Except String Unit
  | [] => .ok ()
  | doc :: docs =>
    let stem := doc.filenameStem sha256
    if lowered table wordFinal sha256 doc ∈ names then
      .error ("two conversations would both be written to " ++ stem)
    else checkNames (lowered table wordFinal sha256 doc :: names) docs

/-- The documents as they are left, and what the call returns. -/
def giveEachDocumentItsOwnFile (docs : List ConversationDocument) :
    List ConversationDocument × Except String Unit :=
  let clashes := ((walk.order (byName table wordFinal sha256 docs)).map Prod.snd).filter
    fun indexes => 1 < indexes.length
  let docs := giveSuffixes sha256 clashes docs
  (docs, checkNames table wordFinal sha256 [] docs)

/-- Another document has the name of `doc`. -/
def Shared (docs : List ConversationDocument) (doc : ConversationDocument) : Prop :=
  1 < docs.countP fun other =>
    lowered table wordFinal sha256 other = lowered table wordFinal sha256 doc

instance (docs : List ConversationDocument) (doc : ConversationDocument) :
    Decidable (Shared table wordFinal sha256 docs doc) := inferInstanceAs (Decidable (1 < _))

/-- The document as the call leaves it. -/
def ownFile (docs : List ConversationDocument) (doc : ConversationDocument) :
    ConversationDocument :=
  if Shared table wordFinal sha256 docs doc then giveSuffix sha256 doc else doc

end give

/-! What a suffix does to a name. -/

theorem withSuffix_eq (stem : String) (suffix : Option String) :
    withSuffix stem suffix = stem ++ suffix.getD "" := by
  cases suffix with
  | none => simp [withSuffix]
  | some s =>
    by_cases hs : s = ""
    · simp [withSuffix, hs]
    · simp [withSuffix, hs]

section names
variable {sha256 : Sha256} {doc : ConversationDocument}

theorem conversationStem_suffix (kind chatId : String) (title : Option String)
    (handles : List String) (suffix : Option String) :
    conversationStem sha256 kind chatId title handles suffix =
      conversationStem sha256 kind chatId title handles none ++ suffix.getD "" := by
  unfold conversationStem
  split
  · simp only [withSuffix_eq, Option.getD_none, String.append_empty]
  · cases titleStem title with
    | some stem => simp only [withSuffix_eq, Option.getD_none, String.append_empty]
    | none =>
      simp only [withSuffix_eq, Option.getD_none, String.append_empty]
      split
      · rfl
      · rfl

theorem filenameStem_eq (sha256 : Sha256) (doc : ConversationDocument) :
    doc.filenameStem sha256 = doc.baseStem sha256 ++ doc.packagingStemSuffix.getD "" :=
  conversationStem_suffix ..

theorem baseStem_giveSuffix (doc : ConversationDocument) :
    (giveSuffix sha256 doc).baseStem sha256 = doc.baseStem sha256 := rfl

theorem filenameStem_giveSuffix (doc : ConversationDocument) :
    (giveSuffix sha256 doc).filenameStem sha256 =
      doc.filenameStem sha256 ++ "__" ++ sha256.first 8 doc.chatIdentifier := by
  rw [filenameStem_eq, filenameStem_eq, baseStem_giveSuffix]
  show _ ++ (doc.packagingStemSuffix.getD "" ++ "__" ++ _) = _
  simp only [String.append_assoc]

theorem length_first {n : Nat} (hn : n ≤ 64) (text : String) :
    (sha256.first n text).toList.length = n := by
  rw [Sha256.first, String.toList_ofList, List.length_take, sha256.length]
  omega

theorem digit_first {n : Nat} {text : String} :
    ∀ c ∈ (sha256.first n text).toList, isHexDigit c := by
  intro c hc
  rw [Sha256.first, String.toList_ofList] at hc
  exact sha256.digit _ c (List.mem_of_mem_take hc)

end names

/-! The names that clash. -/

/-- Each index of a list without repeats is changed once. -/
theorem getElem?_foldl_modify {α : Type} {f : α → α} {is : List Nat} (hnodup : is.Nodup)
    (l : List α) (j : Nat) :
    (is.foldl (fun l i => l.modify i f) l)[j]? = if j ∈ is then l[j]?.map f else l[j]? := by
  induction is generalizing l with
  | nil => simp
  | cons i is ih =>
    rw [List.nodup_cons] at hnodup
    rw [List.foldl_cons, ih hnodup.2, List.getElem?_modify]
    by_cases hij : i = j
    · subst hij
      simp [hnodup.1]
    · have hji : ¬ j = i := fun h => hij h.symm
      simp [hij, hji, List.mem_cons]

section clashes
variable {table : Casing.Table} {wordFinal : List Char → List Char → Bool} {sha256 : Sha256}
variable {walk walk' : Walk} {docs docs' : List ConversationDocument}

/-- The clashes, in the order the map is walked in. -/
def clashesOf (table : Casing.Table) (wordFinal : List Char → List Char → Bool) (sha256 : Sha256)
    (walk : Walk) (docs : List ConversationDocument) : List (List Nat) :=
  ((walk.order (byName table wordFinal sha256 docs)).map Prod.snd).filter
    fun indexes => 1 < indexes.length

theorem nodup_clashes : (clashesOf table wordFinal sha256 walk docs).flatten.Nodup := by
  have hsub : (clashesOf table wordFinal sha256 walk docs).flatten.Sublist
      ((walk.order (byName table wordFinal sha256 docs)).map Prod.snd).flatten :=
    List.filter_sublist.flatten
  refine List.Nodup.sublist hsub ?_
  have hwalk : ((walk.order (byName table wordFinal sha256 docs)).map Prod.snd).flatten.Perm
      ((byName table wordFinal sha256 docs).map Prod.snd).flatten :=
    ((walk.perm _).map _).flatten
  rw [hwalk.nodup_iff]
  have hindexes : ((byName table wordFinal sha256 docs).map Prod.snd).flatten =
      ((group (fun p => lowered table wordFinal sha256 p.1) docs.zipIdx).flatMap
        Prod.snd).map Prod.snd := by
    rw [byName, List.map_map, List.map_flatMap, List.flatMap_def]
    rfl
  rw [hindexes, ((flatMap_group_perm _ _).map _).nodup_iff, List.zipIdx_map_snd]
  exact List.nodup_range'

/-- The documents named like `doc` are as many as its name has indexes. -/
theorem length_filter_zipIdx (doc : ConversationDocument) :
    (docs.zipIdx.filter fun p => lowered table wordFinal sha256 p.1 =
        lowered table wordFinal sha256 doc).length =
      docs.countP fun other =>
        lowered table wordFinal sha256 other = lowered table wordFinal sha256 doc := by
  generalize lowered table wordFinal sha256 = name
  have hcount := List.countP_map (f := Prod.fst) (l := docs.zipIdx)
    (p := fun other => decide (name other = name doc))
  rw [List.zipIdx_map_fst] at hcount
  rw [← List.countP_eq_length_filter, hcount]
  rfl

theorem mem_clashes {j : Nat} {doc : ConversationDocument} (hj : docs[j]? = some doc) :
    j ∈ (clashesOf table wordFinal sha256 walk docs).flatten ↔
      Shared table wordFinal sha256 docs doc := by
  have hmem : (doc, j) ∈ docs.zipIdx := List.mem_zipIdx_iff_getElem?.mpr hj
  rw [Shared, ← length_filter_zipIdx, List.mem_flatten]
  constructor
  · intro h
    obtain ⟨clash, hclash, hjclash⟩ := h
    rw [clashesOf, List.mem_filter, List.mem_map] at hclash
    obtain ⟨⟨⟨name, is⟩, hentry, rfl⟩, hlength⟩ := hclash
    rw [(walk.perm _).mem_iff, byName, List.mem_map] at hentry
    obtain ⟨⟨k, g⟩, hgroup, heq⟩ := hentry
    obtain ⟨rfl, rfl⟩ := Prod.mk.inj heq
    obtain ⟨⟨other, i⟩, hpair, hi⟩ := List.mem_map.mp hjclash
    obtain rfl : i = j := hi
    obtain ⟨hother, hk⟩ := mem_of_mem_group hgroup hpair
    obtain rfl : other = doc :=
      Option.some.inj ((List.mem_zipIdx_iff_getElem?.mp hother).symm.trans hj)
    rw [(mem_group.mp hgroup).1, List.length_map] at hlength
    rw [hk]
    simpa using hlength
  · intro h
    let g := docs.zipIdx.filter fun p => lowered table wordFinal sha256 p.1 =
        lowered table wordFinal sha256 doc
    have hin : (doc, j) ∈ g := List.mem_filter.mpr ⟨hmem, by simp⟩
    have hgroup : (lowered table wordFinal sha256 doc, g) ∈
        group (fun p => lowered table wordFinal sha256 p.1) docs.zipIdx :=
      mem_group.mpr ⟨rfl, List.ne_nil_of_mem hin⟩
    refine ⟨g.map Prod.snd, ?_, List.mem_map.mpr ⟨(doc, j), hin, rfl⟩⟩
    rw [clashesOf, List.mem_filter, List.mem_map]
    refine ⟨⟨(lowered table wordFinal sha256 doc, g.map Prod.snd), ?_, rfl⟩, by simpa using h⟩
    rw [(walk.perm _).mem_iff, byName, List.mem_map]
    exact ⟨_, hgroup, rfl⟩

/-- **What a document is given depends on the document and on whether its name is shared.** -/
theorem giveEach_docs :
    (giveEachDocumentItsOwnFile table wordFinal sha256 walk docs).1 =
      docs.map (ownFile table wordFinal sha256 docs) := by
  show giveSuffixes sha256 (clashesOf table wordFinal sha256 walk docs) docs = _
  apply List.ext_getElem?
  intro j
  rw [giveSuffixes, ← List.foldl_flatten, getElem?_foldl_modify nodup_clashes, List.getElem?_map]
  cases hj : docs[j]? with
  | none => simp
  | some doc =>
    rw [Option.map_some, Option.map_some, ownFile]
    by_cases hshared : Shared table wordFinal sha256 docs doc
    · rw [if_pos ((mem_clashes hj).mpr hshared), if_pos hshared]
    · rw [if_neg (fun h => hshared ((mem_clashes hj).mp h)), if_neg hshared]

/-- The order of the list says nothing about which names are shared. -/
theorem shared_perm (h : docs.Perm docs') (doc : ConversationDocument) :
    Shared table wordFinal sha256 docs doc ↔ Shared table wordFinal sha256 docs' doc := by
  rw [Shared, Shared, h.countP_eq]

theorem ownFile_perm (h : docs.Perm docs') :
    ownFile table wordFinal sha256 docs = ownFile table wordFinal sha256 docs' := by
  funext doc
  rw [ownFile, ownFile]
  simp only [shared_perm h doc]

/-! The names that are given twice. -/

theorem checkNames_ok_iff {names : List String} {docs : List ConversationDocument} :
    checkNames table wordFinal sha256 names docs = .ok () ↔
      (docs.map (lowered table wordFinal sha256)).Nodup ∧
        ∀ doc ∈ docs, lowered table wordFinal sha256 doc ∉ names := by
  induction docs generalizing names with
  | nil => simp [checkNames]
  | cons doc docs ih =>
    rw [checkNames, List.map_cons, List.nodup_cons]
    by_cases hmem : lowered table wordFinal sha256 doc ∈ names
    · simp [hmem]
    · simp only [hmem, if_false, ih, List.mem_cons, not_or, List.mem_map]
      grind

theorem giveEach_ok_iff : (giveEachDocumentItsOwnFile table wordFinal sha256 walk docs).2 = .ok () ↔
    ((giveEachDocumentItsOwnFile table wordFinal sha256 walk docs).1.map
      (lowered table wordFinal sha256)).Nodup := by
  show checkNames table wordFinal sha256 [] _ = .ok () ↔ _
  rw [checkNames_ok_iff]
  exact and_iff_left (fun _ _ => List.not_mem_nil)

/-- A name is refused at the first document that has one of those before it. -/
theorem checkNames_error_iff {names : List String} {docs : List ConversationDocument} {e : String} :
    checkNames table wordFinal sha256 names docs = .error e ↔
      ∃ before doc after, docs = before ++ doc :: after ∧
        (before.map (lowered table wordFinal sha256)).Nodup ∧
        (∀ other ∈ before, lowered table wordFinal sha256 other ∉ names) ∧
        (lowered table wordFinal sha256 doc ∈ names ∨
          lowered table wordFinal sha256 doc ∈ before.map (lowered table wordFinal sha256)) ∧
        e = "two conversations would both be written to " ++ doc.filenameStem sha256 := by
  induction docs generalizing names with
  | nil => simp [checkNames]
  | cons doc docs ih =>
    rw [checkNames]
    by_cases hmem : lowered table wordFinal sha256 doc ∈ names
    · rw [if_pos hmem, Except.error.injEq]
      constructor
      · intro h
        exact ⟨[], doc, docs, rfl, List.nodup_nil, by simp, .inl hmem, h.symm⟩
      · intro h
        obtain ⟨before, other, after, hdocs, -, hfresh, -, rfl⟩ := h
        cases before with
        | nil =>
          obtain ⟨rfl, -⟩ := List.cons.inj hdocs
          rfl
        | cons first before =>
          obtain ⟨rfl, -⟩ := List.cons.inj hdocs
          exact absurd hmem (hfresh doc List.mem_cons_self)
    · rw [if_neg hmem, ih]
      constructor
      · intro h
        obtain ⟨before, other, after, rfl, hnodup, hfresh, htwice, rfl⟩ := h
        refine ⟨doc :: before, other, after, rfl, ?_, ?_, ?_, rfl⟩
        · rw [List.map_cons, List.nodup_cons]
          refine ⟨?_, hnodup⟩
          intro hin
          obtain ⟨third, hthird, heq⟩ := List.mem_map.mp hin
          apply hfresh third hthird
          rw [heq]
          exact List.mem_cons_self
        · intro third hthird
          rcases List.mem_cons.mp hthird with rfl | hthird
          · exact hmem
          · intro hin
            exact hfresh third hthird (List.mem_cons_of_mem _ hin)
        · rw [List.map_cons, List.mem_cons]
          rcases htwice with htwice | htwice
          · rcases List.mem_cons.mp htwice with heq | hin
            · exact .inr (.inl heq)
            · exact .inl hin
          · exact .inr (.inr htwice)
      · intro h
        obtain ⟨before, other, after, hdocs, hnodup, hfresh, htwice, rfl⟩ := h
        cases before with
        | nil =>
          obtain ⟨rfl, rfl⟩ := List.cons.inj hdocs
          simp [hmem] at htwice
        | cons first before =>
          obtain ⟨rfl, rfl⟩ := List.cons.inj hdocs
          rw [List.map_cons, List.nodup_cons] at hnodup
          refine ⟨before, other, after, rfl, hnodup.2, ?_, ?_, rfl⟩
          · intro third hthird hin
            rcases List.mem_cons.mp hin with heq | hin
            · apply hnodup.1
              rw [← heq]
              exact List.mem_map_of_mem hthird
            · exact hfresh third (List.mem_cons_of_mem _ hthird) hin
          · rw [List.map_cons, List.mem_cons] at htwice
            rcases htwice with hin | heq | hin
            · exact .inl (List.mem_cons_of_mem _ hin)
            · exact .inl (List.mem_cons.mpr (.inl heq))
            · exact .inr hin

theorem small_of_digit {c : Char} (h : isHexDigit c) : c.toNat < 128 ∧ c.isUpper = false := by
  have hle : c.toNat ≤ 102 ∧ ¬ (65 ≤ c.toNat ∧ c.toNat ≤ 90) := by
    rcases h with h | h
    · omega
    · omega
  refine ⟨by omega, ?_⟩
  rw [Char.isUpper, decide_eq_false_iff_not]
  exact hle.2

variable (table wordFinal sha256) in
/-- A shared name keeps its digits in lower case. -/
theorem lowered_giveSuffix (doc : ConversationDocument) :
    ∃ front, (lowered table wordFinal sha256 (giveSuffix sha256 doc)).toList =
      front ++ (sha256.first 8 doc.chatIdentifier).toList := by
  rw [lowered, filenameStem_giveSuffix, Casing.toLowercase, String.toList_ofList,
    String.toList_append]
  obtain ⟨front, hfront⟩ : ∃ front, Casing.lowerFrom table wordFinal []
      ((doc.filenameStem sha256 ++ "__").toList ++ (sha256.first 8 doc.chatIdentifier).toList) =
        front ++ Casing.lowerFrom table wordFinal ([] ++ (doc.filenameStem sha256 ++ "__").toList)
          (sha256.first 8 doc.chatIdentifier).toList := Casing.lowerFrom_append _ _
  refine ⟨front, ?_⟩
  rw [hfront, Casing.lowerFrom_eq_self]
  intro c hc
  have hdigit := digit_first c hc
  have hsmall : c.toNat < 128 ∧ c.isUpper = false := small_of_digit hdigit
  refine ⟨?_, table.small c hsmall.1 hsmall.2⟩
  rintro rfl
  exact absurd hsmall.1 (by decide)

theorem first_of_lowered_eq {a b : ConversationDocument}
    (h : lowered table wordFinal sha256 (giveSuffix sha256 a) =
      lowered table wordFinal sha256 (giveSuffix sha256 b)) :
    sha256.first 8 a.chatIdentifier = sha256.first 8 b.chatIdentifier := by
  obtain ⟨front, hfront⟩ := lowered_giveSuffix table wordFinal sha256 a
  obtain ⟨front', hfront'⟩ := lowered_giveSuffix table wordFinal sha256 b
  rw [← h, hfront] at hfront'
  apply String.toList_inj.mp
  refine (List.append_inj' hfront' ?_).2
  rw [length_first (by omega), length_first (by omega)]

/-- Two documents of a list with one name share it. -/
theorem shared_of_two {before between after : List ConversationDocument}
    {a b : ConversationDocument}
    (h : lowered table wordFinal sha256 a = lowered table wordFinal sha256 b) :
    Shared table wordFinal sha256 (before ++ a :: (between ++ b :: after)) b := by
  rw [Shared, List.countP_append, List.countP_cons_of_pos (by simpa using h), List.countP_append,
    List.countP_cons_of_pos (by simp)]
  omega

/-- Two documents come to one name by their digits, or one of them had it before. -/
theorem cases_of_same {before between after : List ConversationDocument}
    {a b : ConversationDocument}
    (hdocs : docs = before ++ a :: (between ++ b :: after))
    (h : lowered table wordFinal sha256 (ownFile table wordFinal sha256 docs a) =
      lowered table wordFinal sha256 (ownFile table wordFinal sha256 docs b)) :
    Shared table wordFinal sha256 docs a ∧ Shared table wordFinal sha256 docs b ∧
        sha256.first 8 a.chatIdentifier = sha256.first 8 b.chatIdentifier ∨
      ¬ (Shared table wordFinal sha256 docs a ↔ Shared table wordFinal sha256 docs b) := by
  by_cases ha : Shared table wordFinal sha256 docs a
  · by_cases hb : Shared table wordFinal sha256 docs b
    · rw [ownFile, ownFile, if_pos ha, if_pos hb] at h
      exact .inl ⟨ha, hb, first_of_lowered_eq h⟩
    · exact .inr (fun hiff => hb (hiff.mp ha))
  · by_cases hb : Shared table wordFinal sha256 docs b
    · exact .inr (fun hiff => ha (hiff.mpr hb))
    · rw [ownFile, ownFile, if_neg ha, if_neg hb] at h
      subst hdocs
      exact absurd (shared_of_two h) hb

theorem filenameStem_ownFile (doc : ConversationDocument) :
    (ownFile table wordFinal sha256 docs doc).filenameStem sha256 =
      if Shared table wordFinal sha256 docs doc then
        doc.filenameStem sha256 ++ "__" ++ sha256.first 8 doc.chatIdentifier
      else doc.filenameStem sha256 := by
  rw [ownFile]
  split
  · exact filenameStem_giveSuffix doc
  · rfl

end clashes

section own
variable (table : Casing.Table) (wordFinal : List Char → List Char → Bool) (sha256 : Sha256)

/-- **Each document its own file.** The call succeeds exactly when no two names are then one on a
disk that ignores case; a document's name is its own unless another has it, and is then that name
with the start of its chat identifier's hash; and none of this depends on the order of the list, or
on the order the map of the names is walked in. -/
theorem own_files (walk walk' : Walk) (docs docs' : List ConversationDocument)
    (hperm : docs.Perm docs') :
    ((giveEachDocumentItsOwnFile table wordFinal sha256 walk docs).2 = .ok () ↔
      ((giveEachDocumentItsOwnFile table wordFinal sha256 walk docs).1.map
        (lowered table wordFinal sha256)).Nodup) ∧
    (giveEachDocumentItsOwnFile table wordFinal sha256 walk docs).1.map
        (ConversationDocument.filenameStem sha256) =
      docs.map (fun doc =>
        if Shared table wordFinal sha256 docs doc then
          doc.filenameStem sha256 ++ "__" ++ sha256.first 8 doc.chatIdentifier
        else doc.filenameStem sha256) ∧
    (giveEachDocumentItsOwnFile table wordFinal sha256 walk docs).1 =
      docs.map (ownFile table wordFinal sha256 docs) ∧
    (giveEachDocumentItsOwnFile table wordFinal sha256 walk' docs').1 =
      docs'.map (ownFile table wordFinal sha256 docs) ∧
    ((giveEachDocumentItsOwnFile table wordFinal sha256 walk docs).2 = .ok () ↔
      (giveEachDocumentItsOwnFile table wordFinal sha256 walk' docs').2 = .ok ()) := by
  refine ⟨giveEach_ok_iff, ?_, giveEach_docs, ?_, ?_⟩
  · rw [giveEach_docs, List.map_map]
    apply List.map_congr_left
    intro doc _
    exact filenameStem_ownFile doc
  · rw [giveEach_docs, ownFile_perm hperm]
  · rw [giveEach_ok_iff, giveEach_ok_iff, giveEach_docs, giveEach_docs, ← ownFile_perm hperm]
    exact ((hperm.map _).map _).nodup_iff

/-- **When it is refused.** The call names the first document whose file another before it has; the
two had their hash's start put after a shared name, and the hashes start alike, or one was named
from the beginning as the other now is. -/
theorem own_files_refused_iff (walk : Walk) (docs : List ConversationDocument) (e : String) :
    (giveEachDocumentItsOwnFile table wordFinal sha256 walk docs).2 = .error e ↔
      ∃ before a between b after, docs = before ++ a :: (between ++ b :: after) ∧
        ((before ++ a :: between).map (fun doc =>
          lowered table wordFinal sha256 (ownFile table wordFinal sha256 docs doc))).Nodup ∧
        lowered table wordFinal sha256 (ownFile table wordFinal sha256 docs a) =
          lowered table wordFinal sha256 (ownFile table wordFinal sha256 docs b) ∧
        (Shared table wordFinal sha256 docs a ∧ Shared table wordFinal sha256 docs b ∧
            sha256.first 8 a.chatIdentifier = sha256.first 8 b.chatIdentifier ∨
          ¬ (Shared table wordFinal sha256 docs a ↔ Shared table wordFinal sha256 docs b)) ∧
        e = "two conversations would both be written to " ++
          (ownFile table wordFinal sha256 docs b).filenameStem sha256 := by
  show checkNames table wordFinal sha256 []
    (giveEachDocumentItsOwnFile table wordFinal sha256 walk docs).1 = .error e ↔ _
  rw [giveEach_docs, checkNames_error_iff]
  constructor
  · intro h
    obtain ⟨front, doc, rest, hdocs, hnodup, -, htwice, rfl⟩ := h
    obtain ⟨front, rest, rfl, rfl, hrest⟩ := List.map_eq_append_iff.mp hdocs
    obtain ⟨b, after, rfl, rfl, rfl⟩ := List.map_eq_cons_iff.mp hrest
    rw [or_iff_right List.not_mem_nil, List.map_map] at htwice
    obtain ⟨a, ha, hsame⟩ := List.mem_map.mp htwice
    obtain ⟨before, between, rfl⟩ := List.append_of_mem ha
    rw [List.map_map] at hnodup
    have hdocs : before ++ a :: between ++ b :: after = before ++ a :: (between ++ b :: after) := by
      rw [List.append_assoc, List.cons_append]
    exact ⟨before, a, between, b, after, hdocs, hnodup, hsame, cases_of_same hdocs hsame, rfl⟩
  · intro h
    obtain ⟨before, a, between, b, after, hdocs, hnodup, hsame, -, rfl⟩ := h
    refine ⟨(before ++ a :: between).map (ownFile table wordFinal sha256 docs),
      ownFile table wordFinal sha256 docs b,
      after.map (ownFile table wordFinal sha256 docs), ?_, ?_, ?_, .inr ?_, rfl⟩
    · have hmap := congrArg (List.map (ownFile table wordFinal sha256 docs)) hdocs
      rw [hmap]
      simp only [List.map_append, List.map_cons, List.append_assoc, List.cons_append]
    · rwa [List.map_map]
    · intro _ _
      exact List.not_mem_nil
    · rw [List.map_map, ← hsame]
      exact List.mem_map_of_mem (f := lowered table wordFinal sha256 ∘ _)
        (List.mem_append_right _ List.mem_cons_self)

end own

/-! Two groups with one title. -/

/-- The last `k` hexadecimal digits of `n`. -/
def hexDigits : Nat → Nat → List Char
  | 0, _ => []
  | k + 1, n => Nat.digitChar (n / 16 ^ k % 16) :: hexDigits k n

theorem isHexDigit_digitChar {d : Nat} (h : d < 16) : isHexDigit (Nat.digitChar d) := by
  interval_cases d <;> simp [isHexDigit, Nat.digitChar]

theorem length_hexDigits (k n : Nat) : (hexDigits k n).length = k := by
  induction k with
  | zero => rfl
  | succ k ih => rw [hexDigits, List.length_cons, ih]

theorem isHexDigit_hexDigits (k n : Nat) : ∀ c ∈ hexDigits k n, isHexDigit c := by
  induction k with
  | zero => simp [hexDigits]
  | succ k ih =>
    rw [hexDigits, List.forall_mem_cons]
    exact ⟨isHexDigit_digitChar (Nat.mod_lt _ (by omega)), ih⟩

/-- The hashes of two chat identifiers, and of nothing. -/
def sampleDigest (bytes : List UInt8) : Nat :=
  if bytes = encode "chat8812".toList then
    0xd844666bd213c5790079ecb5a40a04e1a979240ad278b5d5744f1dbb305cec73
  else if bytes = encode "chat4407".toList then
    0xf2eaa4420443e15d7fcef6675cb146b2c4184a512dd4868bbc853408f5394825
  else 0xe3b0c44298fc1c149afbf4c8996fb92427ae41e4649b934ca495991b7852b855

def sampleSha256 : Sha256 where
  hex bytes := String.ofList (hexDigits 64 (sampleDigest bytes))
  length bytes := by rw [String.toList_ofList, length_hexDigits]
  digit bytes := by
    rw [String.toList_ofList]
    exact isHexDigit_hexDigits 64 _

def family : ConversationDocument := ⟨.group, "chat8812", some "Family", [], none⟩

def familyAgain : ConversationDocument := ⟨.group, "chat4407", some " family ", [], none⟩

def ann : ConversationDocument := ⟨.individual, "ann@example.com", none, [], some "__whatsapp"⟩

def backwards : Walk := ⟨List.reverse, List.reverse_perm⟩

theorem own_files_family :
    (giveEachDocumentItsOwnFile asciiCasing (fun _ _ => true) sampleSha256 .inserted
        [family, ann, familyAgain]).1.map (ConversationDocument.filenameStem sampleSha256) =
      ["Family__d844666b", "ann_example_com__whatsapp", "family__f2eaa442"] ∧
    (giveEachDocumentItsOwnFile asciiCasing (fun _ _ => true) sampleSha256 backwards
        [familyAgain, ann, family]).2 = .ok () := by
  have hown := own_files asciiCasing (fun _ _ => true) sampleSha256 .inserted backwards
    [family, ann, familyAgain] [familyAgain, ann, family] (List.reverse_perm _).symm
  have hnames : (giveEachDocumentItsOwnFile asciiCasing (fun _ _ => true) sampleSha256 .inserted
        [family, ann, familyAgain]).1.map (ConversationDocument.filenameStem sampleSha256) =
      ["Family__d844666b", "ann_example_com__whatsapp", "family__f2eaa442"] := by
    rw [hown.2.1]
    decide +kernel
  refine ⟨hnames, hown.2.2.2.2.mp (hown.1.mpr ?_)⟩
  rw [hown.2.2.1]
  decide +kernel

/-- A document named from the beginning as another now is. -/
example : (giveEachDocumentItsOwnFile asciiCasing (fun _ _ => true) sampleSha256 .inserted
    [family, familyAgain, ⟨.group, "chat9", some "family__f2eaa442", [], none⟩]).2.isOk = false := by
  decide +kernel

end MessageCrate.Stems

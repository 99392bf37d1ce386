import MessageCrate.Formats.MmsParts

/- No part of an MMS is lost or counted twice.

   1. `Naming` is what the loop over the `src`s keeps (`Ranked.next`), and it settles which
      `src` names which part (`Naming.unique`).
   2. Ranks put the parts in one order (`before_of_rank`): a position is below every rank of a
      part that has no name, since a document has fewer `src`s than that.
   3. `bodyOf_parts`: every part falls in one class, and the texts and the attachments are those
      of their class in that order.
   4. `named_by_a_later_src`: where names repeat, a part may be named by another `src` than the
      first that matches it, since that one has named a part written before. -/
namespace MessageCrate.MmsParts

open Utf8

section naming
variable {parts : List Part} {srcs : List (List Char)} {pos pos' : Nat → Option Nat}

theorem Naming.agree (h : Naming parts srcs pos) (h' : Naming parts srcs pos') {p : Nat}
    (hbelow : ∀ q, q < p → ∀ i, pos i = some q ↔ pos' i = some q) {i : Nat} (hi : pos i = some p) :
    pos' i = some p := by
  by_contra hne
  obtain ⟨part, src, hpart, hsrc, hfits⟩ := h.goes hi
  -- in the other naming the `src` names a part `j` before `i`, and then in this one too
  obtain ⟨j, hji, hj⟩ := h'.first hpart hsrc hfits (by
    intro q hq
    rcases Nat.lt_trichotomy p q with hlt | rfl | hlt
    · exact hlt
    · exact absurd hq hne
    · have := (hbelow q hlt i).mpr hq
      rw [hi, Option.some.injEq] at this
      omega)
  obtain ⟨partj, srcj, hpartj, hsrcj, hfitsj⟩ := h'.goes hj
  obtain ⟨k, hkj, hk⟩ := h.first hpartj hsrcj hfitsj (by
    intro q hq
    rcases Nat.lt_trichotomy p q with hlt | rfl | hlt
    · exact hlt
    · have := h.once hq hi
      omega
    · have := (hbelow q hlt j).mp hq
      rw [hj, Option.some.injEq] at this
      omega)
  have := h.once hk hi
  omega

/-- **Which `src` names which part is settled.** By induction on the position: were a part named
there in one way and not in the other, a part before it would be. -/
theorem Naming.unique (h : Naming parts srcs pos) (h' : Naming parts srcs pos') : pos = pos' := by
  have hsame : ∀ p i, pos i = some p ↔ pos' i = some p := by
    intro p
    induction p using Nat.strongRecOn with
    | ind p ih =>
      intro i
      exact ⟨h.agree h' ih, h'.agree h (fun q hq i => (ih q hq i).symm)⟩
  funext i
  exact Option.ext fun p => hsame p i

/-- The ranking after some `src`s: what they named, at the positions they named it. -/
structure Ranked (parts : List Part) (srcs : List (List Char)) (pos : Nat → Option Nat)
    (r : Ranking) : Prop where
  naming : Naming parts srcs pos
  named : ∀ i, i < parts.length → r.named[i]? = some (pos i).isSome
  rank : ∀ i, i < parts.length → r.rank[i]? = some ((pos i).getD (usizeMax / 2 + i))

theorem ranked_unranked (parts : List Part) : Ranked parts [] (fun _ => none) (unranked parts) where
  naming := {
    goes := fun h => by cases h
    once := fun h => by cases h
    first := fun _ h => by simp at h }
  named := fun i hi => by simp [unranked, hi]
  rank := fun i hi => by simp [unranked, hi]

/-- The part is one that the `src` may name now. -/
def Open (parts : List Part) (pos : Nat → Option Nat) (src : List Char) (i : Nat) : Prop :=
  pos i = none ∧ ∃ part, parts[i]? = some part ∧ Fits part src

/-- What the loop looks for. -/
def mayName (parts : List Part) (r : Ranking) (src : List Char) (i : Nat) : Bool :=
  !r.named.getD i false &&
    (parts[i]?.any fun part => !isSmil part.contentType && (partNames part).contains src)

theorem mayName_iff {r : Ranking} (h : Ranked parts srcs pos r) {src : List Char} {i : Nat}
    (hi : i < parts.length) : mayName parts r src i = true ↔ Open parts pos src i := by
  have hnamed := h.named i hi
  rw [mayName, Open, List.getD_eq_getElem?_getD, hnamed, Option.getD_some, Bool.and_eq_true]
  simp [Fits, hi]

theorem nameNext_eq (parts : List Part) (r : Ranking) (src : List Char) (p : Nat) :
    nameNext parts r (src, p) =
      match (List.range parts.length).find? (mayName parts r src) with
      | some i => ⟨r.named.set i true, r.rank.set i p⟩
      | none => r := rfl

/-- The naming with one part more. -/
def withName (pos : Nat → Option Nat) (i p : Nat) : Nat → Option Nat :=
  fun j => if j = i then some p else pos j

theorem getElem?_snoc_iff {src x : List Char} {p : Nat} :
    (srcs ++ [src])[p]? = some x ↔ srcs[p]? = some x ∨ p = srcs.length ∧ src = x := by
  rw [List.getElem?_append]
  split
  · next hlt =>
    have hne : p ≠ srcs.length := by omega
    simp [hne]
  · next hge =>
    have hnone : srcs[p]? = none := List.getElem?_eq_none (by omega)
    rw [hnone, List.getElem?_singleton]
    by_cases hp : p = srcs.length
    · simp [hp]
    · have : p - srcs.length ≠ 0 := by omega
      simp [hp, this]

theorem Naming.lt (h : Naming parts srcs pos) {i p : Nat} (hi : pos i = some p) :
    p < srcs.length := by
  obtain ⟨part, src, -, hsrc, -⟩ := h.goes hi
  exact (List.getElem?_eq_some_iff.mp hsrc).1

/-- A `src` that no part waits for names nothing. -/
theorem Naming.pass (h : Naming parts srcs pos) {src : List Char}
    (hnone : ∀ i, ¬ Open parts pos src i) : Naming parts (srcs ++ [src]) pos where
  goes hi := by
    obtain ⟨part, src', hpart, hsrc, hfits⟩ := h.goes hi
    exact ⟨part, src', hpart, getElem?_snoc_iff.mpr (.inl hsrc), hfits⟩
  once := h.once
  first := by
    intro i p part src' hpart hsrc hfits hbefore
    rcases getElem?_snoc_iff.mp hsrc with hsrc | ⟨rfl, rfl⟩
    · exact h.first hpart hsrc hfits hbefore
    · cases hi : pos i with
      | none => exact absurd ⟨hi, part, hpart, hfits⟩ (hnone i)
      | some q =>
        have hlt := hbefore q hi
        have := h.lt hi
        omega

theorem withName_self (pos : Nat → Option Nat) (i p : Nat) : withName pos i p i = some p := if_pos rfl

theorem withName_of_ne {i j : Nat} (hji : j ≠ i) (p : Nat) : withName pos i p j = pos j := if_neg hji

/-- What is named by now stays named. -/
theorem withName_keep {i j p q : Nat} (hi : pos i = none) (hj : pos j = some q) : withName pos i p j = some q := by
  have hji : j ≠ i := by
    rintro rfl
    rw [hi] at hj
    cases hj
  rw [withName_of_ne hji, hj]

/-- A `src` names the first part that waits for it. -/
theorem Naming.take (h : Naming parts srcs pos) {src : List Char} {i : Nat}
    (hopen : Open parts pos src i) (hfirst : ∀ j, j < i → ¬ Open parts pos src j) :
    Naming parts (srcs ++ [src]) (withName pos i srcs.length) where
  goes := by
    intro j p hj
    by_cases hji : j = i
    · subst hji
      obtain rfl : srcs.length = p := by simpa [withName_self] using hj
      obtain ⟨-, part, hpart, hfits⟩ := hopen
      exact ⟨part, src, hpart, getElem?_snoc_iff.mpr (.inr ⟨rfl, rfl⟩), hfits⟩
    · rw [withName_of_ne hji] at hj
      obtain ⟨part, src', hpart, hsrc, hfits⟩ := h.goes hj
      exact ⟨part, src', hpart, getElem?_snoc_iff.mpr (.inl hsrc), hfits⟩
  once := by
    intro j k p hj hk
    by_cases hji : j = i
    · by_cases hki : k = i
      · omega
      · rw [hji, withName_self, Option.some.injEq] at hj
        rw [withName_of_ne hki] at hk
        have := h.lt hk
        omega
    · rw [withName_of_ne hji] at hj
      by_cases hki : k = i
      · rw [hki, withName_self, Option.some.injEq] at hk
        have := h.lt hj
        omega
      · rw [withName_of_ne hki] at hk
        exact h.once hj hk
  first := by
    intro j p part src' hpart hsrc hfits hbefore
    have hold : srcs[p]? = some src' → (∀ q, pos j = some q → p < q) →
        ∃ k, k < j ∧ withName pos i srcs.length k = some p := by
      intro hsrc hbefore
      obtain ⟨k, hkj, hk⟩ := h.first hpart hsrc hfits hbefore
      exact ⟨k, hkj, withName_keep hopen.1 hk⟩
    by_cases hji : j = i
    · subst hji
      have hlt := hbefore _ (withName_self pos j srcs.length)
      rcases getElem?_snoc_iff.mp hsrc with hsrc | ⟨rfl, -⟩
      · apply hold hsrc
        intro q hq
        rw [hopen.1] at hq
        cases hq
      · omega
    · rw [withName_of_ne hji] at hbefore
      rcases getElem?_snoc_iff.mp hsrc with hsrc | ⟨rfl, rfl⟩
      · exact hold hsrc hbefore
      · have hj : pos j = none := by
          cases hj : pos j with
          | none => rfl
          | some q =>
            have hlt := hbefore q hj
            have := h.lt hj
            omega
        have hij : i < j := by
          rcases Nat.lt_or_ge i j with hlt | hge
          · exact hlt
          · exact absurd ⟨hj, part, hpart, hfits⟩ (hfirst j (by omega))
        exact ⟨i, hij, withName_self _ _ _⟩

/-- **One `src` more.** It names the first part it may, and nothing when there is none. -/
theorem Ranked.next {r : Ranking} (h : Ranked parts srcs pos r) (src : List Char) :
    ∃ pos', Ranked parts (srcs ++ [src]) pos' (nameNext parts r (src, srcs.length)) := by
  rw [nameNext_eq]
  have hlt : ∀ {i}, Open parts pos src i → i < parts.length := by
    intro i hopen
    obtain ⟨part, hpart, -⟩ := hopen.2
    exact (List.getElem?_eq_some_iff.mp hpart).1
  cases hfind : (List.range parts.length).find? (mayName parts r src) with
  | none =>
    refine ⟨pos, h.naming.pass ?_, h.named, h.rank⟩
    intro i hopen
    have hi := hlt hopen
    exact List.find?_eq_none.mp hfind i (List.mem_range.mpr hi) ((mayName_iff h hi).mpr hopen)
  | some i =>
    obtain ⟨hmay, hi, hnot⟩ := List.find?_range_eq_some.mp hfind
    have hi := List.mem_range.mp hi
    have hopen := (mayName_iff h hi).mp hmay
    refine ⟨withName pos i srcs.length, h.naming.take hopen ?_, ?_, ?_⟩
    · intro j hji hopenj
      have := hnot j hji
      rw [(mayName_iff h (hlt hopenj)).mpr hopenj] at this
      cases this
    · intro j hj
      have hlength : i < r.named.length := (List.getElem?_eq_some_iff.mp (h.named i hi)).1
      by_cases hji : j = i
      · subst hji
        rw [List.getElem?_set_self hlength, withName_self]
        rfl
      · rw [List.getElem?_set_ne (Ne.symm hji), withName_of_ne hji, h.named j hj]
    · intro j hj
      have hlength : i < r.rank.length := (List.getElem?_eq_some_iff.mp (h.rank i hi)).1
      by_cases hji : j = i
      · subst hji
        rw [List.getElem?_set_self hlength, withName_self]
        rfl
      · rw [List.getElem?_set_ne (Ne.symm hji), withName_of_ne hji, h.rank j hj]

/-- **The ranks of a document.** By induction on its `src`s, the last one last. -/
theorem exists_ranked (parts : List Part) (srcs : List (List Char)) :
    ∃ pos, Ranked parts srcs pos (srcs.zipIdx.foldl (nameNext parts) (unranked parts)) := by
  induction srcs using List.reverseRecOn with
  | nil => exact ⟨_, ranked_unranked parts⟩
  | append_singleton srcs src ih =>
    obtain ⟨pos, hpos⟩ := ih
    have hnext := hpos.next src
    rw [List.zipIdx_append, List.foldl_append]
    simpa using hnext

end naming

/-! The order. -/

theorem before_of_rank {parts : List Part} {srcs : List (List Char)} {pos : Nat → Option Nat}
    {r : Ranking} (h : Ranked parts srcs pos r) (hshort : srcs.length ≤ usizeMax / 2) {i j : Nat}
    (hi : i < parts.length) (hj : j < parts.length) (hne : i ≠ j)
    (hle : r.rank.getD i 0 ≤ r.rank.getD j 0) : Before pos i j := by
  rw [List.getD_eq_getElem?_getD, List.getD_eq_getElem?_getD, h.rank i hi, h.rank j hj,
    Option.getD_some, Option.getD_some] at hle
  rw [Before]
  cases hposi : pos i with
  | some p =>
    cases hposj : pos j with
    | some q =>
      simp only [hposi, hposj, Option.getD_some] at hle ⊢
      have hpq : p ≠ q := by
        rintro rfl
        exact hne (h.naming.once hposi hposj)
      omega
    | none => trivial
  | none =>
    cases hposj : pos j with
    | some q =>
      simp only [hposi, hposj, Option.getD_some, Option.getD_none] at hle ⊢
      have := h.naming.lt hposj
      omega
    | none =>
      simp only [hposi, hposj, Option.getD_none] at hle ⊢
      omega

/-! The body. -/

section body
variable {decode : List UInt8 → Str} {parts : List Part}

/-- What one part adds is settled by its class. -/
theorem takePart_eq (s : Taken) {i : Nat} (hi : i < parts.length) :
    takePart decode parts s i =
      ⟨s.texts ++ (classAt decode parts i).words.toList,
        s.attachments ++ [i].filter fun i => (classAt decode parts i).isAttachment,
        s.unreadable ++ [i].filter fun i => (classAt decode parts i).isUnreadable⟩ := by
  have hpart : parts[i]? = some parts[i] := List.getElem?_eq_getElem hi
  rw [takePart, classAt, hpart]
  simp only [Option.map_some, Option.getD_some, List.filter_cons, List.filter_nil, classAt, hpart]
  generalize parts[i] = part
  rw [classOf]
  cases hsmil : isSmil part.contentType with
  | true => simp [Class.words, Class.isAttachment, Class.isUnreadable]
  | false =>
    cases htext : isText part.contentType with
    | true =>
      cases part.content with
      | none => simp [Class.words, Class.isAttachment, Class.isUnreadable]
      | text t =>
        by_cases ht : t.chars = []
        · simp [ht, Class.words, Class.isAttachment, Class.isUnreadable]
        · simp [ht, Class.words, Class.isAttachment, Class.isUnreadable]
      | bytes bs =>
        by_cases ht : (decode bs).chars = []
        · simp [ht, Class.words, Class.isAttachment, Class.isUnreadable]
        · simp [ht, Class.words, Class.isAttachment, Class.isUnreadable]
      | unreadable => simp [Class.words, Class.isAttachment, Class.isUnreadable]
    | false =>
      cases part.content with
      | none => simp [Class.words, Class.isAttachment, Class.isUnreadable]
      | text t =>
        by_cases ht : t.chars = []
        · simp [ht, Class.words, Class.isAttachment, Class.isUnreadable]
        · simp [ht, Class.words, Class.isAttachment, Class.isUnreadable]
      | bytes bs => simp [Class.words, Class.isAttachment, Class.isUnreadable]
      | unreadable => simp [Class.words, Class.isAttachment, Class.isUnreadable]

theorem foldl_takePart (order : List Nat) (s : Taken) (h : ∀ i ∈ order, i < parts.length) :
    order.foldl (takePart decode parts) s =
      ⟨s.texts ++ order.filterMap fun i => (classAt decode parts i).words,
        s.attachments ++ order.filter fun i => (classAt decode parts i).isAttachment,
        s.unreadable ++ order.filter fun i => (classAt decode parts i).isUnreadable⟩ := by
  induction order generalizing s with
  | nil => simp
  | cons i order ih =>
    have hwords : [i].filterMap (fun i => (classAt decode parts i).words) =
        (classAt decode parts i).words.toList := by
      cases hclass : (classAt decode parts i).words with
      | none => simp [hclass]
      | some t => simp [hclass]
    rw [List.foldl_cons, takePart_eq s (h i List.mem_cons_self),
      ih _ (fun j hj => h j (List.mem_cons_of_mem _ hj)), show i :: order = [i] ++ order from rfl,
      List.filterMap_append, List.filter_append, List.filter_append, hwords]
    simp only [List.append_assoc]

/-- **The body, part by part**, once it is settled which `src` names which part. -/
theorem bodyOf_ordered (captures : Str → List (List Char))
    (hcaptures : ∀ document, (captures document).length ≤ document.chars.length)
    {pos : Nat → Option Nat} (hpos : Ranked parts (mentions captures decode parts) pos
      ((mentions captures decode parts).zipIdx.foldl (nameNext parts) (unranked parts))) :
    ∃ order : List Nat, order.Perm (List.range parts.length) ∧ order.Pairwise (Before pos) ∧
      bodyOf captures decode parts =
        ⟨Lines.joinLines (order.filterMap fun i => (classAt decode parts i).words),
          order.filter fun i => (classAt decode parts i).isAttachment,
          (List.range parts.length).filter fun i => (classAt decode parts i).isUnreadable⟩ := by
  have hshort : (mentions captures decode parts).length ≤ usizeMax / 2 := by
    rw [mentions]
    split
    · next document _ =>
      have hchars := length_le_size document.chars
      have hcaptured := hcaptures document
      have hfits := document.fits
      rw [List.length_map]
      omega
    · exact Nat.zero_le _
  let rank := smilRank captures decode parts
  let order := (List.range parts.length).insertionSort (fun i j => rank.getD i 0 ≤ rank.getD j 0)
  have hperm : order.Perm (List.range parts.length) := List.perm_insertionSort _ _
  have hlt : ∀ i ∈ order, i < parts.length :=
    fun i hi => List.mem_range.mp (hperm.mem_iff.mp hi)
  have hsorted : order.Pairwise (Before pos) := by
    have hrank : order.Pairwise (fun i j => rank.getD i 0 ≤ rank.getD j 0) :=
      List.pairwise_insertionSort _ _
    have hnodup : order.Nodup := hperm.nodup_iff.mpr List.nodup_range
    refine (hrank.and hnodup).imp_of_mem ?_
    intro i j hi hj hij
    exact before_of_rank hpos hshort (hlt i hi) (hlt j hj) hij.2 hij.1
  have hunreadable : (order.filter fun i => (classAt decode parts i).isUnreadable).insertionSort
      (· ≤ ·) = (List.range parts.length).filter fun i => (classAt decode parts i).isUnreadable := by
    apply List.Perm.eq_of_pairwise ?_ (List.pairwise_insertionSort _ _)
    · exact List.pairwise_le_range.filter _
    · exact (List.perm_insertionSort _ _).trans (hperm.filter _)
    · exact fun i j _ _ hij hji => Nat.le_antisymm hij hji
  refine ⟨order, hperm, hsorted, ?_⟩
  have hbody : bodyOf captures decode parts =
      ⟨Lines.joinLines (order.foldl (takePart decode parts) ⟨[], [], []⟩).texts,
        (order.foldl (takePart decode parts) ⟨[], [], []⟩).attachments,
        (order.foldl (takePart decode parts) ⟨[], [], []⟩).unreadable.insertionSort (· ≤ ·)⟩ := rfl
  rw [hbody, foldl_takePart order _ hlt]
  simp only [List.nil_append, hunreadable]

/-- **No part is lost or counted twice.** Which `src` names which part is settled, and so is the
order: the parts that are named as they are named, then the others as they are written. The text
is every text of the parts that are text, the attachments are the parts that are one, both in that
order, and the parts that could not be read are told as they are written. -/
theorem bodyOf_parts (captures : Str → List (List Char)) (decode : List UInt8 → Str)
    (parts : List Part)
    (hcaptures : ∀ document, (captures document).length ≤ document.chars.length) :
    ∃ (pos : Nat → Option Nat) (order : List Nat),
      Naming parts (mentions captures decode parts) pos ∧
      (∀ pos', Naming parts (mentions captures decode parts) pos' → pos' = pos) ∧
      order.Perm (List.range parts.length) ∧ order.Pairwise (Before pos) ∧
      bodyOf captures decode parts =
        ⟨Lines.joinLines (order.filterMap fun i => (classAt decode parts i).words),
          order.filter fun i => (classAt decode parts i).isAttachment,
          (List.range parts.length).filter fun i => (classAt decode parts i).isUnreadable⟩ := by
  obtain ⟨pos, hpos⟩ := exists_ranked parts (mentions captures decode parts)
  obtain ⟨order, hperm, hsorted, hbody⟩ := bodyOf_ordered captures hcaptures hpos
  exact ⟨pos, order, hpos.naming, fun pos' hpos' => hpos'.unique hpos.naming, hperm, hsorted, hbody⟩

end body

/-- A layout that shows a picture, then another, a text, and the second picture's name again. -/
def layout : Str :=
  ⟨"<img src=\"b.jpg\"/><img src=\"a.jpg\"/><text src=\"cid:text_0\"/><img src=\"a.jpg\"/>".toList,
    by decide +kernel⟩

/-- What the pattern captures in the layout. -/
def layoutSrcs (document : Str) : List (List Char) :=
  if document.chars = layout.chars then
    ["b.jpg".toList, "a.jpg".toList, "cid:text_0".toList, "a.jpg".toList]
  else []

def said (words : String) (h : size words.toList ≤ usizeMax / 2) : Content := .text ⟨words.toList, h⟩

/-- Two pictures of one name with another between them, a text that the layout names and one that
it does not. -/
def layoutParts : List Part :=
  [⟨"text/plain".toList, [], said "unnamed" (by decide +kernel)⟩,
    ⟨"image/jpeg".toList, ["a.jpg".toList], .bytes [1]⟩,
    ⟨"image/jpeg".toList, ["b.jpg".toList], .bytes [2]⟩,
    ⟨"image/jpeg".toList, ["a.jpg".toList], .bytes [3]⟩,
    ⟨"Text/Plain; charset=utf-8".toList, ["<text_0>".toList], said "named" (by decide +kernel)⟩,
    ⟨"application/smil".toList, [], .text layout⟩]

def emptyStr : Str := ⟨[], nil_fits⟩

theorem bodyOf_parts_layout :
    ∃ (pos : Nat → Option Nat) (order : List Nat),
      Naming layoutParts (mentions layoutSrcs (fun _ => emptyStr) layoutParts) pos ∧
      (∀ pos', Naming layoutParts (mentions layoutSrcs (fun _ => emptyStr) layoutParts) pos' →
        pos' = pos) ∧
      order.Perm (List.range 6) ∧ order.Pairwise (Before pos) ∧
      Lines.joinLines (order.filterMap fun i =>
        (classAt (fun _ => emptyStr) layoutParts i).words) = "named\nunnamed".toList ∧
      (order.filter fun i => (classAt (fun _ => emptyStr) layoutParts i).isAttachment) = [2, 1, 3] := by
  have hcaptures : ∀ document, (layoutSrcs document).length ≤ document.chars.length := by
    intro document
    rw [layoutSrcs]
    split
    · next h =>
      rw [h]
      decide +kernel
    · exact Nat.zero_le _
  have hlayout : bodyOf layoutSrcs (fun _ => emptyStr) layoutParts =
      ⟨"named\nunnamed".toList, [2, 1, 3], []⟩ := by decide +kernel
  obtain ⟨pos, order, hnaming, hunique, hperm, hsorted, hbody⟩ :=
    bodyOf_parts layoutSrcs (fun _ => emptyStr) layoutParts hcaptures
  rw [hlayout, Body.mk.injEq] at hbody
  exact ⟨pos, order, hnaming, hunique, hperm, hsorted, hbody.1.symm, hbody.2.1.symm⟩

/-- **A part may be named by another `src` than the first that matches it**: the second `a.jpg` of
the layout names the fourth part, which the first one matches and does not name. -/
theorem named_by_a_later_src :
    smilRank layoutSrcs (fun _ => emptyStr) layoutParts =
      [usizeMax / 2, 1, 0, 3, 2, usizeMax / 2 + 5] ∧
    ¬ ∀ (i : Nat) part p, layoutParts[i]? = some part →
      (smilRank layoutSrcs (fun _ => emptyStr) layoutParts)[i]? = some p →
      p < (mentions layoutSrcs (fun _ => emptyStr) layoutParts).length →
      ∀ (q : Nat) src, (mentions layoutSrcs (fun _ => emptyStr) layoutParts)[q]? = some src →
        Fits part src → p ≤ q := by
  have hrank : smilRank layoutSrcs (fun _ => emptyStr) layoutParts =
      [usizeMax / 2, 1, 0, 3, 2, usizeMax / 2 + 5] := by decide +kernel
  have hsrcs : mentions layoutSrcs (fun _ => emptyStr) layoutParts =
      ["b.jpg".toList, "a.jpg".toList, "text_0".toList, "a.jpg".toList] := by decide +kernel
  refine ⟨hrank, fun h => ?_⟩
  rw [hrank, hsrcs] at h
  have hfirst := h 3 _ 3 rfl rfl (by decide) 1 "a.jpg".toList rfl ⟨by decide +kernel, by decide +kernel⟩
  omega

end MessageCrate.MmsParts

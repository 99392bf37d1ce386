import MessageCrate.Lib.Grouping
import MessageCrate.Ir.Identity

/- One copy per message (`one_copy_per_message` in `crates/libs/ir/src/identity.rs`).

   The copies of one conversation are put into buckets by direction, sender, text,
   vendor key and second; each bucket is sorted richest copy first and gone through
   once, a copy either taken for one of those already kept or kept itself. A kept copy
   with whole seconds takes the time of a millisecond copy taken for it.

   What is proved:
     1. `place_cases` says what placing one copy can do; `keptInv_foldl` derives from
        it what holds of a bucket gone through (`KeptInv`): every copy is covered by a
        kept one, and no two kept ones are one message.
     2. `foldl_place_alike`: the kept copies depend on the bucket's copies and not on
        the order they were read in.
     3. The same for whole conversations (`kept_rows_perm`, `repeats_kept`,
        `not_oneMessage_of_kept`), in any order a hash map hands its buckets out.

   Correspondence (Rust ↔ Lean):
     the key of `buckets`               ↔ `MessageCopy.bucket`
     the comparison in `members.sort_by` ↔ `rank`, compared lexicographically
     the loop over `members`            ↔ `keptOf`, its body `place`
     `buckets.into_values()`            ↔ a `Walk` over `group`
     `fate`                             ↔ `fates` -/
namespace MessageCrate
open Text Grouping

/-- One copy of a message as a source recorded it. -/
structure MessageCopy where
  isFromMe : Bool
  sender : Option String
  timestampUnixMs : Int
  precision : TimePrecision
  text : String
  attachmentDigests : List String
  vendorKey : Option String
  deriving DecidableEq, Repr

/-- What copies that can be one message share. -/
structure Bucket where
  isFromMe : Bool
  sender : String
  text : String
  vendorKey : String
  second : Int
  deriving DecidableEq, Repr

namespace MessageCopy

def digests (c : MessageCopy) : List String := digestSet c.attachmentDigests

def exact (c : MessageCopy) : Bool := c.precision == .milliseconds

def bucket (c : MessageCopy) : Bucket where
  isFromMe := c.isFromMe
  sender := senderKey c.isFromMe c.sender
  text := collapseWhitespace c.text
  vendorKey := (c.vendorKey.map trim).getD ""
  second := c.timestampUnixMs / 1000

/-- What a copy is placed by: attachments before none, milliseconds before whole
seconds, then the earliest time, then the digests. -/
def richness (c : MessageCopy) : Bool ×ₗ Bool ×ₗ Int ×ₗ List String :=
  toLex (c.digests.isEmpty, toLex (!c.exact, toLex (c.timestampUnixMs, c.digests)))

end MessageCopy

/-- A copy and its place in the input. -/
abbrev IndexedCopy := MessageCopy × Nat

/-- The order a bucket is gone through in: ties of richness fall back to the input order. -/
def rank (c : IndexedCopy) : (Bool ×ₗ Bool ×ₗ Int ×ₗ List String) ×ₗ Nat :=
  toLex (c.1.richness, c.2)

structure Kept where
  index : Nat
  timestampUnixMs : Int
  exact : Bool
  digests : List String
  deriving DecidableEq, Repr

namespace Kept

def new (c : IndexedCopy) : Kept := ⟨c.2, c.1.timestampUnixMs, c.1.exact, c.1.digests⟩

/-- Whether `c` is taken for the kept copy `k`. -/
def same (c : MessageCopy) (k : Kept) : Bool :=
  (!(k.exact && c.exact) || k.timestampUnixMs == c.timestampUnixMs) &&
    (c.digests.isEmpty || k.digests == c.digests)

/-- The kept copy with the time of `c`, when it has whole seconds only and `c` has more. -/
def upgrade (c : MessageCopy) (k : Kept) : Kept :=
  if !k.exact && c.exact then { k with timestampUnixMs := c.timestampUnixMs, exact := true }
  else k

/-- The precision of the time a kept copy keeps. -/
def precision (k : Kept) : TimePrecision := if k.exact then .milliseconds else .seconds

end Kept

/-- Takes `c` for the first kept copy it can be, or keeps it. -/
def place (kept : List Kept) (c : IndexedCopy) : List Kept :=
  match kept with
  | [] => [Kept.new c]
  | k :: rest => if k.same c.1 then k.upgrade c.1 :: rest else k :: place rest c

/-- The copies of one bucket that are kept. -/
def keptOf (members : List IndexedCopy) : List Kept :=
  (members.insertionSort (fun a b => rank a ≤ rank b)).foldl place []

/-- The copies kept of every bucket. -/
def keptCopies (w : Walk) (copies : List MessageCopy) : List Kept :=
  (w.order (group (fun c : IndexedCopy => c.1.bucket) copies.zipIdx)).flatMap
    (fun p => keptOf p.2)

/-- One entry for each of `n` copies: the time a kept one keeps. -/
def fates (n : Nat) (kept : List Kept) : List (Option Int) :=
  kept.foldl (fun fate k => fate.set k.index (some k.timestampUnixMs)) (List.replicate n none)

/-- Which copies of one conversation to keep: one entry per copy, the time in
milliseconds that a kept one keeps, `none` for a copy that repeats a kept one. -/
def oneCopyPerMessage (w : Walk) (copies : List MessageCopy) : List (Option Int) :=
  fates copies.length (keptCopies w copies)

example : oneCopyPerMessage Walk.inserted
    [⟨false, some "a", 5000, .seconds, "hi", [], none⟩,
      ⟨false, some "a", 5120, .milliseconds, "hi ", [], none⟩,
      ⟨false, some "a", 5130, .milliseconds, "hi", ["d"], none⟩] =
    [none, some 5120, some 5130] := by decide

/-! What placing one copy does. -/

namespace Kept

@[simp] theorem upgrade_index (c : MessageCopy) (k : Kept) : (k.upgrade c).index = k.index := by
  unfold upgrade; split <;> rfl

@[simp] theorem upgrade_digests (c : MessageCopy) (k : Kept) :
    (k.upgrade c).digests = k.digests := by
  unfold upgrade; split <;> rfl

theorem upgrade_of_exact {c : MessageCopy} {k : Kept} (h : k.exact = true) :
    k.upgrade c = k := by
  simp [upgrade, h]

/-- What being taken for a kept copy amounts to. -/
theorem same_iff {c : MessageCopy} {k : Kept} :
    k.same c = true ↔
      (k.exact = true → c.exact = true → k.timestampUnixMs = c.timestampUnixMs) ∧
        (c.digests = [] ∨ k.digests = c.digests) := by
  unfold same
  cases k.exact <;> cases c.exact <;> simp

end Kept

/-- **What placing a copy can do**: one kept copy it is taken for is upgraded, or it is
taken for none and is kept last. -/
theorem place_cases (kept : List Kept) (c : IndexedCopy) :
    (∃ before k after, kept = before ++ k :: after ∧ k.same c.1 = true ∧
      place kept c = before ++ k.upgrade c.1 :: after) ∨
    ((∀ k ∈ kept, k.same c.1 = false) ∧ place kept c = kept ++ [Kept.new c]) := by
  induction kept with
  | nil => exact .inr ⟨by simp, rfl⟩
  | cons k rest ih =>
    by_cases hk : k.same c.1 = true
    · exact .inl ⟨[], k, rest, rfl, hk, by simp [place, hk]⟩
    · rcases ih with ⟨before, k', after, rfl, hk', hplace⟩ | ⟨hnone, hplace⟩
      · exact .inl ⟨k :: before, k', after, rfl, hk', by simp [place, hk, hplace]⟩
      · refine .inr ⟨?_, by simp [place, hk, hplace]⟩
        intro k' hk'
        rcases List.mem_cons.mp hk' with rfl | hk'
        · exact Bool.eq_false_iff.mpr hk
        · exact hnone k' hk'

/-! One bucket. -/

/-- A kept copy that `c` repeats, or that is `c`: it keeps the time of `c` if `c` has
milliseconds, and the digests of `c` if `c` has any. -/
def Kept.Covers (k : Kept) (c : MessageCopy) : Prop :=
  (c.exact = true → k.exact = true ∧ k.timestampUnixMs = c.timestampUnixMs) ∧
    (c.digests = [] ∨ k.digests = c.digests)

/-- Two kept copies of one bucket that are one message: neither the times nor the
attachments tell them apart. -/
def Kept.Alias (k k' : Kept) : Prop :=
  (k.exact = true → k'.exact = true → k.timestampUnixMs = k'.timestampUnixMs) ∧
    (k.digests = [] ∨ k'.digests = [] ∨ k.digests = k'.digests)

theorem Kept.Alias.symm {k k' : Kept} (h : k.Alias k') : k'.Alias k :=
  ⟨fun h₁ h₂ => (h.1 h₂ h₁).symm, by
    rcases h.2 with h | h | h
    · exact .inr (.inl h)
    · exact .inl h
    · exact .inr (.inr h.symm)⟩

theorem covers_upgrade {k : Kept} {c c' : MessageCopy} (h : k.Covers c) :
    (k.upgrade c').Covers c := by
  refine ⟨fun hc => ?_, by simpa using h.2⟩
  rw [Kept.upgrade_of_exact (h.1 hc).1]
  exact h.1 hc

theorem covers_upgrade_self {k : Kept} {c : MessageCopy} (h : k.same c = true) :
    (k.upgrade c).Covers c := by
  obtain ⟨htimes, hdigests⟩ := Kept.same_iff.mp h
  refine ⟨fun hc => ?_, by simpa using hdigests⟩
  by_cases hk : k.exact = true
  · rw [Kept.upgrade_of_exact hk]
    exact ⟨hk, htimes hk hc⟩
  · simp [Kept.upgrade, hk, hc]

/-- An upgrade leaves what the attachments tell apart, and a copy with milliseconds
is never upgraded. -/
theorem alias_of_upgrade {k k' : Kept} {c : MessageCopy} (h : (k.upgrade c).Alias k') :
    k.Alias k' := by
  by_cases hk : k.exact = true
  · rwa [Kept.upgrade_of_exact hk] at h
  · exact ⟨fun hk' => absurd hk' hk, by simpa using h.2⟩

/-- What holds once the copies `seen` of one bucket are gone through. -/
structure KeptInv (seen : List IndexedCopy) (kept : List Kept) : Prop where
  covered : ∀ c ∈ seen, ∃ k ∈ kept, k.Covers c.1
  apart : kept.Pairwise (fun k k' => ¬ k.Alias k')
  indices : (kept.map Kept.index).Sublist (seen.map Prod.snd)
  origin : ∀ k ∈ kept, ∃ c ∈ seen, c.2 = k.index ∧ c.1.digests = k.digests
  time : ∀ k ∈ kept, ∃ c ∈ seen, c.1.timestampUnixMs = k.timestampUnixMs ∧ c.1.exact = k.exact

/-- Placing a copy keeps the invariant, when no copy with attachments comes after one
without. -/
theorem keptInv_place {seen : List IndexedCopy} {kept : List Kept} {c : IndexedCopy}
    (h : KeptInv seen kept) (hlast : ∀ s ∈ seen, s.1.digests = [] → c.1.digests = []) :
    KeptInv (seen ++ [c]) (place kept c) := by
  have hseen : ∀ {P : IndexedCopy → Prop}, (∃ s ∈ seen, P s) → ∃ s ∈ seen ++ [c], P s :=
    fun ⟨s, hs, hp⟩ => ⟨s, List.mem_append_left _ hs, hp⟩
  have hself : c ∈ seen ++ [c] := List.mem_append_right _ (List.mem_singleton_self c)
  rcases place_cases kept c with ⟨before, k, after, rfl, hsame, hplace⟩ | ⟨hnone, hplace⟩
  · rw [hplace]
    have hmem : ∀ {k'}, k' ∈ before ++ k.upgrade c.1 :: after →
        k' ∈ before ++ k :: after ∨ k' = k.upgrade c.1 := by
      intro k' hk'
      simp only [List.mem_append, List.mem_cons] at hk' ⊢
      tauto
    have hold : k ∈ before ++ k :: after := List.mem_append_right _ List.mem_cons_self
    have hnew : k.upgrade c.1 ∈ before ++ k.upgrade c.1 :: after :=
      List.mem_append_right _ List.mem_cons_self
    refine ⟨?_, ?_, ?_, ?_, ?_⟩
    · intro s hs
      rcases List.mem_append.mp hs with hs | hs
      · obtain ⟨k', hk', hcovers⟩ := h.covered s hs
        by_cases he : k' = k
        · exact ⟨_, hnew, covers_upgrade (he ▸ hcovers)⟩
        · refine ⟨k', ?_, hcovers⟩
          simp only [List.mem_append, List.mem_cons] at hk' ⊢
          tauto
      · rw [List.mem_singleton.mp hs]
        exact ⟨_, hnew, covers_upgrade_self hsame⟩
    · have hap := h.apart
      rw [List.pairwise_append, List.pairwise_cons] at hap ⊢
      obtain ⟨hbefore, ⟨hk, hafter⟩, hcross⟩ := hap
      refine ⟨hbefore, ⟨fun k' hk' ha => hk k' hk' (alias_of_upgrade ha), hafter⟩, ?_⟩
      intro k' hk' k'' hk'' ha
      rcases List.mem_cons.mp hk'' with rfl | hk''
      · exact hcross k' hk' k List.mem_cons_self (alias_of_upgrade ha.symm).symm
      · exact hcross k' hk' k'' (List.mem_cons_of_mem _ hk'') ha
    · have hindices := h.indices
      simp only [List.map_append, List.map_cons, Kept.upgrade_index] at hindices ⊢
      exact hindices.trans (List.sublist_append_left _ _)
    · intro k' hk'
      rcases hmem hk' with hk' | rfl
      · exact hseen (h.origin k' hk')
      · simpa using hseen (h.origin k hold)
    · intro k' hk'
      rcases hmem hk' with hk' | rfl
      · exact hseen (h.time k' hk')
      · unfold Kept.upgrade
        split
        · next hup => exact ⟨c, hself, rfl, by simp at hup; exact hup.2⟩
        · exact hseen (h.time k hold)
  · rw [hplace]
    have hmem : ∀ {k'}, k' ∈ kept ++ [Kept.new c] → k' ∈ kept ∨ k' = Kept.new c := by
      intro k' hk'
      simpa using hk'
    have hnew : Kept.new c ∈ kept ++ [Kept.new c] :=
      List.mem_append_right _ (List.mem_singleton_self _)
    refine ⟨?_, ?_, ?_, ?_, ?_⟩
    · intro s hs
      rcases List.mem_append.mp hs with hs | hs
      · obtain ⟨k', hk', hcovers⟩ := h.covered s hs
        exact ⟨k', List.mem_append_left _ hk', hcovers⟩
      · rw [List.mem_singleton.mp hs]
        exact ⟨_, hnew, fun hc => ⟨hc, rfl⟩, .inr rfl⟩
    · rw [List.pairwise_append]
      refine ⟨h.apart, List.pairwise_singleton _ _, ?_⟩
      intro k hk k' hk' ha
      obtain rfl := List.mem_singleton.mp hk'
      -- A kept copy without attachments is of the last copies, so `c` has none either.
      have hempty : k.digests = [] → c.1.digests = [] := by
        intro hkd
        obtain ⟨s, hs, -, hsd⟩ := h.origin k hk
        exact hlast s hs (hsd.trans hkd)
      have hsame : k.same c.1 = true := Kept.same_iff.mpr ⟨ha.1, by
        rcases ha.2 with hd | hd | hd
        · exact .inl (hempty hd)
        · exact .inl hd
        · exact .inr hd⟩
      exact absurd hsame (by simp [hnone k hk])
    · rw [List.map_append, List.map_append]
      exact h.indices.append (List.Sublist.refl _)
    · intro k' hk'
      rcases hmem hk' with hk' | rfl
      · exact hseen (h.origin k' hk')
      · exact ⟨c, hself, rfl, rfl⟩
    · intro k' hk'
      rcases hmem hk' with hk' | rfl
      · exact hseen (h.time k' hk')
      · exact ⟨c, hself, rfl, rfl⟩

theorem digests_eq_nil_of_rank_le {s c : IndexedCopy} (h : rank s ≤ rank c)
    (hs : s.1.digests = []) : c.1.digests = [] := by
  have hrich : s.1.richness ≤ c.1.richness := by
    rcases Prod.Lex.le_iff.mp h with hlt | ⟨heq, -⟩
    · exact hlt.le
    · exact heq.le
  have hempty : s.1.digests.isEmpty ≤ c.1.digests.isEmpty := by
    rcases Prod.Lex.le_iff.mp hrich with hlt | ⟨heq, -⟩
    · exact hlt.le
    · exact heq.le
  rw [hs] at hempty
  cases hc : c.1.digests with
  | nil => rfl
  | cons d ds => rw [hc] at hempty; exact absurd hempty (by simp)

theorem keptInv_foldl {members : List IndexedCopy}
    (hsorted : members.Pairwise (fun a b => rank a ≤ rank b)) :
    KeptInv members (members.foldl place []) := by
  induction members using List.reverseRecOn with
  | nil => exact ⟨by simp, List.Pairwise.nil, List.Sublist.refl _, by simp, by simp⟩
  | append_singleton seen c ih =>
    rw [List.pairwise_append] at hsorted
    rw [List.foldl_append]
    exact keptInv_place (ih hsorted.1) (fun s hs =>
      digests_eq_nil_of_rank_le (hsorted.2.2 s hs c (List.mem_singleton_self c)))

/-- **One bucket.** Every copy of it is covered by a kept one and no two kept ones are
one message. -/
theorem keptInv_keptOf (members : List IndexedCopy) :
    ∃ sorted : List IndexedCopy, sorted.Perm members ∧ KeptInv sorted (keptOf members) :=
  ⟨members.insertionSort (fun a b => rank a ≤ rank b), List.perm_insertionSort _ _,
    keptInv_foldl (List.pairwise_insertionSort _ _)⟩

/-! The order the copies are read in. -/

/-- Two kept copies that keep the same, whatever their places in the input. -/
def Kept.Alike (k k' : Kept) : Prop :=
  k.timestampUnixMs = k'.timestampUnixMs ∧ k.exact = k'.exact ∧ k.digests = k'.digests

theorem richness_inj {c c' : MessageCopy} (h : c.richness = c'.richness) :
    c.timestampUnixMs = c'.timestampUnixMs ∧ c.exact = c'.exact ∧ c.digests = c'.digests := by
  simp only [MessageCopy.richness, EmbeddingLike.apply_eq_iff_eq, Prod.mk.injEq,
    Bool.not_inj_iff] at h
  exact ⟨h.2.2.1, h.2.1, h.2.2.2⟩

theorem place_alike {c c' : IndexedCopy} (hc : c.1.richness = c'.1.richness) :
    ∀ {kept kept' : List Kept}, List.Forall₂ Kept.Alike kept kept' →
      List.Forall₂ Kept.Alike (place kept c) (place kept' c')
  | _, _, .nil => .cons (richness_inj hc) .nil
  | _, _, .cons (a := k) (b := k') hk hrest => by
    obtain ⟨htime, hexact, hdigests⟩ := richness_inj hc
    have hsame : k.same c.1 = k'.same c'.1 := by
      simp only [Kept.same, hk.1, hk.2.1, hk.2.2, htime, hexact, hdigests]
    simp only [place, hsame]
    split
    · refine .cons ?_ hrest
      simp only [Kept.upgrade, hk.2.1, hexact]
      split
      · exact ⟨htime, rfl, hk.2.2⟩
      · exact hk
    · exact .cons hk (place_alike hc hrest)

theorem foldl_place_alike {l l' : List IndexedCopy}
    (h : l.map (fun c => c.1.richness) = l'.map (fun c => c.1.richness)) :
    ∀ {kept kept' : List Kept}, List.Forall₂ Kept.Alike kept kept' →
      List.Forall₂ Kept.Alike (l.foldl place kept) (l'.foldl place kept') := by
  induction l generalizing l' with
  | nil =>
    obtain rfl : l' = [] := List.map_eq_nil_iff.mp h.symm
    exact id
  | cons c l ih =>
    cases l' with
    | nil => cases h
    | cons c' l' =>
      rw [List.map_cons, List.map_cons, List.cons.injEq] at h
      exact fun hkept => ih h.2 (place_alike h.1 hkept)

/-- **What a bucket keeps does not depend on the order its copies were read in.** -/
theorem keptOf_alike (g g' : List IndexedCopy) (h : (g.map Prod.fst).Perm (g'.map Prod.fst)) :
    List.Forall₂ Kept.Alike (keptOf g) (keptOf g') := by
  have hsorted : ∀ l : List IndexedCopy,
      ((l.insertionSort (fun a b => rank a ≤ rank b)).map
        (fun c => c.1.richness)).Pairwise (· ≤ ·) := by
    intro l
    rw [List.pairwise_map]
    refine (List.pairwise_insertionSort (fun a b => rank a ≤ rank b) l).imp ?_
    intro a b hab
    rcases Prod.Lex.le_iff.mp hab with hlt | ⟨heq, -⟩
    · exact hlt.le
    · exact heq.le
  have hperm : ∀ l : List IndexedCopy,
      ((l.insertionSort (fun a b => rank a ≤ rank b)).map (fun c => c.1.richness)).Perm
        ((l.map Prod.fst).map MessageCopy.richness) := by
    intro l
    rw [List.map_map]
    exact (List.perm_insertionSort _ l).map _
  apply foldl_place_alike _ .nil
  exact List.Perm.eq_of_pairwise (fun _ _ _ _ => le_antisymm) (hsorted g) (hsorted g')
    ((hperm g).trans ((h.map _).trans (hperm g').symm))

/-! The fates. -/

/-- What is kept of a message. -/
structure KeptRow where
  isFromMe : Bool
  sender : String
  text : String
  vendorKey : String
  digests : List String
  timestampUnixMs : Int
  deriving DecidableEq, Repr

/-- The copy `c`, kept with the time `t`. -/
def KeptRow.of (c : MessageCopy) (t : Int) : KeptRow where
  isFromMe := c.isFromMe
  sender := senderKey c.isFromMe c.sender
  text := collapseWhitespace c.text
  vendorKey := (c.vendorKey.map trim).getD ""
  digests := c.digests
  timestampUnixMs := t

/-- The kept copies as their exporter writes them: in the order of the input, each with
the time it keeps. -/
def keptRows (w : Walk) (copies : List MessageCopy) : List KeptRow :=
  (copies.zip (oneCopyPerMessage w copies)).filterMap (fun p => p.2.map (KeptRow.of p.1))

theorem fates_concat (n : Nat) (kept : List Kept) (k : Kept) :
    fates n (kept ++ [k]) = (fates n kept).set k.index (some k.timestampUnixMs) := by
  simp [fates]

@[simp] theorem length_fates (n : Nat) (kept : List Kept) : (fates n kept).length = n := by
  induction kept using List.reverseRecOn with
  | nil => simp [fates]
  | append_singleton kept k ih => rw [fates_concat, List.length_set, ih]

theorem fates_getElem? {n i : Nat} {kept : List Kept} (hn : i < n)
    (hnd : (kept.map Kept.index).Nodup) (f : Option Int) :
    (fates n kept)[i]? = some f ↔
      (∃ k ∈ kept, k.index = i ∧ f = some k.timestampUnixMs) ∨
        ((∀ k ∈ kept, k.index ≠ i) ∧ f = none) := by
  induction kept using List.reverseRecOn with
  | nil => simp [fates, hn, eq_comm]
  | append_singleton kept k ih =>
    rw [List.map_append, List.nodup_append] at hnd
    have hfresh : ∀ k' ∈ kept, k'.index ≠ k.index := fun k' hk' =>
      hnd.2.2 _ (List.mem_map_of_mem hk') _ (by simp)
    rw [fates_concat, List.getElem?_set, length_fates]
    by_cases hi : k.index = i
    · subst hi
      rw [if_pos rfl, if_pos hn]
      constructor
      · intro h
        exact .inl ⟨k, by simp, rfl, (Option.some.inj h).symm⟩
      · rintro (⟨k', hk', hk'i, rfl⟩ | ⟨hnone, -⟩)
        · rcases List.mem_append.mp hk' with hk' | hk'
          · exact absurd hk'i (hfresh k' hk')
          · rw [List.mem_singleton.mp hk']
        · exact absurd rfl (hnone k (by simp))
    · rw [if_neg hi, ih hnd.1]
      simp [or_and_right, exists_or, or_imp, forall_and, hi]

/-- Setting one more fate adds one more row. -/
theorem filterMap_zip_set {c : MessageCopy} {t : Int} :
    ∀ {i : Nat} {copies : List MessageCopy} {fate : List (Option Int)},
      copies[i]? = some c → fate[i]? = some none →
      ((copies.zip (fate.set i (some t))).filterMap
        (fun p => p.2.map (KeptRow.of p.1))).Perm
        (KeptRow.of c t :: (copies.zip fate).filterMap (fun p => p.2.map (KeptRow.of p.1)))
  | _, [], _, hc, _ => by simp at hc
  | _, _ :: _, [], _, hf => by simp at hf
  | 0, c' :: copies, f :: fate, hc, hf => by
    obtain rfl : c' = c := by simpa using hc
    obtain rfl : f = none := by simpa using hf
    simp
  | i + 1, c' :: copies, f :: fate, hc, hf => by
    have ih := @filterMap_zip_set c t i copies fate (by simpa using hc) (by simpa using hf)
    rw [List.set_cons_succ, List.zip_cons_cons, List.zip_cons_cons]
    cases f with
    | none => simpa using ih
    | some t' => simpa using (ih.cons _).trans (List.Perm.swap _ _ _)

theorem filterMap_zip_fates {copies : List MessageCopy} {kept : List Kept}
    (hnd : (kept.map Kept.index).Nodup) (hlt : ∀ k ∈ kept, k.index < copies.length) :
    ((copies.zip (fates copies.length kept)).filterMap
      (fun p => p.2.map (KeptRow.of p.1))).Perm
      (kept.filterMap (fun k => copies[k.index]?.map (fun c => KeptRow.of c k.timestampUnixMs)))
      := by
  induction kept using List.reverseRecOn with
  | nil =>
    have : ∀ l : List MessageCopy, ∀ n, (l.zip (List.replicate n (none : Option Int))).filterMap
        (fun p => p.2.map (KeptRow.of p.1)) = [] := by
      intro l n
      rw [List.filterMap_eq_nil_iff]
      intro p hp
      rw [List.eq_of_mem_replicate (List.of_mem_zip hp).2]
      rfl
    simp [fates, this]
  | append_singleton kept k ih =>
    have hk : k.index < copies.length := hlt k (by simp)
    rw [List.map_append, List.nodup_append] at hnd
    have hfresh : (fates copies.length kept)[k.index]? = some none :=
      (fates_getElem? hk hnd.1 none).mpr (.inr ⟨fun k' hk' =>
        hnd.2.2 _ (List.mem_map_of_mem hk') _ (by simp), rfl⟩)
    rw [fates_concat, List.filterMap_append]
    refine (filterMap_zip_set (List.getElem?_eq_getElem hk) hfresh).trans ?_
    have hlast : [k].filterMap
        (fun k => copies[k.index]?.map (fun c => KeptRow.of c k.timestampUnixMs)) =
        [KeptRow.of copies[k.index] k.timestampUnixMs] := by
      simp [List.getElem?_eq_getElem hk]
    rw [hlast]
    exact ((ih hnd.1 (fun k' hk' => hlt k' (List.mem_append_left _ hk'))).cons _).trans
      (List.perm_append_singleton _ _).symm

/-! A whole conversation. -/

/-- The copies of one conversation by bucket. -/
def buckets (copies : List MessageCopy) : List (Bucket × List IndexedCopy) :=
  group (fun c : IndexedCopy => c.1.bucket) copies.zipIdx

theorem mem_buckets {copies : List MessageCopy} {b : Bucket} {g : List IndexedCopy}
    (h : (b, g) ∈ buckets copies) {c : IndexedCopy} (hc : c ∈ g) :
    copies[c.2]? = some c.1 ∧ c.1.bucket = b := by
  obtain ⟨hmem, hkey⟩ := mem_of_mem_group h hc
  exact ⟨List.mem_zipIdx_iff_getElem?.mp hmem, hkey⟩

theorem mem_keptCopies {w : Walk} {copies : List MessageCopy} {k : Kept} :
    k ∈ keptCopies w copies ↔ ∃ b g, (b, g) ∈ buckets copies ∧ k ∈ keptOf g := by
  unfold keptCopies
  rw [List.mem_flatMap]
  constructor
  · rintro ⟨⟨b, g⟩, hg, hk⟩
    exact ⟨b, g, (w.perm _).mem_iff.mp hg, hk⟩
  · rintro ⟨b, g, hg, hk⟩
    exact ⟨(b, g), (w.perm _).mem_iff.mpr hg, hk⟩

/-- A copy kept of a bucket is one of the bucket's copies, with a time of its second. -/
theorem kept_origin {copies : List MessageCopy} {b : Bucket} {g : List IndexedCopy} {k : Kept}
    (hg : (b, g) ∈ buckets copies) (hk : k ∈ keptOf g) :
    ∃ c, copies[k.index]? = some c ∧ c.bucket = b ∧ c.digests = k.digests ∧
      k.timestampUnixMs / 1000 = b.second := by
  obtain ⟨sorted, hperm, hinv⟩ := keptInv_keptOf g
  obtain ⟨c, hc, hindex, hdigests⟩ := hinv.origin k hk
  obtain ⟨s, hs, htime, -⟩ := hinv.time k hk
  obtain ⟨hget, hbucket⟩ := mem_buckets hg (hperm.mem_iff.mp hc)
  obtain ⟨-, hbucket'⟩ := mem_buckets hg (hperm.mem_iff.mp hs)
  refine ⟨c.1, hindex ▸ hget, hbucket, hdigests, ?_⟩
  rw [← htime, ← hbucket']
  rfl

theorem nodup_kept_indices (w : Walk) (copies : List MessageCopy) :
    ((keptCopies w copies).map Kept.index).Nodup := by
  unfold keptCopies
  rw [List.map_flatMap, List.nodup_flatMap]
  constructor
  · rintro ⟨b, g⟩ hg
    have hg : (b, g) ∈ buckets copies := (w.perm _).mem_iff.mp hg
    obtain ⟨sorted, hperm, hinv⟩ := keptInv_keptOf g
    refine hinv.indices.nodup ((hperm.map _).nodup_iff.mpr ?_)
    have hsub : (g.map Prod.snd).Sublist (copies.zipIdx.map Prod.snd) := by
      rw [(mem_group.mp hg).1]
      exact List.filter_sublist.map _
    refine hsub.nodup ?_
    rw [List.zipIdx_map_snd]
    exact List.nodup_range'
  · have hkeys : (w.order (buckets copies)).Pairwise (fun p q => p.1 ≠ q.1) := by
      rw [← List.pairwise_map (R := (· ≠ ·))]
      exact ((w.perm _).map _).nodup_iff.mpr (group_keys_nodup _ _)
    refine List.Pairwise.imp_of_mem ?_ hkeys
    rintro ⟨b, g⟩ ⟨b', g'⟩ hg hg' hne i hi hi'
    obtain ⟨k, hk, rfl⟩ := List.mem_map.mp hi
    obtain ⟨k', hk', hindex⟩ := List.mem_map.mp hi'
    obtain ⟨c, hc, hb, -⟩ := kept_origin ((w.perm _).mem_iff.mp hg) hk
    obtain ⟨c', hc', hb', -⟩ := kept_origin ((w.perm _).mem_iff.mp hg') hk'
    rw [hindex, hc] at hc'
    cases hc'
    exact hne (hb.symm.trans hb')

/-- Whether `c`, dropped, repeats `c'`, kept with the time `t`: the direction, the
sender, the text, the vendor key and the second agree; the times agree unless `c` has
whole seconds only; and so do the attachments unless `c` has none. -/
structure Repeats (c c' : MessageCopy) (t : Int) : Prop where
  direction : c.isFromMe = c'.isFromMe
  sender : senderKey c.isFromMe c.sender = senderKey c'.isFromMe c'.sender
  text : collapseWhitespace c.text = collapseWhitespace c'.text
  vendor : (c.vendorKey.map trim).getD "" = (c'.vendorKey.map trim).getD ""
  second : c.timestampUnixMs / 1000 = c'.timestampUnixMs / 1000 ∧
    c.timestampUnixMs / 1000 = t / 1000
  times : c.precision = .seconds ∨ c.timestampUnixMs = t
  attachments : c.digests = [] ∨ c.digests = c'.digests

/-- The rule: whether `c` at the time `t` with the precision `p` and `c'` at `t'` with
`p'` are one message. -/
structure OneMessage (c : MessageCopy) (t : Int) (p : TimePrecision)
    (c' : MessageCopy) (t' : Int) (p' : TimePrecision) : Prop where
  direction : c.isFromMe = c'.isFromMe
  sender : senderKey c.isFromMe c.sender = senderKey c'.isFromMe c'.sender
  text : collapseWhitespace c.text = collapseWhitespace c'.text
  vendor : (c.vendorKey.map trim).getD "" = (c'.vendorKey.map trim).getD ""
  second : t / 1000 = t' / 1000
  times : p = .seconds ∨ p' = .seconds ∨ t = t'
  attachments : c.digests = [] ∨ c'.digests = [] ∨ c.digests = c'.digests

/-- The copy at `i` is `c` and is kept with the time `t`, known to the precision `p`. -/
def KeptAt (w : Walk) (copies : List MessageCopy) (i : Nat) (c : MessageCopy) (t : Int)
    (p : TimePrecision) : Prop :=
  copies[i]? = some c ∧
    ∃ k ∈ keptCopies w copies, k.index = i ∧ k.timestampUnixMs = t ∧ k.precision = p

theorem index_lt_of_mem_keptCopies {w : Walk} {copies : List MessageCopy} {k : Kept}
    (h : k ∈ keptCopies w copies) : k.index < copies.length := by
  obtain ⟨b, g, hg, hk⟩ := mem_keptCopies.mp h
  obtain ⟨c, hc, -⟩ := kept_origin hg hk
  exact (List.getElem?_eq_some_iff.mp hc).1

/-- The fate of a copy is the time it is kept with. -/
theorem fate_eq_some_iff {w : Walk} {copies : List MessageCopy} {i : Nat} {t : Int} :
    (oneCopyPerMessage w copies)[i]? = some (some t) ↔ ∃ c p, KeptAt w copies i c t p := by
  constructor
  · intro h
    have hi : i < copies.length := by
      have := (List.getElem?_eq_some_iff.mp h).1
      simpa [oneCopyPerMessage] using this
    rcases (fates_getElem? hi (nodup_kept_indices w copies) _).mp h with
      ⟨k, hk, hki, ht⟩ | ⟨-, ht⟩
    · exact ⟨copies[i], k.precision, List.getElem?_eq_getElem hi, k, hk, hki,
        (Option.some.inj ht).symm, rfl⟩
    · cases ht
  · rintro ⟨c, p, hc, k, hk, hki, ht, -⟩
    have hi : i < copies.length := (List.getElem?_eq_some_iff.mp hc).1
    exact (fates_getElem? hi (nodup_kept_indices w copies) _).mpr (.inl ⟨k, hk, hki, by rw [ht]⟩)

/-- The rows kept, bucket by bucket. -/
theorem keptRows_perm_buckets (w : Walk) (copies : List MessageCopy) :
    (keptRows w copies).Perm ((buckets copies).flatMap (fun p => (keptOf p.2).map (fun k =>
      (⟨p.1.isFromMe, p.1.sender, p.1.text, p.1.vendorKey, k.digests, k.timestampUnixMs⟩ :
        KeptRow)))) := by
  have hrow : ∀ p ∈ buckets copies,
      (keptOf p.2).filterMap
        (fun k => copies[k.index]?.map (fun c => KeptRow.of c k.timestampUnixMs)) =
      (keptOf p.2).map (fun k =>
        ⟨p.1.isFromMe, p.1.sender, p.1.text, p.1.vendorKey, k.digests, k.timestampUnixMs⟩) := by
    rintro ⟨b, g⟩ hg
    rw [← List.filterMap_eq_map]
    apply List.filterMap_congr
    intro k hk
    obtain ⟨c, hc, rfl, hdigests, -⟩ := kept_origin hg hk
    simp [hc, KeptRow.of, MessageCopy.bucket, hdigests]
  refine (filterMap_zip_fates (nodup_kept_indices w copies)
    (fun k hk => index_lt_of_mem_keptCopies hk)).trans ?_
  unfold keptCopies
  rw [List.filterMap_flatMap]
  refine ((w.perm _).flatMap_right _).trans (List.Perm.flatMap_left _ ?_)
  intro p hp
  rw [hrow p hp]

/-- **The rows kept do not depend on the order the copies are read in**, nor on the order
the map hands its buckets out. -/
theorem kept_rows_perm (w w' : Walk) {copies copies' : List MessageCopy}
    (h : copies.Perm copies') : (keptRows w copies).Perm (keptRows w' copies') := by
  refine (keptRows_perm_buckets w copies).trans
    (List.Perm.trans ?_ (keptRows_perm_buckets w' copies').symm)
  unfold buckets
  rw [flatMap_group (f := fun (b : Bucket) g => (keptOf g).map (fun k =>
      (⟨b.isFromMe, b.sender, b.text, b.vendorKey, k.digests, k.timestampUnixMs⟩ : KeptRow))),
    flatMap_group (f := fun (b : Bucket) g => (keptOf g).map (fun k =>
      (⟨b.isFromMe, b.sender, b.text, b.vendorKey, k.digests, k.timestampUnixMs⟩ : KeptRow)))]
  have hfst : ∀ (l : List MessageCopy) (b : Bucket),
      (l.zipIdx.filter (fun c => c.1.bucket = b)).map Prod.fst =
        l.filter (fun c => c.bucket = b) := by
    intro l b
    conv_rhs => rw [← List.zipIdx_map_fst 0 l, List.filter_map]
    rfl
  have hkeys : ∀ (l : List MessageCopy) (b : Bucket),
      (∃ c ∈ l.zipIdx, c.1.bucket = b) ↔ ∃ c ∈ l, c.bucket = b := by
    intro l b
    constructor
    · rintro ⟨c, hc, hb⟩
      exact ⟨c.1, List.mem_of_getElem? (List.mem_zipIdx_iff_getElem?.mp hc), hb⟩
    · rintro ⟨c, hc, hb⟩
      obtain ⟨i, hi⟩ := List.getElem?_of_mem hc
      exact ⟨(c, i), List.mem_zipIdx_iff_getElem?.mpr hi, hb⟩
  refine List.Perm.flatMap (group_keys_perm fun b => ?_) (fun b _ => ?_)
  · rw [hkeys, hkeys]
    simp only [h.mem_iff]
  · have halike := keptOf_alike
      (copies.zipIdx.filter (fun c => c.1.bucket = b))
      (copies'.zipIdx.filter (fun c => c.1.bucket = b))
      (by rw [hfst, hfst]; exact h.filter _)
    refine List.Perm.of_eq ?_
    rw [← List.forall₂_eq_eq_eq, List.forall₂_map_left_iff, List.forall₂_map_right_iff]
    exact halike.imp (fun k k' hk => by rw [hk.1, hk.2.2])

/-- **A copy that is dropped repeats a kept one.** So does a kept one: itself. -/
theorem repeats_kept {w : Walk} {copies : List MessageCopy} {i : Nat} {c : MessageCopy}
    (hc : copies[i]? = some c) :
    ∃ (j : Nat) (c' : MessageCopy) (t : Int), copies[j]? = some c' ∧ (oneCopyPerMessage w copies)[j]? = some (some t) ∧
      Repeats c c' t := by
  have hmem : (c, i) ∈ copies.zipIdx := List.mem_zipIdx_iff_getElem?.mpr hc
  have hg : (c.bucket, copies.zipIdx.filter (fun c' => c'.1.bucket = c.bucket)) ∈
      buckets copies :=
    mem_group.mpr ⟨rfl, List.ne_nil_of_mem (List.mem_filter.mpr ⟨hmem, by simp⟩)⟩
  obtain ⟨sorted, hperm, hinv⟩ := keptInv_keptOf
    (copies.zipIdx.filter (fun c' => c'.1.bucket = c.bucket))
  obtain ⟨k, hk, hcovers⟩ := hinv.covered (c, i)
    (hperm.mem_iff.mpr (List.mem_filter.mpr ⟨hmem, by simp⟩))
  obtain ⟨c', hc', hbucket, hdigests, hsecond⟩ := kept_origin hg hk
  refine ⟨k.index, c', k.timestampUnixMs, hc', fate_eq_some_iff.mpr
    ⟨c', k.precision, hc', k, mem_keptCopies.mpr ⟨_, _, hg, hk⟩, rfl, rfl, rfl⟩, ?_⟩
  exact {
    direction := congrArg Bucket.isFromMe hbucket.symm
    sender := congrArg Bucket.sender hbucket.symm
    text := congrArg Bucket.text hbucket.symm
    vendor := congrArg Bucket.vendorKey hbucket.symm
    second := ⟨congrArg Bucket.second hbucket.symm, hsecond.symm⟩
    times := by
      cases hp : c.precision with
      | seconds => exact .inl rfl
      | milliseconds => exact .inr (hcovers.1 (by simp [MessageCopy.exact, hp])).2.symm
    attachments := hcovers.2.imp id (fun h => by rw [hdigests, h]) }

/-- **No two kept copies are one message.** -/
theorem not_oneMessage_of_kept {w : Walk} {copies : List MessageCopy} {i j : Nat}
    {c c' : MessageCopy} {t t' : Int} {p p' : TimePrecision} (hij : i ≠ j)
    (h : KeptAt w copies i c t p) (h' : KeptAt w copies j c' t' p') :
    ¬ OneMessage c t p c' t' p' := by
  intro hone
  obtain ⟨hc, k, hk, rfl, rfl, rfl⟩ := h
  obtain ⟨hc', k', hk', rfl, rfl, rfl⟩ := h'
  obtain ⟨b, g, hg, hkg⟩ := mem_keptCopies.mp hk
  obtain ⟨b', g', hg', hkg'⟩ := mem_keptCopies.mp hk'
  obtain ⟨c₀, hc₀, rfl, hdigests, hsecond⟩ := kept_origin hg hkg
  obtain ⟨c₀', hc₀', rfl, hdigests', hsecond'⟩ := kept_origin hg' hkg'
  rw [hc] at hc₀
  rw [hc'] at hc₀'
  cases hc₀
  cases hc₀'
  have hbucket : c.bucket = c'.bucket := by
    have hsec : c.bucket.second = c'.bucket.second := by
      rw [← hsecond, ← hsecond', hone.second]
    unfold MessageCopy.bucket at hsec ⊢
    simp only [Bucket.mk.injEq]
    exact ⟨hone.direction, hone.sender, hone.text, hone.vendor, hsec⟩
  obtain rfl : g = g' := by
    rw [(mem_group.mp hg).1, (mem_group.mp hg').1, hbucket]
  obtain ⟨sorted, -, hinv⟩ := keptInv_keptOf g
  have hne : k ≠ k' := fun he => hij (he ▸ rfl)
  have : Std.Symm (fun k k' : Kept => ¬ k.Alias k') := ⟨fun _ _ h ha => h ha.symm⟩
  refine hinv.apart.forall hkg hkg' hne ⟨fun hk hk' => ?_, ?_⟩
  · have htimes := hone.times
    simpa [Kept.precision, hk, hk'] using htimes
  · rw [← hdigests, ← hdigests']
    exact hone.attachments

/-- A kept copy's time is known to the millisecond only where a copy of its bucket
recorded that time so. -/
theorem kept_precision {w : Walk} {copies : List MessageCopy} {i : Nat} {c : MessageCopy}
    {t : Int} {p : TimePrecision} (h : KeptAt w copies i c t p) :
    ∃ s ∈ copies, s.bucket = c.bucket ∧ s.timestampUnixMs = t ∧ s.precision = p := by
  obtain ⟨hc, k, hk, rfl, rfl, rfl⟩ := h
  obtain ⟨b, g, hg, hkg⟩ := mem_keptCopies.mp hk
  obtain ⟨c₀, hc₀, hbucket, -⟩ := kept_origin hg hkg
  rw [hc] at hc₀
  cases hc₀
  obtain ⟨sorted, hperm, hinv⟩ := keptInv_keptOf g
  obtain ⟨s, hs, htime, hexact⟩ := hinv.time k hkg
  obtain ⟨hget, hbucket'⟩ := mem_buckets hg (hperm.mem_iff.mp hs)
  refine ⟨s.1, List.mem_of_getElem? hget, hbucket'.trans hbucket.symm, htime, ?_⟩
  unfold Kept.precision
  rw [← hexact]
  cases hp : s.1.precision <;> simp [MessageCopy.exact, hp]

/-- **One copy per message, whatever the read order.** For every list of copies of one
conversation, every rearrangement of it and every order the buckets are handed out in:
the same rows are kept; a dropped copy repeats a kept one; and no two kept copies are one
message at the times and precisions they keep, which are those of a copy of the message. -/
theorem one_copy_per_message_correct (w w' : Walk) {copies copies' : List MessageCopy}
    (h : copies.Perm copies') :
    (keptRows w copies).Perm (keptRows w' copies') ∧
    (∀ (i : Nat) (t : Int), (oneCopyPerMessage w copies)[i]? = some (some t) ↔
      ∃ c p, KeptAt w copies i c t p) ∧
    (∀ (i : Nat) (c : MessageCopy), copies[i]? = some c →
      (oneCopyPerMessage w copies)[i]? = some none →
      ∃ (j : Nat) (c' : MessageCopy) (t : Int), copies[j]? = some c' ∧
        (oneCopyPerMessage w copies)[j]? = some (some t) ∧ Repeats c c' t) ∧
    (∀ (i j : Nat) (c c' : MessageCopy) (t t' : Int) (p p' : TimePrecision), i ≠ j →
      KeptAt w copies i c t p → KeptAt w copies j c' t' p' →
      ¬ OneMessage c t p c' t' p') ∧
    (∀ (i : Nat) (c : MessageCopy) (t : Int) (p : TimePrecision), KeptAt w copies i c t p →
      ∃ s ∈ copies, s.bucket = c.bucket ∧ s.timestampUnixMs = t ∧ s.precision = p) :=
  ⟨kept_rows_perm w w' h, fun _ _ => fate_eq_some_iff, fun _ _ hc _ => repeats_kept hc,
    fun _ _ _ _ _ _ _ _ hij hk hk' => not_oneMessage_of_kept hij hk hk',
    fun _ _ _ _ hk => kept_precision hk⟩

/-- An MMS written once with its attachment and once, to the second, without. -/
theorem one_copy_per_message_correct_mms :
    (keptRows Walk.inserted
      [⟨false, some "a", 5000, .seconds, "hi", [], none⟩,
        ⟨false, some "a ", 5130, .milliseconds, "hi", ["d"], none⟩]).Perm
      (keptRows Walk.inserted
        [⟨false, some "a ", 5130, .milliseconds, "hi", ["d"], none⟩,
          ⟨false, some "a", 5000, .seconds, "hi", [], none⟩]) ∧
    oneCopyPerMessage Walk.inserted
      [⟨false, some "a", 5000, .seconds, "hi", [], none⟩,
        ⟨false, some "a ", 5130, .milliseconds, "hi", ["d"], none⟩] = [none, some 5130] :=
  ⟨(one_copy_per_message_correct Walk.inserted Walk.inserted (List.Perm.swap _ _ _)).1,
    by decide⟩

end MessageCrate

import MessageCrate.Formats.References

/- Character references are decoded one by one.

   1. `Cut.unique`: an attribute is cut at its references in one way. What stands before the
      first of them, and what is made of it, is settled by the text (`Cut.first`).
   2. `pushReference_spec`: a reference is taken as the cut takes it, with the low half that
      directly follows a high one and with nothing else.
   3. `decodeLoop_spec`: the text between the two cursors is plain, so the loop decodes what is
      left as it is cut, and every slice it takes is between two characters. -/
namespace MessageCrate.Sbr

open Utf8

/-! Where the text before a reference ends. -/

/-- A reference starts with `&#`. -/
theorem Written.starts {n : Nat} {w : List Char} (h : Written n w) (rest : List Char) :
    ['&', '#'] <+: w ++ rest := by
  cases h with
  | decimal _ _ => exact ⟨_, rfl⟩
  | hex _ _ _ => exact ⟨_, rfl⟩

theorem unreferenced_of_notPrefix {s : List Char} (h : ¬ ['&', '#'] <+: s) : Unreferenced s := by
  rintro n w rest hw rfl
  exact h (hw.starts rest)

theorem findReference_none {s : List Char} (h : findReference s = none) : PlainBefore s [] := by
  have hnone := Text.splitOnceChars_none (Option.map_eq_none_iff.mp h)
  intro a b hab hne
  rw [List.append_nil]
  exact unreferenced_of_notPrefix (hnone a b hab hne)

theorem findReference_some {s : List Char} {offset : Nat} (h : findReference s = some offset) :
    ∃ a b, s = a ++ ('&' :: '#' :: b) ∧ offset = size a ∧ PlainBefore a ('&' :: '#' :: b) := by
  obtain ⟨⟨x, y⟩, hxy, rfl⟩ := Option.map_eq_some_iff.mp h
  obtain ⟨hs, hfirst⟩ := Text.splitOnceChars_first (by simp) hxy
  exact ⟨x, y, hs, rfl, fun a b hab hne => unreferenced_of_notPrefix (hfirst a b hab hne)⟩

theorem PlainBefore.append {mid run after : List Char} (h : PlainBefore mid (run ++ after))
    (h' : PlainBefore run after) : PlainBefore (mid ++ run) after := by
  intro a b hab hne
  rcases List.append_eq_append_iff.mp hab with ⟨x, rfl, rfl⟩ | ⟨x, rfl, rfl⟩
  · exact h' x b rfl hne
  · rcases eq_or_ne x [] with rfl | hx
    · exact h' [] run rfl (by simpa using hne)
    · rw [List.append_assoc]
      exact h a x rfl hx

/-- A `&#` that starts no reference is plain, and so is its `#`. -/
theorem plainBefore_malformed {b : List Char} (h : Unreferenced ('&' :: '#' :: b)) :
    PlainBefore ['&', '#'] b := by
  intro a c hac hne
  rcases a with - | ⟨d, - | ⟨e, a⟩⟩
  · rw [List.nil_append] at hac
    subst hac
    exact h
  · obtain ⟨-, rfl⟩ := List.cons.inj hac
    apply unreferenced_of_notPrefix
    rintro ⟨t, ht⟩
    simp at ht
  · simp at hac
    exact absurd hac.2.2.2 hne

/-! The loop. -/

theorem fromU32_min (n : Nat) : fromU32 (min n u32Max) = fromU32 n := by
  rcases Nat.le_total n u32Max with hle | hle
  · rw [Nat.min_eq_left hle]
  · have hmax : u32Max = 4294967295 := rfl
    have hbig : ¬ n.isValidChar := by
      rintro (h | ⟨-, h⟩)
      · omega
      · omega
    rw [Nat.min_eq_right hle, fromU32, fromU32, if_neg hbig, if_neg (by decide)]

/-- **One reference's character.** It is the pair's where a low half directly follows a high
one, and then the low half is read with it; otherwise it is the reference's own. -/
theorem character_spec (before rest : List Char) (n : Nat) :
    (∃ c low w' rest', Written low w' ∧ rest = w' ++ rest' ∧ utf16 c = [n, low] ∧ c ≠ '\x00' ∧
      character (before ++ rest) (min n u32Max) (size before) =
        some (some c, size before + size w')) ∨
    (Single n rest ∧
      character (before ++ rest) (min n u32Max) (size before) = some (fromU32 n, size before)) := by
  have hmax : u32Max = 4294967295 := rfl
  by_cases hhigh : 0xD800 ≤ n ∧ n ≤ 0xDBFF
  · have hcode : min n u32Max = n := by omega
    have hnone : fromU32 n = none := by
      rw [fromU32, if_neg]
      rintro (h | ⟨h, -⟩)
      · omega
      · omega
    by_cases hlow : ∃ low w' rest', Written low w' ∧ rest = w' ++ rest' ∧
        0xDC00 ≤ low ∧ low ≤ 0xDFFF
    · obtain ⟨low, w', rest', hw', rfl, hlow⟩ := hlow
      obtain ⟨c, hc, hunits, hnul⟩ := fromU32_pair hhigh hlow
      have hlowCode : min low u32Max = low := by omega
      refine .inl ⟨c, low, w', rest', hw', rfl, hunits, hnul, ?_⟩
      rw [hcode, character, if_pos hhigh]
      simp [dropBytes_size, numericReference_written hw', hlowCode, Option.filter, hlow, hc]
    · refine .inr ⟨?_, ?_⟩
      · intro low w' rest' c hw' hrest hunits
        have hbounds := utf16_pair hunits
        exact hlow ⟨low, w', rest', hw', hrest, by omega⟩
      · rw [hcode, character, if_pos hhigh, hnone]
        by_cases href : Unreferenced rest
        · simp [dropBytes_size, numericReference_unreferenced href]
        · obtain ⟨m, w', rest', hw', rfl⟩ : ∃ m w' rest', Written m w' ∧ rest = w' ++ rest' := by
            simpa [Unreferenced] using href
          have hm : ¬ (0xDC00 ≤ min m u32Max ∧ min m u32Max ≤ 0xDFFF) :=
            fun h => hlow ⟨m, w', rest', hw', rfl, by omega⟩
          have hread := numericReference_written hw' rest'
          generalize min m u32Max = next at hread hm
          simp [dropBytes_size, hread, Option.filter, hm]
  · refine .inr ⟨?_, ?_⟩
    · intro low w' rest' c _ _ hunits
      have hbounds := utf16_pair hunits
      omega
    · rw [character, if_neg (by omega), fromU32_min]

@[simp]
theorem Pieces.text_before (html : List Char → List Char) (p : Pieces) (run : List Char)
    (ch : Option Char) : (p.before run ch).text html = html run ++ ch.toList ++ p.text html := by
  simp [Pieces.text, Pieces.before]

@[simp]
theorem Pieces.dropped_before (p : Pieces) (run : List Char) (ch : Option Char) :
    (p.before run ch).dropped = p.dropped + if ch.isNone then 1 else 0 := by
  simp [Pieces.dropped, Pieces.before, List.countP_cons]

theorem plainBefore_nil (after : List Char) : PlainBefore [] after := by
  intro a b hab hne
  exact absurd (List.append_eq_nil_iff.mp hab.symm).2 hne

section loop
variable (html : List Char → List Char)

/-- What the loop owes from where it stands: the text not yet decoded is cut, and decoded as
it is cut. -/
def Decodes (html : List Char → List Char) (s : Decoding) (rest : List Char)
    (result : Option (List Char × Nat)) : Prop :=
  ∃ p, Cut rest p ∧ result = some (s.out ++ p.text html, s.dropped + p.dropped)

theorem cut_own {run w rest : List Char} {n : Nat} {p : Pieces} (hplain : PlainBefore run (w ++ rest))
    (hw : Written n w) (hsingle : Single n rest) (hrest : Cut rest p) :
    Cut (run ++ (w ++ rest)) (p.before run ((fromU32 n).filter (· ≠ '\x00'))) := by
  rw [fromU32]
  split
  · next hvalid =>
    have hnat : (Char.ofNat n).toNat = n := by rw [Char.toNat_ofNat, if_pos hvalid]
    generalize Char.ofNat n = c at *
    subst hnat
    rw [Option.filter_some]
    by_cases hc : c = '\x00'
    · subst hc
      exact .drop hplain hw (.inl rfl) hsingle hrest
    · rw [if_pos (by simpa using hc)]
      exact .char hplain hw hc hrest
  · next hvalid => exact .drop hplain hw (.inr hvalid) hsingle hrest

/-- A reference is taken as the cut takes it, and the loop goes on behind it. -/
theorem pushReference_spec {before run w after : List Char} {n : Nat} {s : Decoding}
    (hplain : s.plain = size before) (hrun : PlainBefore run (w ++ after)) (hw : Written n w) :
    ∃ ch used rest, w ++ after = used ++ rest ∧ used ≠ [] ∧
      pushReference html (before ++ (run ++ (w ++ after))) s (size before + size run)
          (min n u32Max) (size w) =
        some ⟨s.out ++ html run ++ ch.toList, s.dropped + if ch.isNone then 1 else 0,
          size (before ++ (run ++ used)), size (before ++ (run ++ used))⟩ ∧
      ∀ p, Cut rest p → Cut (run ++ (w ++ after)) (p.before run ch) := by
  have hstop : size before + size run + size w = size (before ++ (run ++ w)) := by
    simp [Nat.add_assoc]
  have hraw : before ++ (run ++ (w ++ after)) = (before ++ (run ++ w)) ++ after := by simp
  have hslice : slice ((before ++ (run ++ w)) ++ after) s.plain (size before + size run) = some run := by
    rw [← hraw, hplain, slice_between]
  rw [pushReference, hstop, hraw, hslice]
  rcases character_spec (before ++ (run ++ w)) after n with
    ⟨c, low, w', rest, hw', rfl, hunits, hnul, hchar⟩ | ⟨hsingle, hchar⟩
  · refine ⟨some c, w ++ w', rest, by simp, ?_, ?_, ?_⟩
    · simp [hw.ne_nil]
    · have hend : size (before ++ (run ++ w)) + size w' = size (before ++ (run ++ (w ++ w'))) := by
        simp [Nat.add_assoc]
      simp only [hchar, Option.bind_eq_bind, Option.bind_some, hend]
      simp [Option.filter, hnul]
    · intro p hp
      exact .pair hrun hw hw' hunits hp
  · refine ⟨(fromU32 n).filter (· ≠ '\x00'), w, after, rfl, hw.ne_nil, ?_, ?_⟩
    · simp only [hchar, Option.bind_eq_bind, Option.bind_some]
      cases (fromU32 n).filter (· ≠ '\x00') with
      | some c => simp
      | none => simp
    · intro p hp
      exact cut_own hrun hw hsingle hp

/-- **The loop decodes the rest of the attribute as it is cut.** By induction on the turns:
what stands between the two cursors (`mid`) is plain, and every turn moves the second. -/
theorem decodeLoop_spec : ∀ (turns : Nat) (before mid rest : List Char) {s : Decoding},
    s.plain = size before → s.start = size before + size mid → PlainBefore mid rest →
    size rest < turns →
    Decodes html s (mid ++ rest) (decodeLoop html (before ++ (mid ++ rest)) turns s)
  | 0, _, _, _, _, _, _, _, hturns => by omega
  | turns + 1, before, mid, rest, s, hplain, hstart, hmid, hturns => by
    have hrest : dropBytes s.start (before ++ (mid ++ rest)) = some rest := by
      rw [hstart, ← size_append, ← List.append_assoc, dropBytes_size]
    rw [decodeLoop]
    simp only [hrest, Option.bind_eq_bind, Option.bind_some]
    cases hfind : findReference rest with
    | none =>
      have hlast := PlainBefore.append (by rwa [List.append_nil]) (findReference_none hfind)
      refine ⟨⟨[], mid ++ rest⟩, .done hlast, ?_⟩
      rw [hplain, dropBytes_size]
      simp [Pieces.text, Pieces.dropped]
    | some offset =>
      obtain ⟨a, b, rfl, rfl, ha⟩ := findReference_some hfind
      have hrun := hmid.append ha
      have hfound : s.start + size a = size before + size (mid ++ a) := by
        rw [hstart, size_append]
        omega
      have hless : size ('&' :: '#' :: b) < turns + 1 := by
        rw [size_append] at hturns
        omega
      simp only [hfound]
      rw [← List.append_assoc mid]
      generalize mid ++ a = run at *
      have hhere : dropBytes (size before + size run) (before ++ (run ++ '&' :: '#' :: b)) =
          some ('&' :: '#' :: b) := by
        rw [← List.append_assoc, ← size_append, dropBytes_size]
      simp only [hhere, Option.bind_some]
      by_cases href : Unreferenced ('&' :: '#' :: b)
      · -- a malformed reference stays in the run
        have htwo : size ('&' :: '#' :: b) = size b + 2 := by
          rw [size_cons, size_cons, show Char.utf8Size '&' = 1 by decide,
            show Char.utf8Size '#' = 1 by decide]
          omega
        have hstay := decodeLoop_spec turns before (run ++ ['&', '#']) b
          (s := { s with start := size before + size run + 2 }) hplain
          (by rw [size_append]; rfl) (hrun.append (plainBefore_malformed href)) (by omega)
        simpa [numericReference_unreferenced href, Decodes] using hstay
      · obtain ⟨n, w, after, hw, hb⟩ : ∃ n w after, Written n w ∧ '&' :: '#' :: b = w ++ after := by
          simpa [Unreferenced] using href
        rw [hb] at hrun hless ⊢
        obtain ⟨ch, used, rest, hcut, hused, hpush, hpieces⟩ :=
          pushReference_spec html hplain hrun hw
        simp only [numericReference_written hw, Option.bind_some, hpush]
        have hless : size rest < turns := by
          have hpos := size_pos hused
          rw [hcut, size_append] at hless
          omega
        obtain ⟨p, hp, hresult⟩ := decodeLoop_spec turns (before ++ (run ++ used)) [] rest
          (s := ⟨s.out ++ html run ++ ch.toList, s.dropped + if ch.isNone then 1 else 0,
            size (before ++ (run ++ used)), size (before ++ (run ++ used))⟩)
          rfl rfl (plainBefore_nil _) hless
        have hraw : before ++ (run ++ (w ++ after)) = before ++ (run ++ used) ++ ([] ++ rest) := by
          simp [hcut]
        refine ⟨_, hpieces p hp, ?_⟩
        rw [hraw, hresult]
        simp only [Pieces.text_before, Pieces.dropped_before, List.append_assoc, Option.some.injEq,
          Prod.mk.injEq, true_and]
        omega

end loop

/-! One cut. -/

theorem Cut.done_unique {last : List Char} {p : Pieces} (hlast : PlainBefore last [])
    (h : Cut last p) : p = ⟨[], last⟩ := by
  have hmarked : ∀ {n run w rest}, Written n w → last = run ++ (w ++ rest) → False := by
    intro n run w rest hw heq
    have hne : w ++ rest ≠ [] := by simp [hw.ne_nil]
    exact hlast run (w ++ rest) heq hne n w rest hw (List.append_nil _)
  cases h with
  | done _ => rfl
  | char _ hw _ _ => exact (hmarked hw rfl).elim
  | pair _ hw _ _ _ => exact (hmarked hw rfl).elim
  | drop _ hw _ _ _ => exact (hmarked hw rfl).elim

/-- What a cut makes of the first reference. -/
inductive First (n : Nat) (run rest : List Char) : Pieces → Prop
  | char {c p} : c.toNat = n → c ≠ '\x00' → Cut rest p → First n run rest (p.before run (some c))
  | pair {c low w' rest' p} : Written low w' → rest = w' ++ rest' → utf16 c = [n, low] →
      Cut rest' p → First n run rest (p.before run (some c))
  | drop {p} : n = 0 ∨ ¬ n.isValidChar → Single n rest → Cut rest p →
      First n run rest (p.before run none)

theorem Cut.first {run w rest : List Char} {n : Nat} {p : Pieces}
    (hplain : PlainBefore run (w ++ rest)) (hw : Written n w) (h : Cut (run ++ (w ++ rest)) p) :
    First n run rest p := by
  generalize htext : run ++ (w ++ rest) = text at h
  cases h with
  | done hlast =>
    subst htext
    have hne : w ++ rest ≠ [] := by simp [hw.ne_nil]
    exact (hlast run (w ++ rest) rfl hne n w rest hw (List.append_nil _)).elim
  | char hplain' hw' hnul hrest =>
    obtain ⟨rfl, rfl, rfl, rfl⟩ := plainBefore_unique hplain hplain' hw hw' htext
    exact .char rfl hnul hrest
  | pair hplain' hw' hlow hunits hrest =>
    obtain ⟨rfl, rfl, rfl, rfl⟩ := plainBefore_unique hplain hplain' hw hw' htext
    exact .pair hlow rfl hunits hrest
  | drop hplain' hw' hn hsingle hrest =>
    obtain ⟨rfl, rfl, rfl, rfl⟩ := plainBefore_unique hplain hplain' hw hw' htext
    exact .drop hn hsingle hrest

/-- A character's own code point is not the high half of a pair. -/
theorem utf16_ne_own {c c' : Char} {low : Nat} : utf16 c' ≠ [c.toNat, low] := by
  intro h
  have hbounds := utf16_pair h
  have hc : c.toNat = c.val.toNat := rfl
  rcases c.valid with hvalid | hvalid
  · omega
  · omega

theorem utf16_inj {c c' : Char} {high low : Nat} (h : utf16 c = [high, low])
    (h' : utf16 c' = [high, low]) : c = c' := by
  have hc := utf16_pair h
  have hc' := utf16_pair h'
  rw [← Char.toNat_inj]
  omega

theorem isValidChar_toNat (c : Char) : c.toNat.isValidChar := c.valid

/-- **An attribute is cut in one way.** By induction on one of the cuts; what stands before
the first reference, and so what the other makes of it, is settled by the text. -/
theorem Cut.unique {raw : List Char} {p q : Pieces} (hp : Cut raw p) (hq : Cut raw q) : q = p := by
  induction hp generalizing q with
  | done hlast => exact Cut.done_unique hlast hq
  | char hplain hw hnul _ ih =>
    cases hq.first hplain hw with
    | char hn _ hrest =>
      obtain rfl := Char.toNat_inj.mp hn
      rw [ih hrest]
    | pair _ _ hunits _ => exact absurd hunits utf16_ne_own
    | drop hn _ _ =>
      rcases hn with hn | hn
      · exact absurd (Char.toNat_inj.mp (hn.trans (by rfl : (0 : Nat) = '\x00'.toNat))) hnul
      · exact absurd (isValidChar_toNat _) hn
  | pair hplain hw hlow hunits _ ih =>
    cases hq.first hplain hw with
    | char hn _ _ =>
      subst hn
      exact absurd hunits utf16_ne_own
    | pair hlow' hrest hunits' hcut =>
      obtain ⟨rfl, rfl, rfl⟩ := hlow.unique hlow' hrest
      rw [ih hcut, utf16_inj hunits' hunits]
    | drop _ hsingle _ => exact absurd hunits (hsingle _ _ _ _ hlow rfl)
  | drop hplain hw hn hsingle _ ih =>
    cases hq.first hplain hw with
    | char hn' hnul _ =>
      subst hn'
      rcases hn with hn | hn
      · exact absurd (Char.toNat_inj.mp (hn.trans (by rfl : (0 : Nat) = '\x00'.toNat))) hnul
      · exact absurd (isValidChar_toNat _) hn
    | pair hlow hrest hunits _ => exact absurd hunits (hsingle _ _ _ _ hlow hrest)
    | drop _ _ hrest => rw [ih hrest]

/-- **References are decoded one by one.** Every attribute is cut in one way, and decoding ends
without a slice off a character boundary: each reference gives its character or is counted, and
the HTML decoder is given the text between. -/
theorem decodeReferences_cut (html : List Char → List Char) (raw : List Char) (dropped : Nat) :
    ∃ p, Cut raw p ∧ (∀ q, Cut raw q → q = p) ∧
      decodeReferences html raw dropped = some (p.text html, dropped + p.dropped) := by
  obtain ⟨p, hp, hresult⟩ := decodeLoop_spec html (size raw + 1) [] [] raw
    (s := ⟨[], dropped, 0, 0⟩) rfl rfl (plainBefore_nil _) (by omega)
  exact ⟨p, hp, fun q hq => hp.unique hq, hresult⟩

/-- A pair is one character; NUL and a lone high half are dropped and cost nothing else. -/
example : decodeReferences id "a&#0;&#55357;&#56832;&#55357;&#98;&#;".toList 0 =
    some ("a😀b&#;".toList, 2) := by decide +kernel

end MessageCrate.Sbr

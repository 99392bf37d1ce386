import MessageCrate.Dedupe.Exact

/- Which rows of a group stay shown (`exact_group_flags` and `pick_winner` in
   `crates/server/server/src/dedupe.rs`).

   The rows take the places of a group in the order of one key (`placeKey`): the winner's
   source first, then the other sources, and within a source as `pick_winner` ranks them. The
   key tells rows apart, so the order is one whatever order the candidates and the map by
   source came in (`placed_unique`). A source never has more rows than there are places, so
   the winner's source keeps all of its rows (`winnerSource_shown`). -/
namespace MessageCrate
open Grouping

/-- A list in which nothing with `p` comes after anything without. -/
theorem eq_filter_append_filter {α : Type} {p : α → Bool} {l : List α}
    (h : l.Pairwise (fun a b => p b = true → p a = true)) :
    l = l.filter p ++ l.filter (fun a => !p a) := by
  induction l with
  | nil => rfl
  | cons a l ih =>
    obtain ⟨ha, hl⟩ := List.pairwise_cons.mp h
    cases hp : p a with
    | true =>
      have hih := ih hl
      simp only [List.filter_cons, hp, if_true, Bool.not_true, Bool.false_eq_true, if_false,
        List.cons_append]
      exact congrArg (a :: ·) hih
    | false =>
      -- Nothing after `a` has `p`.
      have hnone : ∀ b ∈ l, p b = false := fun b hb => by
        cases hb' : p b with
        | false => rfl
        | true => exact absurd (ha b hb hb') (by simp [hp])
      have hall : ∀ b ∈ a :: l, p b = false := by
        intro b hb
        rcases List.mem_cons.mp hb with rfl | hb
        · exact hp
        · exact hnone b hb
      rw [List.filter_eq_nil_iff.mpr (fun b hb => by simp [hall b hb]), List.nil_append,
        List.filter_eq_self.mpr (fun b hb => by simp [hall b hb])]

/-- How many rows of a source the group has. -/
def sourceCount (cands : List Cand) (source : String) : Nat :=
  cands.countP (fun c => decide (c.source = source))

section
variable (w w' : Walk) (prio : String → Option Nat) {g g' : CopyGroup}

/-- The key that places go by. -/
def placeKey (winner : String) (c : Cand) : (Bool ×ₗ Nat ×ₗ String) ×ₗ (Int ×ₗ Int) :=
  toLex (sourceKey prio winner c.source, rowKey c)

theorem sourceKey_injective {winner s s' : String}
    (h : sourceKey prio winner s = sourceKey prio winner s') : s = s' :=
  congrArg (fun k => (ofLex (ofLex k).2).2) h

/-- Rows of one key are one. -/
theorem id_eq_of_placeKey {winner : String} {c c' : Cand}
    (h : placeKey prio winner c = placeKey prio winner c') : c.id = c'.id :=
  congrArg (fun k => (ofLex (ofLex k).2).2) h

/-! The places. -/

theorem placed_sorted : (placed w prio g).Pairwise
    (fun a b => placeKey prio (winnerSource prio g) a ≤ placeKey prio (winnerSource prio g) b) := by
  obtain ⟨gs, hgs⟩ : ∃ gs, gs = (w.order (group Cand.source g.cands)).insertionSort (fun a b =>
    sourceKey prio (winnerSource prio g) a.1 ≤ sourceKey prio (winnerSource prio g) b.1) := ⟨_, rfl⟩
  have hsort : gs.Pairwise (fun a b =>
      sourceKey prio (winnerSource prio g) a.1 ≤ sourceKey prio (winnerSource prio g) b.1) := by
    rw [hgs]
    exact List.pairwise_insertionSort _ _
  have hperm : gs.Perm (group Cand.source g.cands) := by
    rw [hgs]
    exact (List.perm_insertionSort _ _).trans (w.perm _)
  have hkeys : gs.Pairwise (fun a b => a.1 ≠ b.1) := by
    have := (hperm.map Prod.fst).nodup_iff.mpr (group_keys_nodup Cand.source g.cands)
    exact List.pairwise_map.mp this
  have hrows : ∀ p ∈ gs, ∀ c ∈ p.2.insertionSort (fun a b => rowKey a ≤ rowKey b),
      c.source = p.1 := fun p hp c hc =>
    (mem_of_mem_group (hperm.mem_iff.mp hp) ((List.perm_insertionSort _ _).mem_iff.mp hc)).2
  unfold placed
  rw [← hgs, List.pairwise_flatMap]
  constructor
  · intro p hp
    -- Within a source the first half of the key is the same.
    refine (List.pairwise_insertionSort (fun a b => rowKey a ≤ rowKey b) p.2).imp_of_mem ?_
    intro a b ha hb hle
    refine Prod.Lex.le_iff.mpr (.inr ⟨?_, hle⟩)
    show sourceKey prio _ a.source = sourceKey prio _ b.source
    rw [hrows p hp a ha, hrows p hp b hb]
  · refine (hsort.and hkeys).imp_of_mem ?_
    intro p q hp hq ⟨hle, hne⟩ a ha b hb
    refine Prod.Lex.le_iff.mpr (.inl ?_)
    show sourceKey prio _ a.source < sourceKey prio _ b.source
    rw [hrows p hp a ha, hrows q hq b hb]
    exact lt_of_le_of_ne hle fun h => hne (sourceKey_injective prio h)

/-! How many places. -/

theorem sourceCount_eq {source : String} {rows : List Cand}
    (h : (source, rows) ∈ group Cand.source g.cands) :
    rows.length = sourceCount g.cands source := by
  rw [(mem_group.mp h).1, sourceCount, List.countP_eq_length_filter]

/-- As many rows stay shown as the source that has most of them has. -/
theorem shownCount_greatest :
    IsGreatest {n | ∃ source ∈ sourcesOf g.cands, sourceCount g.cands source = n}
      (shownCount g) := by
  have hcounts : ∀ n, n ∈ (group Cand.source g.cands).map (fun p => p.2.length) ↔
      ∃ source ∈ sourcesOf g.cands, sourceCount g.cands source = n := by
    intro n
    simp only [List.mem_map, sourcesOf, List.mem_dedup]
    constructor
    · rintro ⟨⟨source, rows⟩, hp, rfl⟩
      obtain ⟨c, hc, hsource⟩ := mem_group_keys.mp (List.mem_map.mpr ⟨_, hp, rfl⟩)
      exact ⟨source, ⟨c, hc, hsource⟩, (sourceCount_eq hp).symm⟩
    · rintro ⟨source, ⟨c, hc, hsource⟩, rfl⟩
      obtain ⟨⟨source', rows⟩, hp, rfl⟩ :=
        List.mem_map.mp (mem_group_keys.mpr ⟨c, hc, hsource⟩)
      exact ⟨_, hp, sourceCount_eq hp⟩
  unfold shownCount
  cases hmax : ((group Cand.source g.cands).map (fun p => p.2.length)).max? with
  | none =>
    obtain ⟨c, hc⟩ := List.exists_mem_of_ne_nil _ g.ne_nil
    have := (hcounts _).mpr ⟨c.source, by simp [sourcesOf]; exact ⟨c, hc, rfl⟩, rfl⟩
    rw [List.max?_eq_none_iff.mp hmax] at this
    cases this
  | some n =>
    obtain ⟨hmem, hle⟩ := List.max?_eq_some_iff.mp hmax
    exact ⟨(hcounts n).mp hmem, fun m hm => hle m ((hcounts m).mpr hm)⟩

theorem sourceCount_le_shownCount {c : Cand} (hc : c ∈ g.cands) :
    sourceCount g.cands c.source ≤ shownCount g :=
  shownCount_greatest.2
    ⟨c.source, List.mem_dedup.mpr (List.mem_map.mpr ⟨c, hc, rfl⟩), rfl⟩

/-! One order. -/

section
variable (hids : (g.cands.map Cand.id).Nodup)
include hids

theorem exists_winner : ∃ c ∈ g.cands, c.id = pickWinner prio g ∧
    c.source = winnerSource prio g := by
  obtain ⟨win, hwin, hid, -⟩ := pickWinner_spec prio (g := g)
  refine ⟨win, hwin, hid, ?_⟩
  unfold winnerSource
  cases hfind : g.cands.find? (fun c => c.id == pickWinner prio g) with
  | none =>
    have := List.find?_eq_none.mp hfind win hwin
    simp [hid] at this
  | some c =>
    have hc : c.id = pickWinner prio g := by simpa using List.find?_some hfind
    rw [eq_of_id_eq hids (List.mem_of_find?_eq_some hfind) hwin (hc.trans hid.symm)]
    rfl

variable (hperm : g'.cands.Perm g.cands)
include hperm

omit hids in
theorem pickWinner_unique : pickWinner prio g' = pickWinner prio g := by
  obtain ⟨c, hc, hid, hle⟩ := pickWinner_spec prio (g := g)
  obtain ⟨c', hc', hid', hle'⟩ := pickWinner_spec prio (g := g')
  have hkey : winnerKey prio c = winnerKey prio c' :=
    le_antisymm (hle c' (hperm.mem_iff.mp hc')) (hle' c (hperm.mem_iff.mpr hc))
  rw [← hid, ← hid']
  exact (congrArg (fun k => (ofLex (ofLex k).2).2) hkey).symm

theorem winnerSource_unique : winnerSource prio g' = winnerSource prio g := by
  have hids' : (g'.cands.map Cand.id).Nodup := (hperm.map Cand.id).nodup_iff.mpr hids
  obtain ⟨c, hc, hid, hsource⟩ := exists_winner prio hids
  obtain ⟨c', hc', hid', hsource'⟩ := exists_winner prio hids'
  rw [pickWinner_unique prio hperm, ← hid] at hid'
  rw [← hsource, ← hsource', eq_of_id_eq hids (hperm.mem_iff.mp hc') hc hid']

theorem placed_unique : placed w' prio g' = placed w prio g := by
  have hsorted := placed_sorted w' prio (g := g')
  rw [winnerSource_unique prio hids hperm] at hsorted
  refine List.Perm.eq_of_pairwise (fun a b ha hb hab hba => ?_) hsorted (placed_sorted w prio)
    ((placed_perm w' prio).trans (hperm.trans (placed_perm w prio).symm))
  refine eq_of_id_eq hids ?_ ((placed_perm w prio).mem_iff.mp hb)
    (id_eq_of_placeKey prio (le_antisymm hab hba))
  exact hperm.mem_iff.mp ((placed_perm w' prio).mem_iff.mp ha)

omit hids in
theorem shownCount_unique : shownCount g' = shownCount g := by
  have hcount : ∀ source, sourceCount g'.cands source = sourceCount g.cands source :=
    fun source => hperm.countP_eq _
  have hgreatest := shownCount_greatest (g := g')
  simp only [hcount, sourcesOf, List.mem_dedup, (hperm.map Cand.source).mem_iff] at hgreatest
  refine hgreatest.unique ?_
  have := shownCount_greatest (g := g)
  simpa only [sourcesOf, List.mem_dedup] using this

end

/-! The winner's source. -/

/-- The rows of the winner's source take the first places. -/
theorem placed_split : placed w prio g =
    (placed w prio g).filter (fun c => decide (c.source = winnerSource prio g)) ++
      (placed w prio g).filter (fun c => !decide (c.source = winnerSource prio g)) := by
  refine eq_filter_append_filter ((placed_sorted w prio).imp fun {a b} hle hb => ?_)
  rw [decide_eq_true_eq] at hb ⊢
  by_contra ha
  -- A row of another source has the greater key.
  have hlt : sourceKey prio (winnerSource prio g) b.source <
      sourceKey prio (winnerSource prio g) a.source := by
    refine Prod.Lex.lt_iff.mpr (.inl ?_)
    show (b.source != winnerSource prio g) < (a.source != winnerSource prio g)
    rw [hb, bne_self_eq_false, bne_iff_ne.mpr ha]
    exact Bool.false_lt_true
  exact absurd hle (not_le_of_gt (Prod.Lex.lt_iff.mpr (.inl hlt)))

/-- No row of the winner's source is hidden. -/
theorem winnerSource_shown (hids : (g.cands.map Cand.id).Nodup) {c : Cand} (hc : c ∈ g.cands)
    (hsource : c.source = winnerSource prio g) :
    c.id ∉ (exactGroupFlags w prio g).map Prod.fst := by
  intro h
  obtain ⟨f, hf, hid⟩ := List.mem_map.mp h
  obtain ⟨c', hc', rfl⟩ := List.mem_map.mp hf
  have hmem : c' ∈ g.cands := (placed_perm w prio).mem_iff.mp (List.mem_of_mem_drop hc')
  obtain rfl : c' = c := eq_of_id_eq hids hmem hc hid
  have hlen : ((placed w prio g).filter
      (fun c => decide (c.source = winnerSource prio g))).length ≤ shownCount g := by
    rw [← List.countP_eq_length_filter, (placed_perm w prio).countP_eq, ← hsource]
    exact sourceCount_le_shownCount hmem
  rw [placed_split, List.drop_append, List.drop_eq_nil_of_le hlen, List.nil_append] at hc'
  have hother := (List.mem_filter.mp (List.mem_of_mem_drop hc')).2
  simp [hsource] at hother

/-- What the flags of a group say. -/
structure GroupAccount (w : Walk) (prio : String → Option Nat) (g : CopyGroup) : Prop where
  /-- All rows are hidden but as many as one source holds. -/
  hidden : ∃ most, IsGreatest {n | ∃ source ∈ sourcesOf g.cands, sourceCount g.cands source = n}
    most ∧ (exactGroupFlags w prio g).length = g.cands.length - most ∧ most ≤ g.cands.length
  losers : ((exactGroupFlags w prio g).map Prod.fst).Nodup ∧
    ∀ f ∈ exactGroupFlags w prio g, f.1 ∈ g.cands.map Cand.id
  winner : pickWinner prio g ∈ g.cands.map Cand.id ∧
    pickWinner prio g ∉ (exactGroupFlags w prio g).map Prod.fst
  points : ∀ f ∈ exactGroupFlags w prio g, f.2 = pickWinner prio g
  /-- The places go to the winner's source before any other, and it loses no row. -/
  source : ∀ win ∈ g.cands, win.id = pickWinner prio g →
    (∃ others, placed w prio g =
        (placed w prio g).filter (fun c => decide (c.source = win.source)) ++ others ∧
      ∀ c ∈ others, c.source ≠ win.source) ∧
    ∀ c ∈ g.cands, c.source = win.source → c.id ∉ (exactGroupFlags w prio g).map Prod.fst

/-- **What the flags of a group say**, and that they are the same pairs for every order of the
candidates and of the map by source. -/
theorem exact_flags_account (hids : (g.cands.map Cand.id).Nodup) :
    GroupAccount w prio g ∧
    ∀ (w' : Walk) (g' : CopyGroup), g'.cands.Perm g.cands →
      exactGroupFlags w' prio g' = exactGroupFlags w prio g := by
  have hlen : (placed w prio g).length = g.cands.length := (placed_perm w prio).length_eq
  refine ⟨{ hidden := ?_, losers := ?_, winner := ?_, points := ?_, source := ?_ }, ?_⟩
  · refine ⟨shownCount g, shownCount_greatest, ?_, ?_⟩
    · rw [exactGroupFlags, List.length_map, List.length_drop, hlen]
    · obtain ⟨source, -, heq⟩ := (shownCount_greatest (g := g)).1
      rw [← heq]
      exact List.countP_le_length
  · exact ⟨losers_nodup w prio hids, fun f hf => (loser_mem w prio hf).1⟩
  · exact ⟨winner_mem prio, winner_not_loser w prio hids⟩
  · exact fun f hf => (loser_mem w prio hf).2
  · intro win hwin hid
    obtain ⟨c, hc, hid', hsource⟩ := exists_winner prio hids
    obtain rfl : win = c := eq_of_id_eq hids hwin hc (hid.trans hid'.symm)
    rw [hsource]
    refine ⟨⟨_, placed_split w prio, fun c hc => ?_⟩,
      fun c hc hs => winnerSource_shown w prio hids hc hs⟩
    have := (List.mem_filter.mp hc).2
    simpa using this
  · intro w' g' hperm
    rw [exactGroupFlags, exactGroupFlags, placed_unique w w' prio hids hperm,
      shownCount_unique hperm, pickWinner_unique prio hperm]

/-- Two sources hold one message twice and once. -/
def twoCopies : CopyGroup :=
  ⟨[⟨1, "sms", 0⟩, ⟨2, "imessage", 1⟩, ⟨3, "sms", 0⟩], by decide⟩

theorem exact_flags_account_twoCopies :
    GroupAccount .inserted (fun _ => none) twoCopies ∧
    ∀ (w' : Walk) (g' : CopyGroup), g'.cands.Perm twoCopies.cands →
      exactGroupFlags w' (fun _ => none) g' = exactGroupFlags .inserted (fun _ => none) twoCopies :=
  exact_flags_account .inserted (fun _ => none) (by decide)

end

end MessageCrate

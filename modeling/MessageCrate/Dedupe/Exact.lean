import MessageCrate.Lib.Grouping

/- One group of copies (`exact_group_flags` and `pick_winner` in
   `crates/server/server/src/dedupe.rs`).

   A group is the messages of one content key, or one cluster of the near-time pass
   (`CopyGroup`); the passes flag it once two sources hold it. Its flags hide all but as many of its rows as
   the source that holds it most often, each as a duplicate of the winner.

   What is proved, for rows with distinct ids and in any order of the map by source:
     1. the hidden rows are rows of the group, each once (`losers_nodup`);
     2. the winner is a row of the group (`winner_mem`), of the group's first place
        (`placed_head`), so it is never hidden (`winner_not_loser`).

   Correspondence (Rust ↔ Lean):
     the comparison in `pick_winner`       ↔ `winnerKey`, compared lexicographically
     `min_by`                              ↔ `List.minOn`, the first of the least
     the keys of `sort_by_key`, `sort_by`  ↔ `sourceKey`, `rowKey`
     `by_source.into_iter()`               ↔ a `Walk` over `group` -/
namespace MessageCrate
open Grouping

/-- A message as a candidate of its group. -/
structure Cand where
  id : Int
  source : String
  attCount : Int
  deriving DecidableEq, Repr

/-- The sources that hold a group. -/
def sourcesOf (cands : List Cand) : List String := (cands.map Cand.source).dedup

/-- A group of copies. -/
structure CopyGroup where
  cands : List Cand
  ne_nil : cands ≠ []

theorem ne_nil_of_two_sources {cands : List Cand} (h : 2 ≤ (sourcesOf cands).length) :
    cands ≠ [] := by
  rintro rfl
  exact absurd h (by decide)

section
variable (w : Walk) (prio : String → Option Nat)

/-- The place of a source in the order of preference: last where it has none. -/
def rankOf (source : String) : Nat := (prio source).getD (2 ^ 64 - 1)

/-- What the winner has the least of: most attachments, then the preferred source, then
the lowest id. -/
def winnerKey (c : Cand) : Int ×ₗ Nat ×ₗ Int :=
  toLex (-c.attCount, toLex (rankOf prio c.source, c.id))

/-- The message to keep from a group. -/
def pickWinner (g : CopyGroup) : Int :=
  (g.cands.minOn (winnerKey prio) g.ne_nil).id

/-- The winner's source. -/
def winnerSource (g : CopyGroup) : String :=
  ((g.cands.find? (fun c => c.id == pickWinner prio g)).map Cand.source).getD ""

/-- How many rows stay shown: as many as the source that holds most of them has. -/
def shownCount (g : CopyGroup) : Nat :=
  (((group Cand.source g.cands).map (fun p => p.2.length)).max?).getD 0

/-- The winner's source first, then the other sources in priority order. -/
def sourceKey (winnerSource source : String) : Bool ×ₗ Nat ×ₗ String :=
  toLex (source != winnerSource, toLex (rankOf prio source, source))

/-- Within a source, most attachments first, then the lowest id. -/
def rowKey (c : Cand) : Int ×ₗ Int := toLex (-c.attCount, c.id)

/-- The rows of a group in the order they take its places. -/
def placed (g : CopyGroup) : List Cand :=
  ((w.order (group Cand.source g.cands)).insertionSort (fun a b =>
    sourceKey prio (winnerSource prio g) a.1 ≤ sourceKey prio (winnerSource prio g) b.1)).flatMap
    (fun p => p.2.insertionSort (fun a b => rowKey a ≤ rowKey b))

/-- The `(loser, winner)` pairs of a group. -/
def exactGroupFlags (g : CopyGroup) : List (Int × Int) :=
  ((placed w prio g).drop (shownCount g)).map (fun c => (c.id, pickWinner prio g))

variable {g : CopyGroup}

/-- The winner is the least row of the group. -/
theorem pickWinner_spec :
    ∃ c ∈ g.cands, c.id = pickWinner prio g ∧
      ∀ c' ∈ g.cands, winnerKey prio c ≤ winnerKey prio c' :=
  ⟨g.cands.minOn (winnerKey prio) g.ne_nil, List.minOn_mem, rfl,
    fun _ hc' => List.apply_minOn_le_of_mem hc'⟩

theorem winner_mem : pickWinner prio g ∈ g.cands.map Cand.id := by
  obtain ⟨c, hc, hid, -⟩ := pickWinner_spec prio (g := g)
  exact List.mem_map.mpr ⟨c, hc, hid⟩

theorem placed_perm : (placed w prio g).Perm g.cands := by
  unfold placed
  refine ((List.perm_insertionSort _ _).flatMap_right _).trans ?_
  refine ((w.perm _).flatMap_right _).trans ?_
  refine (List.Perm.flatMap_left _ ?_).trans (flatMap_group_perm Cand.source g.cands)
  exact fun p _ => List.perm_insertionSort _ _

theorem shownCount_pos : 0 < shownCount g := by
  obtain ⟨c, rest, hcands⟩ := List.exists_cons_of_ne_nil g.ne_nil
  have hkey : c.source ∈ (group Cand.source g.cands).map Prod.fst :=
    mem_group_keys.mpr ⟨c, by simp [hcands], rfl⟩
  obtain ⟨⟨source, rows⟩, hmem, -⟩ := List.mem_map.mp hkey
  have hrows : 0 < rows.length := List.length_pos_iff.mpr (mem_group.mp hmem).2
  have hlen : rows.length ∈ (group Cand.source g.cands).map (fun p => p.2.length) :=
    List.mem_map.mpr ⟨_, hmem, rfl⟩
  unfold shownCount
  cases hmax : ((group Cand.source g.cands).map (fun p => p.2.length)).max? with
  | none =>
    rw [List.max?_eq_none_iff.mp hmax] at hlen
    cases hlen
  | some n => exact lt_of_lt_of_le hrows ((List.max?_eq_some_iff.mp hmax).2 _ hlen)

/-- Every loser is a row of the group. -/
theorem loser_mem {f : Int × Int} (h : f ∈ exactGroupFlags w prio g) :
    f.1 ∈ g.cands.map Cand.id ∧ f.2 = pickWinner prio g := by
  obtain ⟨c, hc, rfl⟩ := List.mem_map.mp h
  exact ⟨List.mem_map_of_mem ((placed_perm w prio).mem_iff.mp (List.mem_of_mem_drop hc)), rfl⟩

section
variable (hids : (g.cands.map Cand.id).Nodup)
include hids

theorem eq_of_id_eq {c c' : Cand} (hc : c ∈ g.cands) (hc' : c' ∈ g.cands)
    (h : c.id = c'.id) : c = c' :=
  List.inj_on_of_nodup_map hids hc hc' h

theorem losers_nodup : ((exactGroupFlags w prio g).map Prod.fst).Nodup := by
  have hplaced : ((placed w prio g).map Cand.id).Nodup :=
    ((placed_perm w prio).map Cand.id).nodup_iff.mpr hids
  have hfst : (exactGroupFlags w prio g).map Prod.fst =
      ((placed w prio g).map Cand.id).drop (shownCount g) := by
    rw [exactGroupFlags, List.map_map, List.map_drop]
    rfl
  rw [hfst]
  exact hplaced.sublist (List.drop_sublist _ _)

/-- The winner takes the first place. -/
theorem placed_head : ∃ c rest, placed w prio g = c :: rest ∧ c.id = pickWinner prio g := by
  obtain ⟨win, hwin, hid, hleast⟩ := pickWinner_spec prio (g := g)
  have hsource : winnerSource prio g = win.source := by
    unfold winnerSource
    cases hfind : g.cands.find? (fun c => c.id == pickWinner prio g) with
    | none =>
      have := List.find?_eq_none.mp hfind win hwin
      simp [hid] at this
    | some c =>
      have hc : c.id = pickWinner prio g := by simpa using List.find?_some hfind
      rw [eq_of_id_eq hids (List.mem_of_find?_eq_some hfind) hwin (hc.trans hid.symm)]
      rfl
  -- The winner's source comes first, since no other has `false` for a key.
  have hsort := List.pairwise_insertionSort (fun a b : String × List Cand =>
    sourceKey prio (winnerSource prio g) a.1 ≤ sourceKey prio (winnerSource prio g) b.1)
    (w.order (group Cand.source g.cands))
  have hperm : ((w.order (group Cand.source g.cands)).insertionSort (fun a b =>
      sourceKey prio (winnerSource prio g) a.1 ≤
        sourceKey prio (winnerSource prio g) b.1)).Perm (group Cand.source g.cands) :=
    (List.perm_insertionSort _ _).trans (w.perm _)
  have hkey : win.source ∈ (group Cand.source g.cands).map Prod.fst :=
    mem_group_keys.mpr ⟨win, hwin, rfl⟩
  obtain ⟨⟨source, rows⟩, hgroup, hsrc⟩ := List.mem_map.mp hkey
  obtain rfl : source = win.source := hsrc
  unfold placed
  generalize hsorted : (w.order (group Cand.source g.cands)).insertionSort (fun a b =>
    sourceKey prio (winnerSource prio g) a.1 ≤ sourceKey prio (winnerSource prio g) b.1) = sorted
  rw [hsorted] at hsort hperm
  obtain _ | ⟨⟨firstSource, firstRows⟩, others⟩ := sorted
  · exact absurd (hperm.mem_iff.mpr hgroup) List.not_mem_nil
  have hfirst : firstSource = win.source := by
    rcases List.mem_cons.mp (hperm.mem_iff.mpr hgroup) with heq | hmem
    · exact (congrArg Prod.fst heq).symm
    · have hle := (List.pairwise_cons.mp hsort).1 _ hmem
      rcases Prod.Lex.le_iff.mp hle with hlt | ⟨heq, -⟩
      · simp only [sourceKey, hsource, ofLex_toLex, bne_self_eq_false] at hlt
        exact absurd hlt (by cases firstSource != win.source <;> decide)
      · simpa [sourceKey, hsource] using heq
  subst hfirst
  obtain rfl : firstRows = rows := by
    have hmem := hperm.mem_iff.mp List.mem_cons_self
    rw [(mem_group.mp hmem).1, (mem_group.mp hgroup).1]
  -- Within its source, the winner is the least row.
  have hwinRows : win ∈ firstRows := by
    rw [(mem_group.mp hgroup).1, List.mem_filter]
    exact ⟨hwin, by simp⟩
  have hrowsort := List.pairwise_insertionSort (fun a b => rowKey a ≤ rowKey b) firstRows
  have hrowperm := List.perm_insertionSort (fun a b => rowKey a ≤ rowKey b) firstRows
  rw [List.flatMap_cons]
  generalize firstRows.insertionSort (fun a b => rowKey a ≤ rowKey b) = sortedRows at *
  obtain _ | ⟨c, rest⟩ := sortedRows
  · exact absurd (hrowperm.mem_iff.mpr hwinRows) List.not_mem_nil
  refine ⟨c, _, rfl, ?_⟩
  obtain ⟨hc, hcsource⟩ := mem_of_mem_group hgroup (hrowperm.mem_iff.mp List.mem_cons_self)
  have hcwin : rowKey c ≤ rowKey win := by
    rcases List.mem_cons.mp (hrowperm.mem_iff.mpr hwinRows) with heq | hmem
    · rw [heq]
    · exact (List.pairwise_cons.mp hrowsort).1 _ hmem
  have hwinc := hleast c hc
  simp only [winnerKey, rowKey, Prod.Lex.le_iff, ofLex_toLex, hcsource, lt_self_iff_false,
    false_or, true_and] at hwinc hcwin
  rw [← hid]
  omega

/-- **The winner is never hidden.** -/
theorem winner_not_loser : pickWinner prio g ∉ (exactGroupFlags w prio g).map Prod.fst := by
  obtain ⟨c, rest, hplaced, hid⟩ := placed_head w prio hids
  have hnd : ((placed w prio g).map Cand.id).Nodup :=
    ((placed_perm w prio).map Cand.id).nodup_iff.mpr hids
  intro h
  obtain ⟨f, hf, hwin⟩ := List.mem_map.mp h
  obtain ⟨c', hc', rfl⟩ := List.mem_map.mp hf
  obtain ⟨n, hn⟩ := Nat.exists_eq_succ_of_ne_zero (Nat.pos_iff_ne_zero.mp (shownCount_pos (g := g)))
  rw [hplaced, hn, List.drop_succ_cons] at hc'
  rw [hplaced, List.map_cons, List.nodup_cons] at hnd
  apply hnd.1
  rw [hid, ← hwin]
  exact List.mem_map_of_mem (List.mem_of_mem_drop hc')

end
end

end MessageCrate

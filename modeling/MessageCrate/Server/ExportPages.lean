import MessageCrate.Server.ExportRuns

/- One page of an Export Run.

   The rows of a run are the places of its list, and a place is empty when its message is gone
   (`State.place`).

   1. `map_placesFrom`: the joined rows of a page, by the places they are rows of.
   2. `pagePlaces_iff`: which places a page covers, counted from either end.
   3. `keys_load`: a page holds what is still there of those places, in the order asked for.
   4. `Covers.append`: pages one after another. -/
namespace MessageCrate.ExportRuns
open MessagePages

/-! A page. -/

section page
variable {s : State} {l : List Key} {exportId : Int}

/-- The message is still there. -/
def State.Holds (s : State) (k : Key) : Prop :=
  (∃ m ∈ s.tables.db.messages, m.id = k.id) ∧ s.made k.id = k.made

instance State.Holds.decidable (s : State) (k : Key) : Decidable (s.Holds k) :=
  inferInstanceAs (Decidable (_ ∧ _))

def inOrder : Direction → List Key → List Key
  | .asc, l => l
  | .desc, l => l.reverse

/-- A place of a list: it is empty when its message is gone. -/
def State.place (s : State) (exportId : Int) (p : Key × Nat) : ExportMessage :=
  ⟨exportId, (p.2 : Int) + 1, if s.Holds p.1 then some p.1.id else none⟩

def State.rows (s : State) (exportId : Int) : List ExportMessage :=
  s.exportMessages.filter (fun e => e.exportId = exportId)

/-- What a place is joined with. -/
def joined (s : State) (e : ExportMessage) : List (Int × MessagePages.Message) :=
  ((messagesAt s e).flatMap (joinRow s.tables.db)).map (fun r => (e.rowOrder, r))

theorem messagesAt_place {p : Key × Nat} (h : s.Holds p.1) :
    ∃ m ∈ s.tables.db.messages, m.id = p.1.id ∧ messagesAt s (s.place exportId p) = [m] := by
  obtain ⟨⟨m, hm, hid⟩, hmade⟩ := h
  refine ⟨m, hm, hid, ?_⟩
  unfold messagesAt State.place
  rw [if_pos ⟨⟨m, hm, hid⟩, hmade⟩, ← hid]
  simp only [Option.some.injEq]
  exact Keyset.filter_key_eq s.tables.db.messageIds hm

theorem joined_place_of_holds {p : Key × Nat} (h : s.Holds p.1) :
    ∃ r : MessagePages.Message, joined s (s.place exportId p) = [((p.2 : Int) + 1, r)] ∧
      (⟨r.id, s.made r.id⟩ : Key) = p.1 := by
  obtain ⟨m, hm, hid, hat⟩ : ∃ m ∈ s.tables.db.messages, m.id = p.1.id ∧
    messagesAt s (s.place exportId p) = [m] := messagesAt_place h
  obtain ⟨r, hjoin, hrow⟩ := joinRow_eq (s.tables.conversation m hm)
  refine ⟨r, ?_, ?_⟩
  · unfold joined
    rw [hat, List.flatMap_cons, List.flatMap_nil, List.append_nil, hjoin]
    rfl
  · have hrid : r.id = p.1.id := by
      unfold MessagePages.Message.id
      rw [hrow]
      exact hid
    rw [hrid, h.2]

theorem joined_place_of_not {p : Key × Nat} (h : ¬ s.Holds p.1) :
    joined s (s.place exportId p) = [] := by
  have hat : messagesAt s (s.place exportId p) = [] := by
    unfold messagesAt State.place
    rw [if_neg h]
    exact List.filter_eq_nil_iff.mpr fun m _ => by simp
  unfold joined
  rw [hat]
  rfl

/-- The rows of some places, by what they are rows of. -/
theorem map_joined (ps : List (Key × Nat)) :
    ((ps.map (s.place exportId)).flatMap (joined s)).map
        (fun x => (x.1, (⟨x.2.id, s.made x.2.id⟩ : Key))) =
      (ps.filter (fun p => s.Holds p.1)).map (fun p => ((p.2 : Int) + 1, p.1)) := by
  induction ps with
  | nil => rfl
  | cons p ps ih =>
    rw [List.map_cons, List.flatMap_cons, List.map_append, ih]
    by_cases h : s.Holds p.1
    · obtain ⟨r, hr, hkey⟩ : ∃ r : MessagePages.Message,
          joined s (s.place exportId p) = [((p.2 : Int) + 1, r)] ∧
            (⟨r.id, s.made r.id⟩ : Key) = p.1 := joined_place_of_holds h
      rw [hr, List.filter_cons, if_pos (decide_eq_true h), List.map_cons, List.map_cons, hkey]
      rfl
    · rw [joined_place_of_not h, List.filter_cons, if_neg (fun hd => h (of_decide_eq_true hd))]
      rfl

/-- The places of a list from one to before another. -/
theorem filter_zipIdx (q : Key → Bool) (lo hi n : Nat) :
    (((l.zipIdx n).filter (fun p => lo ≤ p.2 ∧ p.2 < hi)).filter (fun p => q p.1)).map Prod.fst =
      ((l.take (hi - n)).drop (lo - n)).filter q := by
  induction l generalizing n with
  | nil => simp
  | cons k l ih =>
    rw [List.zipIdx_cons]
    by_cases hhi : n < hi
    · obtain ⟨d, rfl⟩ : ∃ d, hi = n + 1 + d := ⟨hi - (n + 1), by omega⟩
      have hd : n + 1 + d - n = d + 1 := by omega
      rw [hd, List.take_succ_cons]
      have ih' := ih (n + 1)
      rw [Nat.add_sub_cancel_left] at ih'
      by_cases hlo : lo ≤ n
      · have hzero : lo - n = 0 := by omega
        have hzero' : lo - (n + 1) = 0 := by omega
        rw [hzero'] at ih'
        rw [hzero, List.filter_cons_of_pos (by simp; omega), List.drop_zero]
        rw [List.drop_zero] at ih'
        by_cases hq : q k = true
        · rw [List.filter_cons, if_pos hq, List.map_cons, ih', List.filter_cons_of_pos hq]
        · rw [List.filter_cons, if_neg hq, ih', List.filter_cons_of_neg hq]
      · have hsucc : lo - n = lo - (n + 1) + 1 := by omega
        rw [hsucc, List.drop_succ_cons, List.filter_cons_of_neg (by simp; omega), ih']
    · have hzero : hi - n = 0 := by omega
      have hzero' : hi - (n + 1) = 0 := by omega
      have ih' := ih (n + 1)
      rw [hzero', List.take_zero, List.drop_nil, List.filter_nil] at ih'
      rw [hzero, List.take_zero, List.drop_nil, List.filter_nil,
        List.filter_cons_of_neg (by simp; omega), ih']

/-- The places that a page covers, from the one end or the other. -/
theorem pagePlaces_iff {total offset limit i : Nat} (htotal : total < 2 ^ 63)
    (hoffset : offset < 2 ^ 63) (hlimit : limit ≤ maxListLimit) (hi : i < total) (d : Direction) :
    ((pagePlaces total offset limit d).1 < (i : Int) + 1 ∧
        (i : Int) + 1 ≤ (pagePlaces total offset limit d).2) ↔
      match d with
      | .asc => offset ≤ i ∧ i < offset + limit
      | .desc => total - offset - limit ≤ i ∧ i < total - offset := by
  unfold maxListLimit at hlimit
  have hoffset' : sqlInt offset = offset := by
    unfold sqlInt
    omega
  have hlimit' : sqlInt limit = limit := by
    unfold sqlInt
    omega
  have htotal' : sqlInt total = total := by
    unfold sqlInt
    omega
  cases d with
  | asc =>
    simp only [pagePlaces, hoffset', hlimit', saturated]
    omega
  | desc =>
    simp only [pagePlaces, hoffset', hlimit', htotal', saturated]
    omega

/-- The rows of a page, by what they are rows of. -/
theorem map_placesFrom (hrows : s.rows exportId = l.zipIdx.map (s.place exportId))
    (after through : Int) :
    (placesFrom s exportId after through).map (fun x => (x.1, (⟨x.2.id, s.made x.2.id⟩ : Key))) =
      ((l.zipIdx.filter (fun p => after < (p.2 : Int) + 1 ∧ (p.2 : Int) + 1 ≤ through)).filter
        (fun p => s.Holds p.1)).map (fun p => ((p.2 : Int) + 1, p.1)) := by
  have hfilter : s.exportMessages.filter (fun e =>
      e.exportId = exportId ∧ after < e.rowOrder ∧ e.rowOrder ≤ through) =
        (l.zipIdx.filter (fun p => after < (p.2 : Int) + 1 ∧ (p.2 : Int) + 1 ≤ through)).map
          (s.place exportId) := by
    have hsplit : s.exportMessages.filter (fun e =>
        e.exportId = exportId ∧ after < e.rowOrder ∧ e.rowOrder ≤ through) =
          (s.rows exportId).filter (fun e => after < e.rowOrder ∧ e.rowOrder ≤ through) := by
      unfold State.rows
      rw [List.filter_filter]
      refine List.filter_congr fun e _ => ?_
      rw [← Bool.decide_and]
      exact decide_eq_decide.mpr and_comm
    rw [hsplit, hrows, List.filter_map]
    rfl
  have hfrom : placesFrom s exportId after through = ((l.zipIdx.filter (fun p =>
      after < (p.2 : Int) + 1 ∧ (p.2 : Int) + 1 ≤ through)).map (s.place exportId)).flatMap
        (joined s) := by
    rw [← hfilter]
    rfl
  rw [hfrom, map_joined]

/-- The rows of a page come with their places ascending. -/
theorem pairwise_placesFrom (hrows : s.rows exportId = l.zipIdx.map (s.place exportId))
    (after through : Int) :
    (placesFrom s exportId after through).Pairwise (fun x y => x.1 < y.1) := by
  have hplaces := congrArg (List.map Prod.fst) (map_placesFrom hrows after through)
  rw [List.map_map, List.map_map] at hplaces
  have hsorted : (l.zipIdx.map (fun p : Key × Nat => (p.2 : Int) + 1)).Pairwise (· < ·) := by
    have hsnd : l.zipIdx.map (fun p : Key × Nat => (p.2 : Int) + 1) =
        (List.range' 0 l.length).map (fun i : Nat => (i : Int) + 1) := by
      rw [← List.zipIdx_map_snd, List.map_map]
      rfl
    rw [hsnd, List.pairwise_map]
    refine (List.pairwise_lt_range' (s := 0) (n := l.length)).imp fun h => ?_
    omega
  have hsub : ((l.zipIdx.filter (fun p => after < (p.2 : Int) + 1 ∧ (p.2 : Int) + 1 ≤ through)).filter
      (fun p => s.Holds p.1)).Sublist l.zipIdx := List.filter_sublist.trans List.filter_sublist
  have hfst : (placesFrom s exportId after through).map Prod.fst = _ := hplaces
  refine List.pairwise_map.mp ?_
  rw [hfst]
  exact hsorted.sublist (hsub.map _)

/-- What is still there of the places from one to before another. -/
theorem keys_placesFrom (hrows : s.rows exportId = l.zipIdx.map (s.place exportId))
    {after through : Int} {lo hi : Nat} (hrange : ∀ i < l.length,
      (after < (i : Int) + 1 ∧ (i : Int) + 1 ≤ through) ↔ lo ≤ i ∧ i < hi) :
    (placesFrom s exportId after through).map (fun x => (⟨x.2.id, s.made x.2.id⟩ : Key)) =
      ((l.take hi).drop lo).filter (fun k => s.Holds k) := by
  have hkeys := congrArg (List.map Prod.snd) (map_placesFrom hrows after through)
  rw [List.map_map, List.map_map] at hkeys
  have hslice := filter_zipIdx (l := l) (fun k => s.Holds k) lo hi 0
  rw [Nat.sub_zero, Nat.sub_zero] at hslice
  rw [← hslice]
  have hcongr : l.zipIdx.filter (fun p => after < (p.2 : Int) + 1 ∧ (p.2 : Int) + 1 ≤ through) =
      l.zipIdx.filter (fun p => lo ≤ p.2 ∧ p.2 < hi) := by
    refine List.filter_congr fun p hp => decide_eq_decide.mpr (hrange p.2 ?_)
    have hlt := (List.mem_zipIdx hp).2.1
    omega
  rw [hcongr] at hkeys
  exact hkeys

/-- The places of a page that is read from the end. -/
theorem reverse_take_drop (offset limit : Nat) :
    ((l.take (l.length - offset)).drop (l.length - offset - limit)).reverse =
      (l.reverse.drop offset).take limit := by
  rw [List.drop_reverse, List.take_reverse, List.length_take]
  congr 2
  omega

theorem orderByPlace_eq {d : Direction} {xs : List (Int × MessagePages.Message)}
    (h : xs.Pairwise (fun x y => x.1 < y.1)) :
    orderByPlace d xs = match d with
      | .asc => xs
      | .desc => xs.reverse := by
  have hasc : Keyset.orderBy Prod.fst xs = xs := Keyset.orderBy_eq h (List.Perm.refl xs)
  cases d with
  | asc => exact hasc
  | desc =>
    have hnodup : (xs.map Prod.fst).Nodup := List.pairwise_map.mpr (h.imp fun hlt => ne_of_lt hlt)
    exact (Keyset.orderBy_toDual hnodup).trans (congrArg List.reverse hasc)

/-- What is still there of the places of a page, in the order asked for. -/
theorem keys_orderByPlace (hrows : s.rows exportId = l.zipIdx.map (s.place exportId))
    {offset limit : Nat} (hlt : l.length < 2 ^ 63) (hoffset : offset < 2 ^ 63)
    (hlimit : limit ≤ maxListLimit) (d : Direction) :
    (orderByPlace d (placesFrom s exportId (pagePlaces l.length offset limit d).1
        (pagePlaces l.length offset limit d).2)).map (fun x => (⟨x.2.id, s.made x.2.id⟩ : Key)) =
      (((inOrder d l).drop offset).take limit).filter (fun k => s.Holds k) := by
  rw [orderByPlace_eq (pairwise_placesFrom hrows _ _)]
  cases d with
  | asc =>
    have hkeys := keys_placesFrom hrows
      fun i hi => pagePlaces_iff hlt hoffset hlimit hi .asc
    rw [List.drop_take, Nat.add_sub_cancel_left] at hkeys
    exact hkeys
  | desc =>
    have hkeys := keys_placesFrom hrows
      fun i hi => pagePlaces_iff hlt hoffset hlimit hi .desc
    simp only
    rw [List.map_reverse, hkeys, ← List.filter_reverse, reverse_take_drop]
    rfl

/-- **A page.** What is still there of the places it covers, in the order asked for. -/
theorem keys_load {plan : Plan} {client : Client}
    (hrows : s.rows plan.exportId = l.zipIdx.map (s.place plan.exportId))
    (hlt : l.length < 2 ^ 63) (hoffset : client.offset < 2 ^ 63)
    (hlimit : plan.limit ≤ maxListLimit) :
    (load plan client l.length s).map Item.key =
      (((inOrder (directionOf plan.order) l).drop client.offset).take plan.limit).filter
        (fun k => s.Holds k) := by
  have hkeys := keys_orderByPlace hrows hlt hoffset hlimit (directionOf plan.order)
  set xs := orderByPlace (directionOf plan.order) (placesFrom s plan.exportId
    (pagePlaces l.length client.offset plan.limit (directionOf plan.order)).1
    (pagePlaces l.length client.offset plan.limit (directionOf plan.order)).2) with hxs
  have hsql : sqlInt plan.limit = plan.limit := by
    unfold sqlInt
    unfold maxListLimit at hlimit
    omega
  have hitems : load plan client l.length s = ((xs.map Prod.snd).take (sqlInt plan.limit)).map
      (fun r => ⟨r, s.made r.id⟩) := rfl
  have hload : (load plan client l.length s).map Item.key =
      (xs.map (fun x => (⟨x.2.id, s.made x.2.id⟩ : Key))).take plan.limit := by
    rw [hitems, hsql, List.map_take, List.map_take, List.map_map, List.map_map]
    rfl
  -- No more places than the limit are covered, so the limit takes nothing away.
  rw [hload, hkeys, List.take_of_length_le]
  exact (List.length_filter_le _ _).trans (List.length_take_le _ _)

end page

/-! Parts of a list. -/

section covers
variable {s s' : State} {l ks ks' : List Key} {start stop stop' : Nat}

/-- The keys are among those of some places of a list, in order, with all that are still there. -/
def Covers (s : State) (l : List Key) (start stop : Nat) (ks : List Key) : Prop :=
  ks.Sublist ((l.take stop).drop start) ∧ ∀ k ∈ (l.take stop).drop start, s.Holds k → k ∈ ks

theorem Covers.none (s : State) (l : List Key) (start : Nat) : Covers s l start start [] := by
  have hnil : (l.take start).drop start = [] :=
    List.drop_eq_nil_of_le (List.length_take_le _ _)
  unfold Covers
  rw [hnil]
  exact ⟨List.Sublist.refl _, fun k hk => absurd hk List.not_mem_nil⟩

theorem Covers.eq_nil (h : Covers s l start start ks) : ks = [] := by
  have hnil : (l.take start).drop start = [] :=
    List.drop_eq_nil_of_le (List.length_take_le _ _)
  unfold Covers at h
  rw [hnil] at h
  exact List.sublist_nil.mp h.1

theorem take_drop_append (hstart : start ≤ stop) (hstop : stop ≤ stop') :
    (l.take stop').drop start = (l.take stop).drop start ++ (l.take stop').drop stop := by
  have htake : (l.take stop).drop start = ((l.take stop').drop start).take (stop - start) := by
    rw [← List.drop_take, List.take_take, Nat.min_eq_left hstop]
  have hdrop : (l.take stop').drop stop = ((l.take stop').drop start).drop (stop - start) := by
    rw [List.drop_drop, Nat.add_sub_cancel' hstart]
  rw [htake, hdrop, List.take_append_drop]

theorem Covers.append (h : Covers s l start stop ks) (h' : Covers s l stop stop' ks')
    (hstart : start ≤ stop) (hstop : stop ≤ stop') : Covers s l start stop' (ks ++ ks') := by
  unfold Covers
  rw [take_drop_append hstart hstop]
  refine ⟨h.1.append h'.1, fun k hk hholds => ?_⟩
  rcases List.mem_append.mp hk with hk | hk
  · exact List.mem_append_left _ (h.2 k hk hholds)
  · exact List.mem_append_right _ (h'.2 k hk hholds)

/-- A page covers its places. -/
theorem covers_page {offset limit : Nat}
    (h : ks = ((l.drop offset).take limit).filter (fun k => s.Holds k)) :
    Covers s l offset (offset + limit) ks := by
  unfold Covers
  rw [List.drop_take, Nat.add_sub_cancel_left, h]
  exact ⟨List.filter_sublist, fun k hk hholds => List.mem_filter.mpr ⟨hk, decide_eq_true hholds⟩⟩

/-- No place is after the last one. -/
theorem Covers.whole (h : Covers s l start stop ks) (hstop : l.length ≤ stop) :
    Covers s l start l.length ks := by
  unfold Covers at h ⊢
  rw [List.take_of_length_le hstop] at h
  rw [List.take_length]
  exact h

/-- A message that is gone does not come back. -/
theorem Covers.mono (h : Covers s l start stop ks) (hholds : ∀ k ∈ l, s'.Holds k → s.Holds k) :
    Covers s' l start stop ks := by
  refine ⟨h.1, fun k hk hk' => h.2 k hk (hholds k ?_ hk')⟩
  exact List.mem_of_mem_take (List.mem_of_mem_drop hk)

theorem mem_inOrder {d : Direction} {k : Key} : k ∈ inOrder d l ↔ k ∈ l := by
  cases d with
  | asc => rfl
  | desc => exact List.mem_reverse

theorem length_inOrder {d : Direction} : (inOrder d l).length = l.length := by
  cases d with
  | asc => rfl
  | desc => exact List.length_reverse

end covers

end MessageCrate.ExportRuns

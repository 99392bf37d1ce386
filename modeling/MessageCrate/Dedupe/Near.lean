import MessageCrate.Dedupe.Exact

/- The near-time pass (`cluster_near_dupes` in `crates/server/server/src/dedupe.rs`).

   Each conversation is gone through in time order. A row not yet clustered gathers its
   twins within the window; if two sources hold the cluster, its flags are those of a
   group, and the winner and the hidden rows join no other cluster.

   What is proved, for every map of conversations, source priority and window and any
   order of the hash maps:
     1. `clusterFrom_cases` says what one row can do, and `clusterInv_from` derives from
        it the invariant `ClusterInv` of the whole walk;
     2. `nearLinked_of_flag`: the two ends of a pair are rows of one conversation that
        each are, or are twins of, one first row (`NearLinked`), so they agree on
        direction and sender and stand within the window (`near_pair_agrees`);
     3. `near_losers_nodup`, `near_winner_not_loser`: no row is hidden twice and no winner
        is hidden.

   Being twins is not transitive: a loser that shares its body with the first row and a
   winner that shares its attachments need share neither with each other
   (`near_pair_shares_nothing`). -/
namespace MessageCrate
open Grouping

/-- A shown message with what the near-time pass compares. -/
structure NearRow where
  id : Int
  source : String
  isFromMe : Int
  senderNorm : String
  secs : Int
  bodyNorm : String
  attFp : String
  attCount : Int
  contentKey : String
  deriving DecidableEq, Repr

namespace NearRow

/-- Whether `other`, a later row of the same conversation, is a near-time twin of this
one: same direction and sender, a different source, a different content key, and the
same body or the same attachments. -/
def isTwinOf (self other : NearRow) : Bool :=
  let sameBody := !self.bodyNorm.isEmpty && other.bodyNorm == self.bodyNorm
  let sameAttachments := !self.attFp.isEmpty && other.attFp == self.attFp
  let sameKey := !self.contentKey.isEmpty && other.contentKey == self.contentKey
  other.isFromMe == self.isFromMe && other.senderNorm == self.senderNorm &&
    other.source != self.source && !sameKey && (sameBody || sameAttachments)

/-- The row as a winner candidate. -/
def candidate (row : NearRow) : Cand := ⟨row.id, row.source, row.attCount⟩

/-- The order a conversation is gone through in. -/
def timeKey (row : NearRow) : Int ×ₗ Int := toLex (row.secs, row.id)

/-- `b` shares the non-empty body or the non-empty attachments of `a`. -/
def SharesContent (a b : NearRow) : Prop :=
  (a.bodyNorm ≠ "" ∧ b.bodyNorm = a.bodyNorm) ∨ (a.attFp ≠ "" ∧ b.attFp = a.attFp)

theorem isTwinOf_iff {a b : NearRow} :
    a.isTwinOf b = true ↔ b.isFromMe = a.isFromMe ∧ b.senderNorm = a.senderNorm ∧
      b.source ≠ a.source ∧ ¬ (a.contentKey ≠ "" ∧ b.contentKey = a.contentKey) ∧
      a.SharesContent b := by
  simp only [isTwinOf, SharesContent, Bool.and_eq_true, Bool.or_eq_true, Bool.not_eq_true',
    Bool.and_eq_false_iff, beq_iff_eq, bne_iff_ne, String.isEmpty_eq_false_iff,
    Bool.not_eq_false', String.isEmpty_iff, beq_eq_false_iff_ne, not_and_or, ne_eq, not_not,
    and_assoc]

end NearRow

/-- The shown rows by conversation: a map, over messages with an id each. -/
structure NearMap where
  entries : List (Int × List NearRow)
  keys_nodup : (entries.map Prod.fst).Nodup
  ids_nodup : (entries.flatMap (fun e => e.2.map NearRow.id)).Nodup

/-- What the walk has so far: the ids no later cluster may take, and the flags. -/
structure Clustering where
  clustered : List Int
  flags : List (Int × Int)
  deriving Repr

section
variable (w : Walk) (prio : String → Option Nat) (windowSecs : Int)

/-- The cluster around `first`, of the rows after it. -/
def clusterOf (clustered : List Int) (first : NearRow) (rest : List NearRow) : List NearRow :=
  first :: (rest.takeWhile (fun row => row.secs - first.secs ≤ windowSecs)).filter
    (fun row => first.isTwinOf row && !clustered.contains row.id)

/-- One turn of the walk through a conversation. -/
def clusterFrom (s : Clustering) (first : NearRow) (rest : List NearRow) : Clustering :=
  if s.clustered.contains first.id then s
  else
    let cluster := (clusterOf windowSecs s.clustered first rest).map NearRow.candidate
    if h : 2 ≤ (sourcesOf cluster).length then
      let clusterFlags := exactGroupFlags w prio ⟨cluster, ne_nil_of_two_sources h⟩
      { clustered := s.clustered ++ clusterFlags.flatMap (fun f => [f.1, f.2])
        flags := s.flags ++ clusterFlags }
    else s

/-- The walk through one conversation, its rows in time order. -/
def clusterRows (s : Clustering) : List NearRow → Clustering
  | [] => s
  | first :: rest => clusterRows (clusterFrom w prio windowSecs s first rest) rest

/-- The `(loser, winner)` pairs of the near-time pass. -/
def clusterNearDupes (byConversation : NearMap) : List (Int × Int) :=
  ((w.order byConversation.entries).foldl (fun s e =>
    clusterRows w prio windowSecs s
      (e.2.insertionSort (fun a b => a.timeKey ≤ b.timeKey))) ⟨[], []⟩).flags

end

/-! What one row can do. -/

section
variable (w : Walk) (prio : String → Option Nat) {windowSecs : Int}

/-- A row that can be in a cluster around `first`. -/
def InCluster (windowSecs : Int) (first row : NearRow) : Prop :=
  row = first ∨ (first.isTwinOf row = true ∧ first.secs ≤ row.secs ∧
    row.secs - first.secs ≤ windowSecs)

/-- The two ends of the pair `f` are in one cluster of `rows`. -/
def NearLinked (windowSecs : Int) (rows : List NearRow) (f : Int × Int) : Prop :=
  ∃ first ∈ rows, ∃ loser ∈ rows, ∃ winner ∈ rows, loser.id = f.1 ∧ winner.id = f.2 ∧
    InCluster windowSecs first loser ∧ InCluster windowSecs first winner

theorem NearLinked.mono {rows rows' : List NearRow} {f : Int × Int}
    (h : NearLinked windowSecs rows f) (hsub : ∀ r ∈ rows, r ∈ rows') :
    NearLinked windowSecs rows' f := by
  obtain ⟨first, hfirst, loser, hloser, winner, hwinner, h⟩ := h
  exact ⟨first, hsub _ hfirst, loser, hsub _ hloser, winner, hsub _ hwinner, h⟩

theorem mem_clusterOf {clustered : List Int} {first row : NearRow} {rest : List NearRow}
    (hsorted : ∀ r ∈ rest, first.secs ≤ r.secs)
    (h : row ∈ clusterOf windowSecs clustered first rest) :
    row ∈ first :: rest ∧ InCluster windowSecs first row ∧
      (row = first ∨ row.id ∉ clustered) := by
  rcases List.mem_cons.mp h with rfl | h
  · exact ⟨List.mem_cons_self, .inl rfl, .inl rfl⟩
  · rw [List.mem_filter, Bool.and_eq_true, Bool.not_eq_true'] at h
    obtain ⟨htake, htwin, hfree⟩ := h
    have hmem : row ∈ rest := (List.takeWhile_prefix _).subset htake
    have hwindow : row.secs - first.secs ≤ windowSecs := by
      simpa using List.mem_takeWhile_imp htake
    exact ⟨List.mem_cons_of_mem _ hmem, .inr ⟨htwin, hsorted row hmem, hwindow⟩,
      .inr (by simpa using hfree)⟩

/-- **What one row can do**: nothing, or flag the cluster around it, whose rows are none
of those clustered before. -/
theorem clusterFrom_cases (windowSecs : Int) (s : Clustering) (first : NearRow) (rest : List NearRow) :
    clusterFrom w prio windowSecs s first rest = s ∨
    ∃ g : CopyGroup,
      g.cands = (clusterOf windowSecs s.clustered first rest).map NearRow.candidate ∧
      first.id ∉ s.clustered ∧
      clusterFrom w prio windowSecs s first rest =
        ⟨s.clustered ++ (exactGroupFlags w prio g).flatMap (fun f => [f.1, f.2]),
          s.flags ++ exactGroupFlags w prio g⟩ := by
  unfold clusterFrom
  split
  · exact .inl rfl
  · next hfree =>
    by_cases h : 2 ≤ (sourcesOf ((clusterOf windowSecs s.clustered first rest).map
        NearRow.candidate)).length
    · exact .inr ⟨⟨_, ne_nil_of_two_sources h⟩, rfl, by simpa using hfree, dif_pos h⟩
    · exact .inl (dif_neg h)

/-! The invariant. -/

/-- What the walk keeps: the flags hide no row twice and no winner, and every row they
name is out of reach of later clusters. -/
structure ClusterInv (windowSecs : Int) (seen : List (List NearRow)) (s : Clustering) :
    Prop where
  linked : ∀ f ∈ s.flags, ∃ rows ∈ seen, NearLinked windowSecs rows f
  taken : ∀ f ∈ s.flags, f.1 ∈ s.clustered ∧ f.2 ∈ s.clustered
  losers_nodup : (s.flags.map Prod.fst).Nodup
  winners_shown : ∀ f ∈ s.flags, ∀ f' ∈ s.flags, f.2 ≠ f'.1

/-- The flags of one cluster. -/
theorem cluster_flags {s : Clustering} {first : NearRow} {rest : List NearRow} {g : CopyGroup}
    (hsorted : ∀ r ∈ rest, first.secs ≤ r.secs)
    (hnd : ((first :: rest).map NearRow.id).Nodup) (hfree : first.id ∉ s.clustered)
    (hg : g.cands = (clusterOf windowSecs s.clustered first rest).map NearRow.candidate) :
    (g.cands.map Cand.id).Nodup ∧ (∀ i ∈ g.cands.map Cand.id, i ∉ s.clustered) ∧
    ∀ f ∈ exactGroupFlags w prio g, NearLinked windowSecs (first :: rest) f := by
  have hids : g.cands.map Cand.id =
      (clusterOf windowSecs s.clustered first rest).map NearRow.id := by
    rw [hg, List.map_map]
    rfl
  have hrow : ∀ i ∈ g.cands.map Cand.id, ∃ row ∈ first :: rest, row.id = i ∧
      InCluster windowSecs first row ∧ (row = first ∨ row.id ∉ s.clustered) := by
    intro i hi
    rw [hids] at hi
    obtain ⟨row, hmem, rfl⟩ := List.mem_map.mp hi
    obtain ⟨hrow, hin, hout⟩ := mem_clusterOf hsorted hmem
    exact ⟨row, hrow, rfl, hin, hout⟩
  refine ⟨?_, ?_, ?_⟩
  · rw [hids]
    refine hnd.sublist (List.Sublist.map _ ?_)
    exact (List.filter_sublist.trans (List.takeWhile_sublist _)).cons_cons first
  · intro i hi
    obtain ⟨row, -, rfl, -, rfl | hout⟩ := hrow i hi
    · exact hfree
    · exact hout
  · intro f hf
    obtain ⟨hloser, hwinner⟩ := loser_mem w prio hf
    obtain ⟨loser, hlmem, hlid, hlin, -⟩ := hrow _ hloser
    obtain ⟨winner, hwmem, hwid, hwin, -⟩ := hrow _ (winner_mem prio)
    exact ⟨first, List.mem_cons_self, loser, hlmem, winner, hwmem, hlid,
      hwid.trans hwinner.symm, hlin, hwin⟩

theorem clusterInv_from {seen : List (List NearRow)} {s : Clustering} {first : NearRow}
    {rest rows : List NearRow} (h : ClusterInv windowSecs seen s) (hrows : rows ∈ seen)
    (hsub : ∀ r ∈ first :: rest, r ∈ rows) (hsorted : ∀ r ∈ rest, first.secs ≤ r.secs)
    (hnd : ((first :: rest).map NearRow.id).Nodup) :
    ClusterInv windowSecs seen (clusterFrom w prio windowSecs s first rest) := by
  rcases clusterFrom_cases w prio windowSecs s first rest with
    heq | ⟨g, hg, hfree, heq⟩
  · rw [heq]
    exact h
  · obtain ⟨hids, hnew, hlinked⟩ := cluster_flags w prio hsorted hnd hfree hg
    have hflag : ∀ f ∈ exactGroupFlags w prio g,
        f.1 ∉ s.clustered ∧ f.2 = pickWinner prio g ∧ f.2 ∉ s.clustered := by
      intro f hf
      obtain ⟨hloser, hwinner⟩ := loser_mem w prio hf
      exact ⟨hnew _ hloser, hwinner, hwinner ▸ hnew _ (winner_mem prio)⟩
    rw [heq]
    refine ⟨?_, ?_, ?_, ?_⟩
    · intro f hf
      rcases List.mem_append.mp hf with hf | hf
      · exact h.linked f hf
      · exact ⟨rows, hrows, (hlinked f hf).mono hsub⟩
    · intro f hf
      rcases List.mem_append.mp hf with hf | hf
      · exact ⟨List.mem_append_left _ (h.taken f hf).1, List.mem_append_left _ (h.taken f hf).2⟩
      · have hmem : ∀ i ∈ [f.1, f.2],
            i ∈ (exactGroupFlags w prio g).flatMap (fun f => [f.1, f.2]) :=
          fun i hi => List.mem_flatMap.mpr ⟨f, hf, hi⟩
        exact ⟨List.mem_append_right _ (hmem _ (by simp)),
          List.mem_append_right _ (hmem _ (by simp))⟩
    · rw [List.map_append, List.nodup_append]
      refine ⟨h.losers_nodup, losers_nodup w prio hids, ?_⟩
      rintro i hi j hj rfl
      obtain ⟨f, hf, rfl⟩ := List.mem_map.mp hi
      obtain ⟨f', hf', heq'⟩ := List.mem_map.mp hj
      exact (hflag f' hf').1 (heq' ▸ (h.taken f hf).1)
    · intro f hf f' hf' hff'
      rcases List.mem_append.mp hf with hf | hf <;> rcases List.mem_append.mp hf' with hf' | hf'
      · exact h.winners_shown f hf f' hf' hff'
      · exact (hflag f' hf').1 (hff' ▸ (h.taken f hf).2)
      · exact (hflag f hf).2.2 (hff' ▸ (h.taken f' hf').1)
      · apply winner_not_loser w prio hids
        rw [← (hflag f hf).2.1, hff']
        exact List.mem_map_of_mem hf'

theorem clusterInv_rows {seen : List (List NearRow)} {rows : List NearRow}
    (hrows : rows ∈ seen) {todo : List NearRow} (hsub : ∀ r ∈ todo, r ∈ rows)
    (hsorted : todo.Pairwise (fun a b => a.secs ≤ b.secs))
    (hnd : (todo.map NearRow.id).Nodup) {s : Clustering} (h : ClusterInv windowSecs seen s) :
    ClusterInv windowSecs seen (clusterRows w prio windowSecs s todo) := by
  induction todo generalizing s with
  | nil => exact h
  | cons first rest ih =>
    rw [List.pairwise_cons] at hsorted
    exact ih (fun r hr => hsub r (List.mem_cons_of_mem _ hr)) hsorted.2
      (List.nodup_cons.mp hnd).2 (clusterInv_from w prio h hrows hsub hsorted.1 hnd)

/-- One conversation keeps the invariant. -/
theorem clusterInv_conversation {seen : List (List NearRow)} {rows : List NearRow}
    (hrows : rows ∈ seen) (hnd : (rows.map NearRow.id).Nodup) {s : Clustering}
    (h : ClusterInv windowSecs seen s) :
    ClusterInv windowSecs seen (clusterRows w prio windowSecs s
      (rows.insertionSort (fun a b => a.timeKey ≤ b.timeKey))) := by
  have hperm := List.perm_insertionSort (fun a b : NearRow => a.timeKey ≤ b.timeKey) rows
  refine clusterInv_rows w prio hrows (fun r hr => hperm.mem_iff.mp hr) ?_
    ((hperm.map _).nodup_iff.mpr hnd) h
  refine (List.pairwise_insertionSort (fun a b : NearRow => a.timeKey ≤ b.timeKey) rows).imp ?_
  intro a b hab
  rcases Prod.Lex.le_iff.mp hab with hlt | ⟨heq, -⟩
  · exact hlt.le
  · exact heq.le

/-- **The invariant of the whole pass.** -/
theorem clusterInv_pass (m : NearMap) :
    ClusterInv windowSecs (m.entries.map Prod.snd)
      ((w.order m.entries).foldl (fun s e => clusterRows w prio windowSecs s
        (e.2.insertionSort (fun a b => a.timeKey ≤ b.timeKey))) ⟨[], []⟩) := by
  have hstep : ∀ (todo : List (Int × List NearRow)), (∀ e ∈ todo, e ∈ m.entries) →
      ∀ {s : Clustering}, ClusterInv windowSecs (m.entries.map Prod.snd) s →
        ClusterInv windowSecs (m.entries.map Prod.snd)
          (todo.foldl (fun s e => clusterRows w prio windowSecs s
            (e.2.insertionSort (fun a b => a.timeKey ≤ b.timeKey))) s) := by
    intro todo
    induction todo with
    | nil => exact fun _ _ h => h
    | cons e todo ih =>
      intro hsub s h
      have he := hsub e List.mem_cons_self
      exact ih (fun e' he' => hsub e' (List.mem_cons_of_mem _ he'))
        (clusterInv_conversation w prio (List.mem_map_of_mem he)
          ((List.nodup_flatMap.mp m.ids_nodup).1 e he) h)
  exact hstep _ (fun e he => (w.perm _).mem_iff.mp he) ⟨by simp, by simp, by simp, by simp⟩

/-! The pairs. -/

theorem nearLinked_of_flag {m : NearMap} {f : Int × Int}
    (h : f ∈ clusterNearDupes w prio windowSecs m) :
    ∃ e ∈ m.entries, NearLinked windowSecs e.2 f := by
  obtain ⟨rows, hrows, hlinked⟩ := (clusterInv_pass w prio m).linked f h
  obtain ⟨e, he, rfl⟩ := List.mem_map.mp hrows
  exact ⟨e, he, hlinked⟩

theorem near_losers_nodup (windowSecs : Int) (m : NearMap) :
    ((clusterNearDupes w prio windowSecs m).map Prod.fst).Nodup :=
  (clusterInv_pass w prio m).losers_nodup

theorem near_winner_not_loser {m : NearMap} {f f' : Int × Int}
    (h : f ∈ clusterNearDupes w prio windowSecs m)
    (h' : f' ∈ clusterNearDupes w prio windowSecs m) : f.2 ≠ f'.1 :=
  (clusterInv_pass w prio m).winners_shown f h f' h'

end

/-- A row in a cluster agrees with the first row and shares its content, unless it is it. -/
theorem InCluster.agrees {windowSecs : Int} {first row : NearRow}
    (h : InCluster windowSecs first row) :
    row.isFromMe = first.isFromMe ∧ row.senderNorm = first.senderNorm ∧
      first.secs ≤ row.secs ∧ (row = first ∨ row.secs - first.secs ≤ windowSecs) ∧
      (row = first ∨ first.SharesContent row) := by
  rcases h with rfl | ⟨htwin, hle, hwindow⟩
  · exact ⟨rfl, rfl, le_rfl, .inl rfl, .inl rfl⟩
  · obtain ⟨hme, hsender, -, -, hshares⟩ := NearRow.isTwinOf_iff.mp htwin
    exact ⟨hme, hsender, hle, .inr hwindow, .inr hshares⟩

/-- **What a near-time pair agrees on.** For every map of conversations, source priority
and window, the two rows of a pair are of one conversation, direction and sender and stand
within the window; one row, the earliest, is each of them or shares its non-empty body or
attachments with it; no row is hidden twice and no winner is hidden. -/
theorem near_pairs_agree (w : Walk) (prio : String → Option Nat) (windowSecs : Int)
    (m : NearMap) :
    (∀ f ∈ clusterNearDupes w prio windowSecs m, ∃ e ∈ m.entries,
      ∃ first ∈ e.2, ∃ loser ∈ e.2, ∃ winner ∈ e.2, loser.id = f.1 ∧ winner.id = f.2 ∧
        loser.isFromMe = winner.isFromMe ∧ loser.senderNorm = winner.senderNorm ∧
        |loser.secs - winner.secs| ≤ windowSecs ∧
        first.secs ≤ loser.secs ∧ first.secs ≤ winner.secs ∧
        (loser = first ∨ first.SharesContent loser) ∧
        (winner = first ∨ first.SharesContent winner)) ∧
    ((clusterNearDupes w prio windowSecs m).map Prod.fst).Nodup ∧
    (∀ f ∈ clusterNearDupes w prio windowSecs m, ∀ f' ∈ clusterNearDupes w prio windowSecs m,
      f.2 ≠ f'.1) := by
  refine ⟨fun f hf => ?_, near_losers_nodup w prio windowSecs m,
    fun f hf f' hf' => near_winner_not_loser w prio hf hf'⟩
  obtain ⟨e, he, first, hfirst, loser, hloser, winner, hwinner, hlid, hwid, hlin, hwin⟩ :=
    nearLinked_of_flag w prio hf
  obtain ⟨hlme, hlsender, hlle, hlwindow, hlshares⟩ := hlin.agrees
  obtain ⟨hwme, hwsender, hwle, hwwindow, hwshares⟩ := hwin.agrees
  have hne : loser ≠ winner := by
    rintro rfl
    exact near_winner_not_loser w prio hf hf (hwid.symm.trans hlid)
  have hwindow : |loser.secs - winner.secs| ≤ windowSecs := by
    rw [abs_le]
    rcases hlwindow with rfl | hl <;> rcases hwwindow with rfl | hw
    · exact absurd rfl hne
    · omega
    · omega
    · omega
  exact ⟨e, he, first, hfirst, loser, hloser, winner, hwinner, hlid, hwid,
    hlme.trans hwme.symm, hlsender.trans hwsender.symm, hwindow, hlle, hwle, hlshares,
    hwshares⟩

/-- **The two ends need not share anything with each other.** A message with a text and a
photo gathers a copy of its text and a copy of its photo; the photo's source is preferred,
so the text is hidden behind a photo without one. -/
theorem near_pair_shares_nothing :
    (2, 3) ∈ clusterNearDupes Walk.inserted
      (fun source => if source = "photos" then some 0 else none) 2
      { entries := [(7,
          [⟨1, "sms-backup-plus", 0, "+15555550101", 100, "hi", "ab", 1, "k1"⟩,
            ⟨2, "go-sms-pro", 0, "+15555550101", 101, "hi", "", 0, "k2"⟩,
            ⟨3, "photos", 0, "+15555550101", 101, "", "ab", 1, "k3"⟩])]
        keys_nodup := by decide
        ids_nodup := by decide } ∧
    ¬ NearRow.SharesContent
      ⟨2, "go-sms-pro", 0, "+15555550101", 101, "hi", "", 0, "k2"⟩
      ⟨3, "photos", 0, "+15555550101", 101, "", "ab", 1, "k3"⟩ := by
  refine ⟨by decide, ?_⟩
  simp [NearRow.SharesContent]

end MessageCrate

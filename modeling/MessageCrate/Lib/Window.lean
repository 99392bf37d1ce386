import Mathlib.Data.List.Basic
import Mathlib.Data.List.TakeWhile

/- A sliding window over instants: a queue of instants in the order of the clock, of which those
   that are older than the window's width are dropped from the front.

   1. `live_live`: what was dropped earlier would be dropped later.
   2. `live_eq_filter`: of a queue in order exactly the instants inside the window stay.
   3. `live_snoc`: the instant that is put on last stays for the width.
   4. `live_eq_nil_iff_newest`: the newest instant says whether any is inside. -/
namespace Window

variable {w now later : Nat} {hits : List Nat}

/-- The instants still inside the window that ends at `now`, its first instant with it. -/
def live (w now : Nat) (hits : List Nat) : List Nat := hits.dropWhile fun h => w < now - h

/-- A queue of instants up to `now`, in order. -/
structure Ordered (now : Nat) (hits : List Nat) : Prop where
  sorted : hits.Pairwise (· ≤ ·)
  past : ∀ h ∈ hits, h ≤ now

theorem Ordered.nil : Ordered now [] := ⟨List.Pairwise.nil, by simp⟩

theorem Ordered.mono (h : Ordered now hits) (hle : now ≤ later) : Ordered later hits :=
  ⟨h.sorted, fun x hx => le_trans (h.past x hx) hle⟩

theorem Ordered.snoc (h : Ordered now hits) : Ordered now (hits ++ [now]) where
  sorted := by
    rw [List.pairwise_append]
    refine ⟨h.sorted, List.pairwise_singleton _ _, ?_⟩
    intro a ha b hb
    rw [List.mem_singleton.mp hb]
    exact h.past a ha
  past := by
    intro x hx
    rcases List.mem_append.mp hx with hx | hx
    · exact h.past x hx
    · rw [List.mem_singleton.mp hx]

theorem live_sublist : (live w now hits).Sublist hits := List.dropWhile_sublist _

theorem Ordered.live (h : Ordered now hits) : Ordered now (live w now hits) :=
  ⟨h.sorted.sublist live_sublist, fun x hx => h.past x (live_sublist.subset hx)⟩

@[simp] theorem live_nil : live w now [] = [] := rfl

/-- Nothing is dropped while the oldest is inside. -/
theorem live_eq_self (h : now - hits.headD now ≤ w) : live w now hits = hits := by
  cases hits with
  | nil => rfl
  | cons x hits =>
    apply List.dropWhile_cons_of_neg
    simp only [List.headD_cons] at h
    simp only [decide_eq_true_eq]
    omega

theorem live_live (hle : now ≤ later) : live w later (live w now hits) = live w later hits := by
  induction hits with
  | nil => rfl
  | cons h hits ih =>
    by_cases hold : w < now - h
    · have hold' : w < later - h := by omega
      rw [live, live, live, List.dropWhile_cons_of_pos (by simpa using hold),
        List.dropWhile_cons_of_pos (by simpa using hold')]
      exact ih
    · have hkept : live w now (h :: hits) = h :: hits :=
        List.dropWhile_cons_of_neg (by simpa using hold)
      rw [hkept]

theorem live_length_le (hle : now ≤ later) :
    (live w later hits).length ≤ (live w now hits).length := by
  rw [← live_live hle]
  exact live_sublist.length_le

theorem live_eq_filter (h : hits.Pairwise (· ≤ ·)) :
    live w now hits = hits.filter fun x => now - x ≤ w := by
  induction hits with
  | nil => rfl
  | cons x hits ih =>
    obtain ⟨hfirst, hrest⟩ := List.pairwise_cons.mp h
    by_cases hold : w < now - x
    · rw [live, List.dropWhile_cons_of_pos (by simpa using hold),
        List.filter_cons_of_neg (by simp only [decide_eq_true_eq]; omega)]
      exact ih hrest
    · have hall : ∀ y ∈ x :: hits, now - y ≤ w := by
        intro y hy
        rcases List.mem_cons.mp hy with rfl | hy
        · omega
        · have := hfirst y hy
          omega
      rw [live, List.dropWhile_cons_of_neg (by simpa using hold),
        List.filter_eq_self.mpr (by simpa using hall)]

theorem mem_live (h : hits.Pairwise (· ≤ ·)) {x : Nat} :
    x ∈ live w now hits ↔ x ∈ hits ∧ now - x ≤ w := by
  rw [live_eq_filter h, List.mem_filter, decide_eq_true_eq]

/-- The instant put on last stays as long as the window is wide. -/
theorem live_snoc (h : Ordered now hits) :
    live w later (hits ++ [now]) = live w later hits ++ if later - now ≤ w then [now] else [] := by
  rw [live_eq_filter h.snoc.sorted, live_eq_filter h.sorted, List.filter_append]
  congr 1
  split
  · next hin => exact List.filter_cons_of_pos (by simpa using hin)
  · next hout => exact List.filter_cons_of_neg (by simpa using hout)

theorem live_eq_nil_iff : live w now hits = [] ↔ ∀ h ∈ hits, w < now - h := by
  rw [live, List.dropWhile_eq_nil_iff]
  simp

/-- **The newest instant tells whether any is inside the window.** -/
theorem live_eq_nil_iff_newest (w now : Nat) (h : hits.Pairwise (· ≤ ·)) :
    live w now hits = [] ↔ ∀ newest ∈ hits.getLast?, w < now - newest := by
  rw [live_eq_nil_iff]
  constructor
  · intro hall newest hnewest
    exact hall newest (List.mem_of_mem_getLast? hnewest)
  · intro hnewest x hx
    obtain ⟨front, last, rfl⟩ := (List.eq_nil_or_concat' hits).resolve_left (List.ne_nil_of_mem hx)
    have hlast := hnewest last (by simp)
    rcases List.mem_append.mp hx with hfront | hend
    · have := (List.pairwise_append.mp h).2.2 x hfront last List.mem_cons_self
      omega
    · rw [List.mem_singleton.mp hend]
      exact hlast

end Window

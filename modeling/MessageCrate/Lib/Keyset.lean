import Mathlib.Data.List.Sort
import Mathlib.Order.OrderDual

/- Rows in the order of a key, and the rows beside one of them.

   The keys of the rows are distinct, so the order leaves no choice. Rows in descending order are
   rows in the order of the dual key.

   1. `orderBy_filter`: rows that are picked and then put in order are the ordered rows, picked.
   2. `orderBy_toDual`: the descending order is the ascending one read backwards.
   3. `filter_key_eq`: a key picks one row.
   4. `orderBy_before`: the rows with smaller keys than a row, in order, are what comes before its
      place. -/
namespace Keyset

section
variable {α κ : Type} [LinearOrder κ] {key : α → κ} {rows : List α}

def orderBy (key : α → κ) (rows : List α) : List α :=
  rows.insertionSort fun a b => key a ≤ key b

theorem perm_orderBy : (orderBy key rows).Perm rows := List.perm_insertionSort _ _

theorem mem_orderBy {a : α} : a ∈ orderBy key rows ↔ a ∈ rows := perm_orderBy.mem_iff

theorem length_orderBy : (orderBy key rows).length = rows.length := perm_orderBy.length_eq

/-- Each key is before the next. -/
theorem pairwise_orderBy (hkeys : (rows.map key).Nodup) :
    (orderBy key rows).Pairwise fun a b => key a < key b := by
  have hsorted : (orderBy key rows).Pairwise fun a b => key a ≤ key b :=
    List.pairwise_insertionSort _ _
  have hnodup : (orderBy key rows).Pairwise fun a b => key a ≠ key b :=
    List.pairwise_map.mp ((perm_orderBy.map key).nodup_iff.mpr hkeys)
  exact (hsorted.and hnodup).imp fun h => lt_of_le_of_ne h.1 h.2

/-- Rows in the order of their keys are the ordered rows. -/
theorem orderBy_eq {l : List α} (hl : l.Pairwise fun a b => key a < key b) (hperm : l.Perm rows) :
    orderBy key rows = l := by
  have hkeys : (rows.map key).Nodup := by
    rw [← (hperm.map key).nodup_iff]
    exact List.pairwise_map.mpr (hl.imp fun h => ne_of_lt h)
  refine (perm_orderBy.trans hperm.symm).eq_of_pairwise ?_ (pairwise_orderBy hkeys) hl
  intro a b _ _ hab hba
  exact absurd hab (lt_asymm hba)

theorem orderBy_filter (hkeys : (rows.map key).Nodup) (p : α → Bool) :
    orderBy key (rows.filter p) = (orderBy key rows).filter p :=
  orderBy_eq ((pairwise_orderBy hkeys).filter p) (perm_orderBy.filter p)

theorem orderBy_toDual (hkeys : (rows.map key).Nodup) :
    orderBy (fun a => OrderDual.toDual (key a)) rows = (orderBy key rows).reverse := by
  refine orderBy_eq ?_ ((List.reverse_perm _).trans perm_orderBy)
  rw [List.pairwise_reverse]
  exact (pairwise_orderBy hkeys).imp fun h => OrderDual.toDual_lt_toDual.mpr h

variable {before after : List α} {a : α}

/-- A row is the only one with its key. -/
theorem filter_key_eq (hkeys : (rows.map key).Nodup) (ha : a ∈ rows) :
    (rows.filter fun b => key b = key a) = [a] := by
  induction rows with
  | nil => cases ha
  | cons x rows ih =>
    rw [List.map_cons, List.nodup_cons] at hkeys
    obtain ⟨hx, hrest⟩ := hkeys
    rcases List.mem_cons.mp ha with rfl | ha
    · rw [List.filter_cons_of_pos (by simp), List.filter_eq_nil_iff.mpr]
      intro b hb hkey
      exact hx (List.mem_map.mpr ⟨b, hb, by simpa using hkey⟩)
    · rw [List.filter_cons_of_neg]
      · exact ih hrest ha
      · intro hkey
        exact hx (List.mem_map.mpr ⟨a, ha, (by simpa using hkey : key x = key a).symm⟩)

/-- **The rows before a row.** -/
theorem orderBy_before (hkeys : (rows.map key).Nodup)
    (hplace : orderBy key rows = before ++ a :: after) :
    orderBy key (rows.filter fun b => key b < key a) = before := by
  have hsorted := pairwise_orderBy hkeys
  rw [hplace, List.pairwise_append, List.pairwise_cons] at hsorted
  obtain ⟨-, ⟨hafter, -⟩, hbefore⟩ := hsorted
  rw [orderBy_filter hkeys, hplace, List.filter_append, List.filter_eq_self.mpr,
    List.filter_eq_nil_iff.mpr, List.append_nil]
  · intro b hb
    rcases List.mem_cons.mp hb with rfl | hb
    · simp
    · simpa using le_of_lt (hafter b hb)
  · intro b hb
    simpa using hbefore b hb a List.mem_cons_self

end

end Keyset

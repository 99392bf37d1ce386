import Mathlib.Data.List.Basic

/- Packing: items come one after another and are cut into groups.

   Groups of one width are `List.toChunks`, and hold the items in order (`flatten_toChunks`).

   In greedy packing there is one open group; it is closed when an item does not fit any more, or when it is full.
   `Packed fits items closed current` says that the items so far are the closed groups and the
   open one, in order, and that every group that has an item fits. Its rules are the steps of a
   packer (`Packed.close`, `Packed.add`), whatever it tests before them. -/
namespace Packing

variable {α : Type} {fits : List α → Prop} {items current : List α} {closed : List (List α)} {a : α}

structure Packed (fits : List α → Prop) (items : List α) (closed : List (List α))
    (current : List α) : Prop where
  whole : closed.flatten ++ current = items
  closed_some : ∀ g ∈ closed, g ≠ []
  closed_fits : ∀ g ∈ closed, fits g
  current_fits : current ≠ [] → fits current

theorem Packed.start : Packed fits [] [] [] where
  whole := rfl
  closed_some := fun g hg => by cases hg
  closed_fits := fun g hg => by cases hg
  current_fits := fun h => absurd rfl h

/-- The open group is closed. -/
theorem Packed.close (h : Packed fits items closed current) (hcurrent : current ≠ []) :
    Packed fits items (closed ++ [current]) [] where
  whole := by
    rw [List.flatten_append, List.flatten_singleton, List.append_nil]
    exact h.whole
  closed_some := by
    intro g hg
    rcases List.mem_append.mp hg with hg | hg
    · exact h.closed_some g hg
    · rw [List.mem_singleton.mp hg]
      exact hcurrent
  closed_fits := by
    intro g hg
    rcases List.mem_append.mp hg with hg | hg
    · exact h.closed_fits g hg
    · rw [List.mem_singleton.mp hg]
      exact h.current_fits hcurrent
  current_fits := fun hne => absurd rfl hne

/-- An item joins the open group. -/
theorem Packed.add (h : Packed fits items closed current) (hfits : fits (current ++ [a])) :
    Packed fits (items ++ [a]) closed (current ++ [a]) where
  whole := by rw [← List.append_assoc, h.whole]
  closed_some := h.closed_some
  closed_fits := h.closed_fits
  current_fits := fun _ => hfits

/-- The groups that have been closed hold the first of the items. -/
theorem Packed.closed_start (h : Packed fits items closed current) : closed.flatten <+: items :=
  ⟨current, h.whole⟩

/-- With nothing open the closed groups are all there is. -/
theorem Packed.flatten (h : Packed fits items closed []) : closed.flatten = items := by
  rw [← h.whole, List.append_nil]

/-! Groups of one width. -/

theorem flatten_toChunks_go (n : Nat) (xs : List α) (acc : Array α) (chunks : Array (List α)) :
    (List.toChunks.go n xs acc chunks).flatten = chunks.toList.flatten ++ acc.toList ++ xs := by
  induction xs generalizing acc chunks with
  | nil => simp [List.toChunks.go]
  | cons x xs ih =>
    unfold List.toChunks.go
    split <;> simp [ih]

theorem flatten_toChunks (n : Nat) (xs : List α) : (xs.toChunks n).flatten = xs := by
  unfold List.toChunks
  split
  · rfl
  · simp
  · simp [flatten_toChunks_go]

end Packing

import Mathlib

/- Grouping by a key through a hash map: `map.entry(key).or_default().push(x)`
   over a list, and a walk over the map's entries.

   1. `group key l` is the map such a loop builds: its keys are distinct
      (`group_keys_nodup`) and the group of `k` is the sublist of `l` whose key
      is `k`, in the order of `l` (`mem_group`).
   2. A hash map is walked in no particular order. `Walk` is such an order: any
      rearrangement of the entries. A result stated for every `Walk` does not
      depend on the map's order. -/
namespace Grouping

/-- An order a hash map's entries are walked in: any rearrangement of them. -/
structure Walk where
  order : {α : Type} → List α → List α
  perm : ∀ {α : Type} (l : List α), (order l).Perm l

/-- The walk that takes the entries as they were first inserted. -/
def Walk.inserted : Walk := ⟨id, fun l => List.Perm.refl l⟩

variable {κ α : Type} [DecidableEq κ]

/-- `map.entry(key(x)).or_default().push(x)`. -/
def push (key : α → κ) : List (κ × List α) → α → List (κ × List α)
  | [], x => [(key x, [x])]
  | (k, g) :: rest, x =>
    if k = key x then (k, g ++ [x]) :: rest else (k, g) :: push key rest x

/-- The map the loop over `l` builds. -/
def group (key : α → κ) (l : List α) : List (κ × List α) := l.foldl (push key) []

/-- The group of `k`, empty when the map has none. -/
def find (k : κ) : List (κ × List α) → List α
  | [] => []
  | (k', g) :: rest => if k' = k then g else find k rest

theorem find_push (key : α → κ) (k : κ) (x : α) : ∀ (gs : List (κ × List α)),
    find k (push key gs x) = if key x = k then find k gs ++ [x] else find k gs
  | [] => by by_cases h : key x = k <;> simp [push, find, h]
  | (k', g) :: rest => by
    by_cases hk : k' = key x
    · by_cases h : key x = k <;> simp [push, find, hk, h]
    · by_cases h : key x = k
      · have hk' : ¬ k' = k := fun e => hk (e.trans h.symm)
        simp [push, find, hk', h, find_push key k x rest]
      · by_cases hk' : k' = k
        · simp [push, find, hk', h, show ¬ k = key x from fun e => h e.symm]
        · simp [push, find, hk, hk', h, find_push key k x rest]

theorem keys_push (key : α → κ) (x : α) : ∀ (gs : List (κ × List α)),
    (push key gs x).map Prod.fst =
      if key x ∈ gs.map Prod.fst then gs.map Prod.fst else gs.map Prod.fst ++ [key x]
  | [] => by simp [push]
  | (k', g) :: rest => by
    by_cases hk : k' = key x
    · simp [push, hk]
    · have hk' : ¬ key x = k' := fun e => hk e.symm
      by_cases hm : key x ∈ rest.map Prod.fst
      · have := keys_push key x rest
        rw [if_pos hm] at this
        simp [push, hk, this, hm]
      · have := keys_push key x rest
        rw [if_neg hm] at this
        simp [push, hk, hk', this, hm]

theorem group_concat (key : α → κ) (l : List α) (x : α) :
    group key (l ++ [x]) = push key (group key l) x := by
  simp [group]

theorem find_group (key : α → κ) (k : κ) (l : List α) :
    find k (group key l) = l.filter (fun x => key x = k) := by
  induction l using List.reverseRecOn with
  | nil => rfl
  | append_singleton l x ih =>
    rw [group_concat, find_push, ih, List.filter_append]
    by_cases h : key x = k <;> simp [h]

/-- Each key has one group. -/
theorem group_keys_nodup (key : α → κ) (l : List α) : ((group key l).map Prod.fst).Nodup := by
  induction l using List.reverseRecOn with
  | nil => exact List.nodup_nil
  | append_singleton l x ih =>
    rw [group_concat, keys_push]
    split
    · exact ih
    · next h =>
      rw [List.nodup_append]
      exact ⟨ih, List.nodup_singleton _, fun a ha b hb => by
        rintro rfl; exact h (List.mem_singleton.mp hb ▸ ha)⟩

theorem mem_keys_push {key : α → κ} {k : κ} {x : α} {gs : List (κ × List α)} :
    k ∈ (push key gs x).map Prod.fst ↔ k ∈ gs.map Prod.fst ∨ k = key x := by
  rw [keys_push]
  split
  · next h => exact ⟨Or.inl, fun h' => h'.elim id (fun e => e ▸ h)⟩
  · rw [List.mem_append, List.mem_singleton]

theorem mem_group_keys {key : α → κ} {k : κ} {l : List α} :
    k ∈ (group key l).map Prod.fst ↔ ∃ x ∈ l, key x = k := by
  induction l using List.reverseRecOn with
  | nil => simp [group]
  | append_singleton l x ih =>
    rw [group_concat, mem_keys_push, ih]
    simp only [List.mem_append, List.mem_singleton, or_and_right, exists_or, exists_eq_left]
    exact or_congr_right eq_comm

theorem find_of_mem {k : κ} {g : List α} : ∀ {gs : List (κ × List α)},
    (gs.map Prod.fst).Nodup → (k, g) ∈ gs → find k gs = g
  | (k', g') :: rest, hnd, hm => by
    rw [List.map_cons, List.nodup_cons] at hnd
    rcases List.mem_cons.mp hm with h | h
    · cases h; simp [find]
    · have hne : ¬ k' = k := by
        rintro rfl
        exact hnd.1 (List.mem_map.mpr ⟨(k', g), h, rfl⟩)
      rw [find, if_neg hne, find_of_mem hnd.2 h]

/-- **The group of a key is the sublist with that key.** -/
theorem mem_group {key : α → κ} {k : κ} {g l : List α} :
    (k, g) ∈ group key l ↔ g = l.filter (fun x => key x = k) ∧ g ≠ [] := by
  constructor
  · intro h
    have hg : g = l.filter (fun x => key x = k) := by
      rw [← find_group, find_of_mem (group_keys_nodup key l) h]
    refine ⟨hg, ?_⟩
    obtain ⟨x, hx, hk⟩ := mem_group_keys.mp (List.mem_map.mpr ⟨(k, g), h, rfl⟩)
    rw [hg]
    exact List.ne_nil_of_mem (List.mem_filter.mpr ⟨hx, by simpa using hk⟩)
  · rintro ⟨hg, hne⟩
    obtain ⟨x, hx⟩ := List.exists_mem_of_ne_nil g hne
    rw [hg, List.mem_filter] at hx
    have hk : k ∈ (group key l).map Prod.fst := mem_group_keys.mpr ⟨x, hx.1, by simpa using hx.2⟩
    obtain ⟨⟨k', g'⟩, hm, rfl⟩ := List.mem_map.mp hk
    have hg' : g' = g := by
      rw [hg, ← find_group, find_of_mem (group_keys_nodup key l) hm]
    exact hg' ▸ hm

theorem mem_of_mem_group {key : α → κ} {k : κ} {g l : List α} (h : (k, g) ∈ group key l)
    {x : α} (hx : x ∈ g) : x ∈ l ∧ key x = k := by
  rw [(mem_group.mp h).1, List.mem_filter] at hx
  exact ⟨hx.1, by simpa using hx.2⟩

theorem group_nodup (key : α → κ) (l : List α) : (group key l).Nodup :=
  List.Nodup.of_map _ (group_keys_nodup key l)

/-- What is computed group by group is computed key by key, each from its sublist. -/
theorem flatMap_group {β : Type} (key : α → κ) (l : List α) (f : κ → List α → List β) :
    (group key l).flatMap (fun p => f p.1 p.2) =
      ((group key l).map Prod.fst).flatMap (fun k => f k (l.filter (fun x => key x = k))) := by
  rw [List.flatMap_map]
  apply List.flatMap_congr
  rintro ⟨k, g⟩ hp
  rw [(mem_group.mp hp).1]

/-- Two lists with the same keys have their groups under the same keys. -/
theorem group_keys_perm {β : Type} {key : α → κ} {key' : β → κ} {l : List α} {m : List β}
    (h : ∀ k, (∃ x ∈ l, key x = k) ↔ ∃ y ∈ m, key' y = k) :
    ((group key l).map Prod.fst).Perm ((group key' m).map Prod.fst) := by
  rw [List.perm_ext_iff_of_nodup (group_keys_nodup key l) (group_keys_nodup key' m)]
  intro k
  rw [mem_group_keys, mem_group_keys, h k]

/-- The groups together hold the list's members, each once for each occurrence. -/
theorem flatMap_group_perm (key : α → κ) (l : List α) :
    ((group key l).flatMap Prod.snd).Perm l := by
  induction l using List.reverseRecOn with
  | nil => exact List.Perm.refl _
  | append_singleton l x ih =>
    rw [group_concat]
    have hpush : ∀ gs : List (κ × List α),
        ((push key gs x).flatMap Prod.snd).Perm (gs.flatMap Prod.snd ++ [x]) := by
      intro gs
      induction gs with
      | nil => simp [push]
      | cons p rest ihg =>
        obtain ⟨k', g⟩ := p
        simp only [push]
        split
        · simp only [List.flatMap_cons, List.append_assoc]
          exact List.Perm.append_left g List.perm_append_comm
        · simp only [List.flatMap_cons, List.append_assoc]
          exact List.Perm.append_left g ihg
    exact (hpush _).trans (ih.append_right _)

/-- What a list keeps of its members' ids when some members are taken to new values that
carry their id. -/
theorem map_filterMap_sublist {β γ : Type} {f : α → Option β} {g : β → γ} {h : α → γ}
    (hf : ∀ a b, f a = some b → g b = h a) (l : List α) :
    ((l.filterMap f).map g).Sublist (l.map h) := by
  induction l with
  | nil => exact List.Sublist.refl _
  | cons a l ih =>
    cases hfa : f a with
    | none =>
      rw [List.filterMap_cons_none hfa]
      exact ih.cons _
    | some b =>
      rw [List.filterMap_cons_some hfa, List.map_cons, List.map_cons, hf a b hfa]
      exact ih.cons_cons _

/-- Looking up a list of pairs whose keys are distinct. -/
theorem lookup_eq_some_of_nodup {β : Type} {l : List (κ × β)} (hnd : (l.map Prod.fst).Nodup)
    {k : κ} {x : β} : l.lookup k = some x ↔ (k, x) ∈ l := by
  induction l with
  | nil => simp
  | cons p l ih =>
    rw [List.map_cons, List.nodup_cons] at hnd
    by_cases hk : k = p.1
    · subst hk
      rw [List.lookup_cons_self, List.mem_cons]
      constructor
      · intro h
        exact .inl (by rw [← Option.some.inj h])
      · rintro (h | h)
        · rw [← h]
        · exact absurd (List.mem_map_of_mem h) hnd.1
    · rw [List.lookup_cons, beq_false_of_ne hk, ih hnd.2, List.mem_cons]
      exact ⟨.inr, fun h => h.resolve_left (fun he => hk (by rw [← he]))⟩

theorem lookup_eq_none_iff {β : Type} {l : List (κ × β)} {k : κ} :
    l.lookup k = none ↔ k ∉ l.map Prod.fst := by
  rw [List.lookup_eq_none_iff, List.mem_map]
  constructor
  · rintro h ⟨p, hp, rfl⟩
    simpa using h p hp
  · intro h p hp
    have : k ≠ p.1 := fun he => h ⟨p, hp, he.symm⟩
    simpa using this

end Grouping

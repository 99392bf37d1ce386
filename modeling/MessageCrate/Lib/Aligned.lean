import Mathlib.Data.List.Basic
import Mathlib.Data.List.Forall2
import Mathlib.Data.List.Nodup

/- Lists taken side by side.

   1. `bind_eq_ok`, `mapM_eq_ok`: a pass that may fail, as what it says of each element.
   2. `map_eq_iff`, `forall₂_iff_of_keys`: lists with the same keys in the same order.
   3. `exists_forall₂`: two lists that are read as one.
   4. `eq_of_lookup_eq`: tables with the same keys that look up the same values.
   5. `flatMap_map_self`: elements that are repeated once at most. -/
namespace Aligned

variable {α β γ κ ε : Type}

theorem bind_eq_ok {x : Except ε α} {f : α → Except ε β} {r : β} :
    (x >>= f) = .ok r ↔ ∃ a, x = .ok a ∧ f a = .ok r := by
  cases x with
  | error e =>
    constructor
    · intro h
      cases h
    · rintro ⟨a, ha, -⟩
      cases ha
  | ok a =>
    constructor
    · exact fun h => ⟨a, rfl, h⟩
    · rintro ⟨b, hb, hf⟩
      obtain rfl := Except.ok.inj hb
      exact hf

/-- A pass that may fail gives what it gives for each element. -/
theorem mapM_eq_ok {f : α → Except ε β} {l : List α} {r : List β} :
    l.mapM f = .ok r ↔ List.Forall₂ (fun a b => f a = .ok b) l r := by
  induction l generalizing r with
  | nil =>
    rw [List.mapM_nil, List.forall₂_nil_left_iff]
    exact ⟨fun h => (Except.ok.inj h).symm, fun h => congrArg Except.ok h.symm⟩
  | cons a l ih =>
    rw [List.mapM_cons, List.forall₂_cons_left_iff]
    cases ha : f a with
    | error e =>
      constructor
      · intro h
        cases h
      · rintro ⟨b, s, hb, -⟩
        cases hb
    | ok b =>
      cases hl : l.mapM f with
      | error e =>
        constructor
        · intro h
          cases h
        · rintro ⟨c, s, -, hs, -⟩
          rw [ih.mpr hs] at hl
          cases hl
      | ok s =>
        constructor
        · intro h
          exact ⟨b, s, rfl, ih.mp hl, (Except.ok.inj h).symm⟩
        · rintro ⟨c, s', hc, hs', rfl⟩
          obtain rfl := Except.ok.inj hc
          obtain rfl := Except.ok.inj (hl.symm.trans (ih.mpr hs'))
          rfl

theorem map_eq_iff {f : α → κ} {g : β → κ} {l : List α} {l' : List β} :
    l.map f = l'.map g ↔ List.Forall₂ (fun a b => f a = g b) l l' := by
  rw [← List.forall₂_eq_eq_eq, List.forall₂_map_left_iff, List.forall₂_map_right_iff]

/-- Two lists are read as one exactly when each pair of their elements is read as one. -/
theorem exists_forall₂ {P : α → γ → Prop} {Q : β → γ → Prop} {l : List α} {l' : List β} :
    (∃ s, List.Forall₂ P l s ∧ List.Forall₂ Q l' s) ↔
      List.Forall₂ (fun a b => ∃ c, P a c ∧ Q b c) l l' := by
  constructor
  · rintro ⟨s, hP, hQ⟩
    induction hP generalizing l' with
    | nil =>
      cases hQ
      exact .nil
    | cons hp _ ih =>
      cases hQ with
      | cons hq hQ => exact .cons ⟨_, hp, hq⟩ (ih hQ)
  · intro h
    induction h with
    | nil => exact ⟨[], .nil, .nil⟩
    | cons hab _ ih =>
      obtain ⟨c, hp, hq⟩ := hab
      obtain ⟨s, hP, hQ⟩ := ih
      exact ⟨c :: s, .cons hp hP, .cons hq hQ⟩

/-- Where no key comes twice, elements that have one key stand side by side. -/
theorem forall₂_iff_of_keys {key : α → κ} {key' : β → κ} {P : α → β → Prop} {l : List α}
    {l' : List β} (hkeys : l.map key = l'.map key') (hnodup : (l.map key).Nodup) :
    List.Forall₂ P l l' ↔ ∀ a ∈ l, ∀ b ∈ l', key a = key' b → P a b := by
  have haligned := map_eq_iff.mp hkeys
  clear hkeys
  induction haligned with
  | nil => exact ⟨fun _ a ha => absurd ha List.not_mem_nil, fun _ => .nil⟩
  | @cons a b l l' hab hrest ih =>
    rw [List.map_cons, List.nodup_cons] at hnodup
    have hmap : l.map key = l'.map key' := map_eq_iff.mpr hrest
    have htail := ih hnodup.2
    rw [List.forall₂_cons]
    constructor
    · rintro ⟨hP, hforall⟩ a' ha' b' hb' heq
      have hall := htail.mp hforall
      obtain rfl | ha' := List.mem_cons.mp ha'
      · obtain rfl | hb' := List.mem_cons.mp hb'
        · exact hP
        · exact absurd (hmap ▸ heq ▸ List.mem_map_of_mem hb') hnodup.1
      · obtain rfl | hb' := List.mem_cons.mp hb'
        · exact absurd (hab ▸ heq ▸ List.mem_map_of_mem ha') hnodup.1
        · exact hall a' ha' b' hb' heq
    · intro hall
      refine ⟨hall a List.mem_cons_self b List.mem_cons_self hab, htail.mpr fun a' ha' b' hb' => ?_⟩
      exact hall a' (List.mem_cons_of_mem _ ha') b' (List.mem_cons_of_mem _ hb')

/-- A table is told by what is looked up under its keys, when no key comes twice. -/
theorem eq_of_lookup_eq [BEq κ] [LawfulBEq κ] {s s' : List (κ × β)}
    (hkeys : s.map Prod.fst = s'.map Prod.fst) (hnodup : (s.map Prod.fst).Nodup)
    (hlookup : ∀ k ∈ s.map Prod.fst, s.lookup k = s'.lookup k) : s = s' := by
  induction s generalizing s' with
  | nil => exact (List.map_eq_nil_iff.mp hkeys.symm).symm
  | cons entry s ih =>
    cases s' with
    | nil => cases hkeys
    | cons entry' s' =>
      obtain ⟨k, v⟩ := entry
      obtain ⟨k', v'⟩ := entry'
      obtain ⟨rfl, htail⟩ := List.cons.inj hkeys
      rw [List.map_cons, List.nodup_cons] at hnodup
      have hhead := hlookup k List.mem_cons_self
      rw [List.lookup_cons_self, List.lookup_cons_self] at hhead
      obtain rfl := Option.some.inj hhead
      rw [ih htail hnodup.2]
      intro key hkey
      have hne : (key == k) = false := by
        rw [beq_eq_false_iff_ne]
        exact fun heq => hnodup.1 (heq ▸ hkey)
      have := hlookup key (List.mem_cons_of_mem _ hkey)
      rwa [List.lookup_cons, List.lookup_cons, hne] at this

/-- An element that is repeated once at most is kept or left out. -/
theorem flatMap_map_self {g : α → List β} {l : List α} (h : ∀ a ∈ l, (g a).length ≤ 1) :
    l.flatMap (fun a => (g a).map (fun _ => a)) = l.filter (fun a => !(g a).isEmpty) := by
  induction l with
  | nil => rfl
  | cons a l ih =>
    have hhead := h a List.mem_cons_self
    have htail := ih (fun b hb => h b (List.mem_cons_of_mem _ hb))
    rw [List.flatMap_cons, htail]
    cases hg : g a with
    | nil => rw [List.filter_cons_of_neg (by simp [hg])]; rfl
    | cons b bs =>
      rw [hg, List.length_cons] at hhead
      have hbs : bs = [] := List.length_eq_zero_iff.mp (by omega)
      rw [List.filter_cons_of_pos (by simp [hg]), hbs]
      rfl

end Aligned

import Mathlib

/- Numbers as text of a fixed width.

   1. `fixed k n` is `n` in `k` digits. A longer number does not fit; one that does is the number's
      own digits after zeros (`zeros_append_toDigits`).
   2. Texts of one width are in the order of their numbers (`fixed_lt`), and texts made of such
      fields, each with a separator behind it, in the lexicographic order of theirs
      (`fieldsText_lt`). -/
namespace FixedWidth

/-- The last `k` digits of a number. -/
def fixed : Nat → Nat → List Char
  | 0, _ => []
  | k + 1, n => fixed k (n / 10) ++ [Nat.digitChar (n % 10)]

theorem length_fixed : ∀ k n : Nat, (fixed k n).length = k
  | 0, _ => rfl
  | k + 1, n => by rw [fixed, List.length_append, length_fixed k, List.length_singleton]

theorem fixed_zero : ∀ k : Nat, fixed k 0 = List.replicate k '0'
  | 0 => rfl
  | k + 1 => by
    rw [fixed, Nat.zero_div, fixed_zero k, List.replicate_succ']
    rfl

/-- A number that fits is written by its digits after zeros. -/
theorem zeros_append_toDigits : ∀ {k n : Nat}, 0 < k → n < 10 ^ k →
    List.replicate (k - (Nat.toDigits 10 n).length) '0' ++ Nat.toDigits 10 n = fixed k n
  | 0, _, hk, _ => by omega
  | k + 1, n, _, hn => by
    rcases Nat.lt_or_ge n 10 with hdigit | hmore
    · rw [Nat.toDigits_of_lt_base hdigit, fixed, Nat.div_eq_of_lt hdigit, fixed_zero,
        Nat.mod_eq_of_lt hdigit]
      rfl
    · have hk : 0 < k := by
        by_contra hzero
        obtain rfl : k = 0 := by omega
        omega
      have hfits : n / 10 < 10 ^ k := by
        rw [Nat.pow_succ] at hn
        omega
      have ih := zeros_append_toDigits hk hfits
      rw [Nat.toDigits_of_base_le (by omega) hmore, fixed, ← ih, List.length_append,
        List.length_singleton, Nat.add_sub_add_right, List.append_assoc]

/-! Order. -/

theorem append_lt_append : ∀ {a a' : List Char} (b b' : List Char), a.length = a'.length → a < a' →
    a ++ b < a' ++ b'
  | [], [], _, _, _, h => absurd h (List.lt_irrefl _)
  | [], _ :: _, _, _, hlen, _ => by simp at hlen
  | _ :: _, [], _, _, hlen, _ => by simp at hlen
  | x :: a, y :: a', b, b', hlen, h => by
    rw [List.cons_append, List.cons_append, List.cons_lt_cons_iff]
    rcases List.cons_lt_cons_iff.mp h with hlt | ⟨heq, hlt⟩
    · exact .inl hlt
    · exact .inr ⟨heq, append_lt_append b b' (by simpa using hlen) hlt⟩

theorem digitChar_lt : ∀ d < 10, ∀ d' < 10, d < d' → Nat.digitChar d < Nat.digitChar d' := by
  decide

theorem fixed_lt : ∀ {k n m : Nat}, n < m → m < 10 ^ k → fixed k n < fixed k m
  | 0, n, m, hlt, hm => by
    rw [Nat.pow_zero] at hm
    omega
  | k + 1, n, m, hlt, hm => by
    rw [Nat.pow_succ] at hm
    rw [fixed, fixed]
    rcases Nat.lt_or_ge (n / 10) (m / 10) with htens | htens
    · apply append_lt_append
      · rw [length_fixed, length_fixed]
      · exact fixed_lt htens (by omega)
    · have heq : n / 10 = m / 10 := by omega
      rw [heq]
      apply List.append_left_lt
      rw [List.cons_lt_cons_iff]
      exact .inl (digitChar_lt _ (by omega) _ (by omega) (by omega))

/-- Numbers in fields, each with its separator behind it. -/
def fieldsText : List (Nat × Char) → List Nat → List Char
  | (width, sep) :: fields, n :: ns => fixed width n ++ sep :: fieldsText fields ns
  | _, _ => []

/-- Every number fits its field. -/
def Fits : List (Nat × Char) → List Nat → Prop
  | (width, _) :: fields, n :: ns => n < 10 ^ width ∧ Fits fields ns
  | [], [] => True
  | _, _ => False

/-- **Texts of the same fields are in the order of their numbers.** -/
theorem fieldsText_lt : ∀ {fields : List (Nat × Char)} {ns ms : List Nat}, Fits fields ns →
    Fits fields ms → ns < ms → fieldsText fields ns < fieldsText fields ms
  | [], [], [], _, _, h => absurd h (List.lt_irrefl _)
  | (width, sep) :: fields, n :: ns, m :: ms, hns, hms, h => by
    rw [fieldsText, fieldsText]
    rcases List.cons_lt_cons_iff.mp h with hlt | ⟨rfl, hlt⟩
    · apply append_lt_append
      · rw [length_fixed, length_fixed]
      · exact fixed_lt hlt hms.1
    · apply List.append_left_lt
      rw [List.cons_lt_cons_iff]
      exact .inr ⟨rfl, fieldsText_lt hns.2 hms.2 hlt⟩

end FixedWidth

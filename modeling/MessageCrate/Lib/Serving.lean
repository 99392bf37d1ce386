import Mathlib.Data.List.Basic
import Mathlib.Data.List.ReduceOption

/- Requests served out of a stock.

   The customers come one after another, and each asks for an item or for nothing. A request for
   an item that the stock held at first is given that item, and the first of its kind that is left
   is taken away. Any other request is given the first item that is left. Each request has an item
   that it should be given.

   1. `serve_eq_iff`: each is given what it should be exactly when every request for another item
      asks for one that the stock never held, and the first item left is the one it should be
      given once those of the requests before it are taken away.
   2. `left_take`: where the items keep their places and are marked when they are taken, taking
      the first of a kind that is not marked takes that kind out of what is left. -/
namespace Serving

variable {α : Type} [BEq α] [LawfulBEq α] (stock : List α) (blank : α)

/-- What is given for an item that is asked for, and what is left then; `blank` when nothing is
left to give. -/
def give (left : List α) (asked : α) : α × List α :=
  if asked ∈ stock then (asked, left.erase asked) else (left.headD blank, left.tail)

/-- What the customers are given. -/
def serve : List α → List (Option α) → List (Option α)
  | _, [] => []
  | left, none :: rest => none :: serve left rest
  | left, some asked :: rest =>
    some (give stock blank left asked).1 :: serve (give stock blank left asked).2 rest

/-- A request for `asked` that should be given `wanted` is, with `left` left. -/
def Right (left : List α) (asked wanted : α) : Prop :=
  asked ≠ wanted → asked ∉ stock ∧ left.headD blank = wanted

variable {stock blank} {left : List α} {asked wanted : α} {requests : List (Option (α × α))}

theorem length_serve (left : List α) (asks : List (Option α)) :
    (serve stock blank left asks).length = asks.length := by
  induction asks generalizing left with
  | nil => rfl
  | cons a asks ih =>
    cases a with
    | none => exact congrArg (· + 1) (ih left)
    | some asked => exact congrArg (· + 1) (ih _)

/-- Who asks for nothing is given nothing, and nobody else is. -/
theorem isSome_serve {asks : List (Option α)} {i : Nat} {ask given : Option α}
    (hask : asks[i]? = some ask) (hgiven : (serve stock blank left asks)[i]? = some given) :
    given.isSome = ask.isSome := by
  induction asks generalizing left i with
  | nil => cases hask
  | cons a asks ih =>
    cases a with
    | none =>
      cases i with
      | zero =>
        obtain rfl := Option.some.inj hask
        obtain rfl := Option.some.inj hgiven
        rfl
      | succ i => exact ih hask hgiven
    | some asked =>
      cases i with
      | zero =>
        obtain rfl := Option.some.inj hask
        obtain rfl := Option.some.inj hgiven
        rfl
      | succ i => exact ih hask hgiven

/-- One request. What is given is taken away. -/
theorem give_right (hwanted : wanted ∈ stock) (h : Right stock blank left asked wanted) :
    give stock blank left asked = (wanted, left.erase wanted) := by
  rw [give]
  by_cases heq : asked = wanted
  · rw [heq, if_pos hwanted]
  · obtain ⟨hstock, hhead⟩ := h heq
    rw [if_neg hstock, hhead]
    cases left with
    | nil => rfl
    | cons x left =>
      have hx : x = wanted := hhead
      rw [hx, List.erase_cons_head]
      rfl

theorem right_of_give (h : (give stock blank left asked).1 = wanted) :
    Right stock blank left asked wanted := by
  intro heq
  rw [give] at h
  split at h
  · exact absurd h heq
  · next hstock => exact ⟨hstock, h⟩

/-- **Each is given what it should be** exactly when each of them is right, with the items of the
    requests before it taken away. -/
theorem serve_eq_iff (hwanted : ∀ r, some r ∈ requests → r.2 ∈ stock) :
    serve stock blank left (requests.map (Option.map Prod.fst)) =
        requests.map (Option.map Prod.snd) ↔
      ∀ i r, requests[i]? = some (some r) →
        Right stock blank (left.diff ((requests.take i).reduceOption.map Prod.snd)) r.1 r.2 := by
  induction requests generalizing left with
  | nil => exact ⟨fun _ i r h => absurd h (by simp), fun _ => rfl⟩
  | cons request requests ih =>
    have hrest : ∀ r, some r ∈ requests → r.2 ∈ stock :=
      fun s hs => hwanted s (List.mem_cons_of_mem _ hs)
    cases request with
    | none =>
      show none :: serve stock blank left _ = none :: requests.map (Option.map Prod.snd) ↔ _
      constructor
      · intro h i r hi
        cases i with
        | zero => cases hi
        | succ i => exact (ih hrest).mp (List.cons.inj h).2 i r hi
      · intro h
        congr 1
        exact (ih hrest).mpr fun i r hi => h (i + 1) r hi
    | some r =>
      have hr : r.2 ∈ stock := hwanted r List.mem_cons_self
      show some (give stock blank left r.1).1 :: serve stock blank (give stock blank left r.1).2 _ =
        some r.2 :: requests.map (Option.map Prod.snd) ↔ _
      have htake : ∀ i, ((some r :: requests).take (i + 1)).reduceOption.map Prod.snd =
          r.2 :: (requests.take i).reduceOption.map Prod.snd := fun i => rfl
      constructor
      · intro h i s hi
        obtain ⟨hhead, htail⟩ := List.cons.inj h
        have hright := right_of_give (Option.some.inj hhead)
        cases i with
        | zero =>
          obtain rfl : r = s := Option.some.inj (Option.some.inj hi)
          exact hright
        | succ i =>
          rw [give_right hr hright] at htail
          rw [htake, List.diff_cons]
          exact (ih hrest).mp htail i s hi
      · intro h
        have hright : Right stock blank left r.1 r.2 := h 0 r rfl
        rw [give_right hr hright]
        congr 1
        apply (ih hrest).mpr
        intro i s hi
        have := h (i + 1) s hi
        rwa [htake, List.diff_cons] at this

/-! Items that keep their places. -/

/-- The items that are not marked. -/
def leftOf : List α → List Bool → List α
  | a :: as, used :: useds => if used then leftOf as useds else a :: leftOf as useds
  | as, [] => as
  | [], _ => []

omit [BEq α] [LawfulBEq α] in
theorem leftOf_replicate (as : List α) : leftOf as (List.replicate as.length false) = as := by
  induction as with
  | nil => rfl
  | cons a as ih => exact congrArg (a :: ·) ih

variable {as : List α} {used : List Bool} {i : Nat} {x : α}

omit [BEq α] [LawfulBEq α] in
theorem mem_leftOf (hlen : as.length = used.length) (hx : x ∈ leftOf as used) :
    ∃ i : Nat, as[i]? = some x ∧ used[i]? = some false := by
  induction as generalizing used with
  | nil =>
    obtain rfl : used = [] := List.length_eq_zero_iff.mp hlen.symm
    cases hx
  | cons a as ih =>
    cases used with
    | nil => cases hlen
    | cons u used =>
      have hrest : x ∈ leftOf as used →
          ∃ i : Nat, (a :: as)[i]? = some x ∧ (u :: used)[i]? = some false := by
        intro h
        obtain ⟨i, hi, hu⟩ := ih (Nat.succ.inj hlen) h
        exact ⟨i + 1, hi, hu⟩
      cases u with
      | true => exact hrest hx
      | false =>
        obtain heq | h := List.mem_cons.mp hx
        · exact ⟨0, congrArg some heq.symm, rfl⟩
        · exact hrest h

omit [BEq α] [LawfulBEq α] in
/-- An item that is marked already is marked again. -/
theorem left_again (hi : used[i]? = some true) : leftOf as (used.set i true) = leftOf as used := by
  have hsame : used.set i true = used := by
    apply List.ext_getElem?
    intro j
    rw [List.getElem?_set]
    split
    · next heq =>
      subst heq
      rw [hi, if_pos (List.getElem?_eq_some_iff.mp hi).1]
    · rfl
  rw [hsame]

/-- **The first of a kind that is not marked is taken.** -/
theorem left_take (hlen : as.length = used.length) (hx : as[i]? = some x)
    (hi : used[i]? = some false) (hfirst : ∀ j < i, as[j]? = some x → used[j]? = some true) :
    leftOf as (used.set i true) = (leftOf as used).erase x := by
  induction as generalizing used i with
  | nil => cases hx
  | cons a as ih =>
    cases used with
    | nil => cases hlen
    | cons u used =>
      have hlen' : as.length = used.length := Nat.succ.inj hlen
      cases i with
      | zero =>
        obtain rfl : a = x := Option.some.inj hx
        obtain rfl : u = false := Option.some.inj hi
        exact (List.erase_cons_head a (leftOf as used)).symm
      | succ i =>
        have hrest := ih hlen' hx hi fun j hj hjx => hfirst (j + 1) (by omega) hjx
        have ha : u = false → a ≠ x := by
          intro hu hax
          have := hfirst 0 (by omega) (congrArg some hax)
          rw [hu] at this
          cases this
        cases u with
        | true => exact hrest
        | false =>
          show a :: leftOf as (used.set i true) = (a :: leftOf as used).erase x
          rw [hrest, List.erase_cons_tail (by simpa using ha rfl)]

omit [BEq α] [LawfulBEq α] in
/-- With every item before it marked, an item that is not marked is the first one left. -/
theorem leftOf_head (hlen : as.length = used.length) (hx : as[i]? = some x)
    (hi : used[i]? = some false) (hfirst : ∀ j < i, used[j]? = some true) :
    (leftOf as used).head? = some x := by
  induction as generalizing used i with
  | nil => cases hx
  | cons a as ih =>
    cases used with
    | nil => cases hlen
    | cons u used =>
      cases i with
      | zero =>
        obtain rfl : u = false := Option.some.inj hi
        exact hx
      | succ i =>
        obtain rfl : u = true := Option.some.inj (hfirst 0 (by omega))
        exact ih (Nat.succ.inj hlen) hx hi fun j hj => hfirst (j + 1) (by omega)

omit [BEq α] [LawfulBEq α] in
/-- With every item marked, nothing is left. -/
theorem leftOf_nil (hlen : as.length = used.length) (hall : ∀ j < used.length, used[j]? = some true) :
    leftOf as used = [] := by
  induction as generalizing used with
  | nil =>
    obtain rfl : used = [] := List.length_eq_zero_iff.mp hlen.symm
    rfl
  | cons a as ih =>
    cases used with
    | nil => cases hlen
    | cons u used =>
      obtain rfl : u = true := Option.some.inj (hall 0 (Nat.succ_pos _))
      exact ih (Nat.succ.inj hlen) fun j hj => hall (j + 1) (Nat.succ_lt_succ hj)

end Serving

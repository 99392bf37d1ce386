import Mathlib.Data.List.Basic

/- Programs over a state that fail without undoing what they did.

   An `Op` reads and writes a state and ends with a value or an error; the state is kept
   either way, as the fields of a `&mut self` are. `Ends (x s) Q E` says that `x`, run from `s`,
   ends in a state of `Q` for its value, or in one of `E` for its error; `Meets P x Q E`
   says so for every state of `P`.

   What is proved: one rule for each way a program is built (`Ends.bind` .. `Ends.ite`), the
   rule for a program whose error is passed over (`Ends.ignore`), and the rule for a program
   run for each member of a list (`Meets.forEach`). `Keeps f x` says that `x` leaves alone what
   `f` reads, and has the same rules. -/
namespace Ops

def Op (σ ε α : Type) : Type := σ → Except ε α × σ

section
variable {σ ε α β : Type}

namespace Op

instance : Monad (Op σ ε) where
  pure a := fun s => (.ok a, s)
  bind x f := fun s =>
    match x s with
    | (.ok a, t) => f a t
    | (.error e, t) => (.error e, t)

def get : Op σ ε σ := fun s => (.ok s, s)

def modify (f : σ → σ) : Op σ ε Unit := fun s => (.ok (), f s)

def fail (e : ε) : Op σ ε α := fun s => (.error e, s)

/-- The program run for each member of a list in turn, to the first error. -/
def forEach (f : α → Op σ ε Unit) : List α → Op σ ε Unit
  | [] => pure ()
  | a :: l => do
    f a
    forEach f l

/-- The program with its error passed over. -/
def ignore (x : Op σ ε α) : Op σ ε Unit := fun s => (.ok (), (x s).2)

end Op

/-- A run that came out as `r` ended in a state of `Q`, or failed in one of `E`. -/
def Ends (r : Except ε α × σ) (Q : α → σ → Prop) (E : ε → σ → Prop) : Prop :=
  match r with
  | (.ok a, t) => Q a t
  | (.error e, t) => E e t

/-- From a state of `P`, `x` ends in one of `Q`, or fails in one of `E`. -/
def Meets (P : σ → Prop) (x : Op σ ε α) (Q : α → σ → Prop) (E : ε → σ → Prop) : Prop :=
  ∀ s, P s → Ends (x s) Q E

variable {P P' : σ → Prop} {Q Q' : α → σ → Prop} {E E' : ε → σ → Prop} {x : Op σ ε α} {s : σ}

theorem Ends.mono {r : Except ε α × σ} (h : Ends r Q E) (hQ : ∀ a t, Q a t → Q' a t)
    (hE : ∀ e t, E e t → E' e t) : Ends r Q' E' := by
  obtain ⟨a | a, t⟩ := r
  · exact hE a t h
  · exact hQ a t h

theorem Ends.imp {r : Except ε α × σ} (h : Ends r Q E) (hQ : ∀ a t, Q a t → Q' a t) :
    Ends r Q' E :=
  h.mono hQ fun _ _ he => he

theorem bind_apply (x : Op σ ε α) (f : α → Op σ ε β) (s : σ) :
    (x >>= f) s = match x s with
      | (.ok a, t) => f a t
      | (.error e, t) => (.error e, t) := rfl

theorem modify_apply (g : σ → σ) (s : σ) :
    (Op.modify g : Op σ ε Unit) s = (.ok (), g s) := rfl

/-- A program and then another: where the first ends the second begins. -/
theorem Ends.bind {R : β → σ → Prop} {f : α → Op σ ε β} (hx : Ends (x s) Q E)
    (hf : ∀ a t, Q a t → Ends (f a t) R E) : Ends ((x >>= f) s) R E := by
  rw [bind_apply]
  generalize x s = r at hx
  obtain ⟨a | a, t⟩ := r
  · exact hx
  · exact hf a t hx

theorem Ends.pure {a : α} (h : Q a s) : Ends ((Pure.pure a : Op σ ε α) s) Q E := h

theorem Ends.get_bind {f : σ → Op σ ε α} (h : Ends (f s s) Q E) :
    Ends ((Op.get >>= f) s) Q E := h

theorem Ends.modify_bind {g : σ → σ} {f : Unit → Op σ ε α} (h : Ends (f () (g s)) Q E) :
    Ends ((Op.modify g >>= f) s) Q E := h

theorem Ends.ite {c : Prop} [Decidable c] {y : Op σ ε α} (hx : c → Ends (x s) Q E)
    (hy : ¬ c → Ends (y s) Q E) : Ends ((if c then x else y) s) Q E := by
  split
  · exact hx ‹_›
  · exact hy ‹_›

/-- A program whose error is passed over. -/
theorem Ends.ignore {R : σ → Prop} (h : Ends (x s) (fun _ => R) (fun _ => R)) :
    Ends ((x.ignore : Op σ ε Unit) s) (fun _ => R) E := by
  change R (x s).2
  generalize x s = r at h ⊢
  obtain ⟨a | a, t⟩ := r
  · exact h
  · exact h

/-- A program run for each member of a list: `P l` is what holds with `l` still to run. -/
theorem Meets.forEach {P : List α → σ → Prop} {f : α → Op σ ε Unit}
    (h : ∀ a l, Meets (P (a :: l)) (f a) (fun _ => P l) E) (l : List α) :
    Meets (P l) (Op.forEach f l) (fun _ => P []) E := by
  induction l with
  | nil => exact fun s hs => hs
  | cons a l ih => exact fun s hs => (h a l s hs).bind fun _ t ht => ih t ht

/-! What a program leaves alone. -/

/-- `x` changes nothing of what `f` reads, whether it fails or not. -/
def Keeps {γ : Type} (f : σ → γ) (x : Op σ ε α) : Prop := ∀ s, f (x s).2 = f s

namespace Keeps
variable {γ : Type} {f : σ → γ} {y : Op σ ε α}

theorem pure (a : α) : Keeps f (Pure.pure a : Op σ ε α) := fun _ => rfl

theorem fail (e : ε) : Keeps f (Op.fail e : Op σ ε α) := fun _ => rfl

theorem get : Keeps f (Op.get : Op σ ε σ) := fun _ => rfl

theorem modify {g : σ → σ} (h : ∀ s, f (g s) = f s) : Keeps f (Op.modify g : Op σ ε Unit) := h

theorem bind {g : α → Op σ ε β} (hx : Keeps f x) (hg : ∀ a, Keeps f (g a)) :
    Keeps f (x >>= g) := by
  intro s
  rw [bind_apply]
  have hs := hx s
  generalize x s = r at hs
  obtain ⟨e | a, t⟩ := r
  · exact hs
  · exact (hg a t).trans hs

theorem ite {c : Prop} [Decidable c] (hx : Keeps f x) (hy : Keeps f y) :
    Keeps f (if c then x else y) := by
  split
  · exact hx
  · exact hy

theorem ignore (hx : Keeps f x) : Keeps f (x.ignore : Op σ ε Unit) := hx

theorem forEach {g : α → Op σ ε Unit} (h : ∀ a, Keeps f (g a)) (l : List α) :
    Keeps f (Op.forEach g l) := by
  induction l with
  | nil => exact pure ()
  | cons a l ih => exact bind (h a) fun _ => ih

end Keeps

end

end Ops

import Mathlib.Data.List.Induction

/- Runs of a system that takes one step after another.

   A system is a relation `step s e t`: in state `s` the event `e` may lead to `t`. Which
   event comes next is not the system's choice, so a fact about every `Run` is a fact about
   every schedule.

   What is proved:
     1. `Run.keeps`: a fact that every step keeps holds at the end of a run that starts with it.
     2. `Run.append`, `Run.exists_split`: runs composed and cut.
     3. `Run.first`: a fact that is false at the start and true at the end of a run was made
        true by one step of it.
     4. `foldl_keeps`, `safe_iff_meets`: the same of a system whose steps are a function; where
        a step breaks a property just when it misses its condition, the runs that keep the
        property are those whose steps all meet it.
     5. `Meeting`: each step of a run meets its condition, in the state it is taken in;
        `Meeting.keeps`: what such steps keep holds in every state reached.
     6. `run_of_foldlM`, `foldlM_keeps`: the same of a system whose steps are a function that may
        fail; `foldlM_flatMap`: steps that are themselves runs. -/
namespace Runs

section
variable {σ ε : Type} {step : σ → ε → σ → Prop} {s t u : σ} {e : ε} {es fs : List ε}

inductive Run (step : σ → ε → σ → Prop) : σ → List ε → σ → Prop where
  | nil (s : σ) : Run step s [] s
  | cons {s t u : σ} {e : ε} {es : List ε} (h : step s e t) (rest : Run step t es u) :
      Run step s (e :: es) u

theorem Run.append (h : Run step s es t) (h' : Run step t fs u) : Run step s (es ++ fs) u := by
  induction h with
  | nil s => exact h'
  | cons hstep _ ih => exact .cons hstep (ih h')

theorem Run.snoc (h : Run step s es t) (h' : step t e u) : Run step s (es ++ [e]) u :=
  h.append (.cons h' (.nil u))

theorem Run.exists_split (h : Run step s (es ++ fs) u) :
    ∃ t, Run step s es t ∧ Run step t fs u := by
  induction es generalizing s with
  | nil => exact ⟨s, .nil s, h⟩
  | cons e es ih =>
    cases h with
    | cons hstep hrest =>
      obtain ⟨t, hes, hfs⟩ := ih hrest
      exact ⟨t, .cons hstep hes, hfs⟩

theorem Run.keeps {I : σ → Prop} (h : Run step s es t)
    (hstep : ∀ s e t, step s e t → I s → I t) (hs : I s) : I t := by
  induction h with
  | nil s => exact hs
  | cons hst _ ih => exact ih (hstep _ _ _ hst hs)

/-- What a run made true, one of its steps made true. -/
theorem Run.first {P : σ → Prop} (h : Run step s es t) (hs : ¬ P s) (ht : P t) :
    ∃ es₁ e es₂ a b, es = es₁ ++ e :: es₂ ∧ Run step s es₁ a ∧ step a e b ∧ Run step b es₂ t ∧
      ¬ P a ∧ P b := by
  induction h with
  | nil s => exact absurd ht hs
  | @cons s b u e es hst hrest ih =>
    by_cases hb : P b
    · exact ⟨[], e, es, s, b, rfl, .nil s, hst, hrest, hs, hb⟩
    · obtain ⟨es₁, e', es₂, a, c, rfl, hrun, hst', hrest', ha, hc⟩ := ih hb ht
      exact ⟨e :: es₁, e', es₂, a, c, rfl, .cons hst hrun, hst', hrest', ha, hc⟩

theorem Run.mono {step' : σ → ε → σ → Prop} (h : Run step s es t)
    (hle : ∀ s e t, step s e t → step' s e t) : Run step' s es t := by
  induction h with
  | nil s => exact .nil s
  | cons hst _ ih => exact .cons (hle _ _ _ hst) ih

end

section fold
variable {σ ε : Type} {step : σ → ε → σ} {I Safe : σ → Prop} {C : σ → ε → Prop} {s : σ}

theorem foldl_keeps (hkeep : ∀ s e, I s → C s e → I (step s e)) (es : List ε) (hs : I s)
    (hC : ∀ pre e post, es = pre ++ e :: post → C (pre.foldl step s) e) :
    I (es.foldl step s) := by
  induction es generalizing s with
  | nil => exact hs
  | cons e es ih =>
    refine ih (hkeep s e hs (hC [] e es rfl)) (fun pre e' post h => ?_)
    exact hC (e :: pre) e' post (congrArg (e :: ·) h)

/-- Every state reached is safe exactly when every step taken meets its condition. -/
theorem safe_iff_meets (hs : I s) (hsafe : ∀ s, I s → Safe s)
    (hkeep : ∀ s e, I s → C s e → I (step s e))
    (hbreak : ∀ s e, I s → ¬ C s e → ¬ Safe (step s e)) (es : List ε) :
    (∀ pre post, es = pre ++ post → Safe (pre.foldl step s)) ↔
      ∀ pre e post, es = pre ++ e :: post → C (pre.foldl step s) e := by
  constructor
  · intro hall
    have hmeets : ∀ pre e post, es = pre ++ e :: post → I (pre.foldl step s) →
        C (pre.foldl step s) e := by
      intro pre e post hes hI
      by_contra hC
      refine hbreak _ e hI hC ?_
      have hnext := hall (pre ++ [e]) post (by simp [hes])
      rwa [List.foldl_append] at hnext
    have hinv : ∀ pre post, es = pre ++ post → I (pre.foldl step s) := by
      intro pre
      induction pre using List.reverseRec with
      | nil => exact fun _ _ => hs
      | append_singleton pre e ih =>
        intro post hes
        have hes' : es = pre ++ e :: post := by simp [hes]
        rw [List.foldl_append]
        exact hkeep _ e (ih _ hes') (hmeets pre e post hes' (ih _ hes'))
    exact fun pre e post hes => hmeets pre e post hes (hinv pre _ hes)
  · intro hC pre post hes
    refine hsafe _ (foldl_keeps hkeep pre hs (fun pre' e post' hpre => ?_))
    exact hC pre' e (post' ++ post) (by simp [hes, hpre])

/-- Each step of the run that starts in `s` meets its condition. -/
def Meeting (step : σ → ε → σ) (C : σ → ε → Prop) : σ → List ε → Prop
  | _, [] => True
  | s, e :: es => C s e ∧ Meeting step C (step s e) es

instance Meeting.decidable (step : σ → ε → σ) (C : σ → ε → Prop) [∀ s e, Decidable (C s e)] :
    ∀ s es, Decidable (Meeting step C s es)
  | _, [] => inferInstanceAs (Decidable True)
  | s, e :: es =>
    have := Meeting.decidable step C (step s e) es
    inferInstanceAs (Decidable (C s e ∧ Meeting step C (step s e) es))

theorem Meeting.meets {es : List ε} (h : Meeting step C s es) {pre post : List ε} {e : ε}
    (hes : es = pre ++ e :: post) : C (pre.foldl step s) e := by
  induction pre generalizing s es with
  | nil =>
    subst hes
    exact h.1
  | cons e' pre ih =>
    subst hes
    exact ih h.2 rfl

theorem Meeting.keeps (hkeep : ∀ s e, I s → C s e → I (step s e)) {es : List ε}
    (h : Meeting step C s es) (hs : I s) {pre post : List ε} (hes : es = pre ++ post) :
    I (pre.foldl step s) := by
  induction pre generalizing s es with
  | nil => exact hs
  | cons e pre ih =>
    subst hes
    obtain ⟨hC, hrest⟩ := h
    exact ih hrest (hkeep s e hs hC) rfl

end fold

section foldM
variable {σ : Type} {s t : σ}

theorem run_of_foldlM {ε : Type} {next : σ → ε → Option σ} {es : List ε}
    (h : es.foldlM next s = some t) :
    Run (fun s e t => next s e = some t) s es t := by
  induction es generalizing s with
  | nil =>
    obtain rfl : s = t := Option.some.inj h
    exact .nil s
  | cons e es ih =>
    rw [List.foldlM_cons] at h
    obtain ⟨u, hu, hrest⟩ := Option.bind_eq_some_iff.mp h
    exact .cons hu (ih hrest)

variable {ε α : Type*} {next : σ → ε → Option σ} {es : List ε}

/-- A fact about the events so far and the state they lead to. -/
theorem foldlM_keeps {I : List ε → σ → Prop}
    (hstep : ∀ done s e t, I done s → next s e = some t → I (done ++ [e]) t) {done : List ε}
    (hs : I done s) (h : es.foldlM next s = some t) : I (done ++ es) t := by
  induction es generalizing done s with
  | nil =>
    obtain rfl : s = t := Option.some.inj h
    rw [List.append_nil]
    exact hs
  | cons e es ih =>
    rw [List.foldlM_cons] at h
    obtain ⟨u, hu, hrest⟩ := Option.bind_eq_some_iff.mp h
    rw [List.append_cons]
    exact ih (hstep done s e u hs hu) hrest

theorem foldlM_flatMap (f : α → List ε) (xs : List α) (s : σ) :
    (xs.flatMap f).foldlM next s = xs.foldlM (fun s x => (f x).foldlM next s) s := by
  induction xs generalizing s with
  | nil => rfl
  | cons x xs ih =>
    rw [List.flatMap_cons, List.foldlM_append, List.foldlM_cons]
    exact congrArg _ (funext ih)

end foldM

end Runs

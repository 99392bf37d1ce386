import Mathlib.Data.List.Nodup

/- A fair mutex: the task that has its permit, and the tasks that wait for it, first come first.
   A permit that is given back goes to the first that waits.

   `Ok owns waits m`: the mutex agrees with what the tasks are doing. Each operation has a lemma
   that says whose doings it has to agree with afterwards. -/
namespace FairMutex

structure Mutex (τ : Type) where
  owner : Option τ
  queue : List τ

variable {τ : Type}

def free : Mutex τ := ⟨none, []⟩

/-- Take the permit, or wait for it. -/
def Mutex.arrive (m : Mutex τ) (t : τ) : Mutex τ :=
  match m.owner with
  | none => ⟨some t, m.queue⟩
  | some o => ⟨some o, m.queue ++ [t]⟩

/-- Wait no longer. -/
def Mutex.leave [DecidableEq τ] (m : Mutex τ) (t : τ) : Mutex τ := { m with queue := m.queue.erase t }

/-- Give the permit back. -/
def Mutex.handOver (m : Mutex τ) : Mutex τ :=
  match m.queue with
  | [] => ⟨none, []⟩
  | t :: rest => ⟨some t, rest⟩

structure Ok (owns waits : τ → Prop) (m : Mutex τ) : Prop where
  owner : ∀ t, m.owner = some t ↔ owns t
  queue : ∀ t, t ∈ m.queue ↔ waits t
  once : m.queue.Nodup
  idle : m.owner = none → m.queue = []

namespace Ok
variable {owns owns' waits waits' : τ → Prop} {m : Mutex τ} {t : τ}

theorem congr (h : Ok owns waits m) (ho : ∀ t, owns t ↔ owns' t) (hw : ∀ t, waits t ↔ waits' t) :
    Ok owns' waits' m :=
  ⟨fun t => (h.owner t).trans (ho t), fun t => (h.queue t).trans (hw t), h.once, h.idle⟩

theorem of_free (ho : ∀ t, ¬ owns t) (hw : ∀ t, ¬ waits t) : Ok owns waits (free : Mutex τ) where
  owner := by
    intro t
    simp [free, ho t]
  queue := by
    intro t
    simp [free, hw t]
  once := List.nodup_nil
  idle := fun _ => rfl

/-- Two that own the permit are one. -/
theorem owner_unique (h : Ok owns waits m) {t u : τ} (ht : owns t) (hu : owns u) : t = u :=
  Option.some.inj (((h.owner t).mpr ht).symm.trans ((h.owner u).mpr hu))

theorem exists_owner (h : Ok owns waits m) (ht : waits t) : ∃ o, owns o := by
  cases howner : m.owner with
  | none =>
    have hmem := (h.queue t).mpr ht
    rw [h.idle howner] at hmem
    cases hmem
  | some o => exact ⟨o, (h.owner o).mp howner⟩

theorem arrive_free (h : Ok owns waits m) (hfree : m.owner = none) :
    Ok (fun x => x = t) waits (m.arrive t) where
  owner := by
    intro x
    rw [Mutex.arrive, hfree]
    simp [eq_comm]
  queue := by
    intro x
    rw [Mutex.arrive, hfree]
    exact h.queue x
  once := by
    rw [Mutex.arrive, hfree]
    exact h.once
  idle := by
    rw [Mutex.arrive, hfree]
    intro hnone
    cases hnone

theorem arrive_owned {o : τ} (h : Ok owns waits m) (howned : m.owner = some o) (ht : ¬ waits t) :
    Ok owns (fun x => waits x ∨ x = t) (m.arrive t) where
  owner := by
    intro x
    rw [← h.owner x, Mutex.arrive, howned]
  queue := by
    intro x
    rw [Mutex.arrive, howned]
    simp [h.queue x]
  once := by
    rw [Mutex.arrive, howned]
    refine List.Nodup.append h.once (List.nodup_singleton t) ?_
    rw [List.disjoint_singleton, h.queue]
    exact ht
  idle := by
    rw [Mutex.arrive, howned]
    intro hnone
    cases hnone

theorem leave [DecidableEq τ] (h : Ok owns waits m) : Ok owns (fun x => waits x ∧ x ≠ t) (m.leave t) where
  owner := h.owner
  queue := by
    intro x
    rw [Mutex.leave, h.once.mem_erase_iff, h.queue x, and_comm]
  once := h.once.erase t
  idle := by
    intro hnone
    rw [Mutex.leave, h.idle hnone]
    rfl

/-- **The permit goes to the first that waits.** -/
theorem handOver (h : Ok owns waits m) : Ok (fun x => m.queue.head? = some x)
    (fun x => waits x ∧ m.queue.head? ≠ some x) m.handOver := by
  have hqueue := h.queue
  have honce := h.once
  unfold Mutex.handOver
  cases hq : m.queue with
  | nil =>
    rw [hq] at hqueue
    exact of_free (by simp) fun t ht => by simpa using (hqueue t).mpr ht.1
  | cons first rest =>
    rw [hq] at hqueue honce
    obtain ⟨hnot, hrest⟩ := List.nodup_cons.mp honce
    exact
      { owner := fun t => by simp
        queue := by
          intro t
          rw [← hqueue t]
          simp only [List.mem_cons, List.head?_cons, ne_eq, Option.some.injEq]
          constructor
          · intro ht
            refine ⟨.inr ht, ?_⟩
            rintro rfl
            exact hnot ht
          · rintro ⟨rfl | ht, hne⟩
            · exact absurd rfl hne
            · exact ht
        once := hrest
        idle := fun hnone => by cases hnone }

end Ok

end FairMutex

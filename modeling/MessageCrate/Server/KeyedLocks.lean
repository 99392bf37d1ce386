import Mathlib.Data.Finset.Card
import Mathlib.Data.Fintype.Basic
import MessageCrate.Lib.FairMutex
import MessageCrate.Lib.Runs

/- One async mutex for each key, made when it is asked for and forgotten when the last holder
   leaves (`keyed_locks.rs`).

   Correspondence (Rust ↔ Lean):
     `KeyedLocks::lock`: the map's entry cloned    ↔ `Event.lookup`
       `lock_owned` polled for the first time      ↔ `Event.poll`
       a waiter that was given the permit returns  ↔ `Event.resume`
       the future dropped before it returned       ↔ `Event.abandon`
     `KeyedLockGuard::drop`: the removal test      ↔ `Event.test`
       the guard field dropped: the permit goes on ↔ `Event.release`
       its `Arc` (or an abandoned one) goes        ↔ `Event.forget`
     `Arc::strong_count`                           ↔ `State.strong`

   The map's own mutex is held for one lookup or one test, so each of these is one step. The inner
   mutex is tokio's, which is fair: a permit that is given back goes to the first that waits. To
   give it back the guard needs its `Arc`, so the `Arc` goes in a step of its own after it. -/
namespace MessageCrate.KeyedLocks
open FairMutex Runs

/-- Where a call of `lock` and its guard are. -/
inductive Phase
  | cloned
  | queued
  /-- The permit is this task's, which has not run since. -/
  | granted
  /-- `lock` has returned, and the guard's drop has not begun. -/
  | holding
  | tested
  | released
  /-- The wait was abandoned. -/
  | leaving
  deriving DecidableEq

/-- The task waits for the mutex or holds its guard. -/
def Phase.Live : Phase → Prop
  | .cloned | .queued | .granted | .holding => True
  | .tested | .released | .leaving => False

def Phase.Owns : Phase → Prop
  | .granted | .holding | .tested => True
  | .cloned | .queued | .released | .leaving => False

structure Visit where
  phase : Phase
  key : String
  mutex : Nat
  deriving DecidableEq

/-- `keyOf` and `abandoned` are history: the key that a mutex was made for, and the keys on which
a wait was abandoned. -/
structure State (n : Nat) where
  map : String → Option Nat
  tasks : Fin n → Option Visit
  locks : Nat → Mutex (Fin n)
  strong : Nat → Nat
  fresh : Nat
  keyOf : Nat → String
  abandoned : List String

inductive Event (n : Nat)
  | lookup (i : Fin n) (key : String)
  | poll (i : Fin n)
  | resume (i : Fin n)
  | abandon (i : Fin n)
  | test (i : Fin n)
  | release (i : Fin n)
  | forget (i : Fin n)

section
variable {n : Nat}

def start : State n := ⟨fun _ => none, fun _ => none, fun _ => free, fun _ => 0, 0, fun _ => "", []⟩

def State.put (s : State n) (i : Fin n) (v : Option Visit) : State n :=
  { s with tasks := Function.update s.tasks i v }

def State.setLock (s : State n) (m : Nat) (lock : Mutex (Fin n)) : State n :=
  { s with locks := Function.update s.locks m lock }

def State.setStrong (s : State n) (m count : Nat) : State n :=
  { s with strong := Function.update s.strong m count }

/-- The permit of `m` goes to the first that waits. -/
def State.handOver (s : State n) (m : Nat) : State n :=
  let s' := s.setLock m (s.locks m).handOver
  match (s.locks m).queue with
  | [] => s'
  | j :: _ => s'.put j ((s.tasks j).map fun v => { v with phase := .granted })

/-- The mutex of a key, made when the map has none. -/
def State.lookup (s : State n) (i : Fin n) (key : String) : State n :=
  match s.map key with
  | some m => (s.put i (some ⟨.cloned, key, m⟩)).setStrong m (s.strong m + 1)
  | none =>
    { (s.put i (some ⟨.cloned, key, s.fresh⟩)).setStrong s.fresh 2 with
      map := Function.update s.map key (some s.fresh)
      fresh := s.fresh + 1
      keyOf := Function.update s.keyOf s.fresh key }

def State.poll (s : State n) (i : Fin n) (key : String) (m : Nat) : State n :=
  let phase := if (s.locks m).owner.isNone then Phase.holding else Phase.queued
  (s.put i (some ⟨phase, key, m⟩)).setLock m ((s.locks m).arrive i)

/-- The drop's test: the map's entry and this guard are the only two that hold the mutex. -/
def State.test (s : State n) (i : Fin n) (key : String) (m : Nat) : State n :=
  let s' := s.put i (some ⟨.tested, key, m⟩)
  if s.strong m = 2 then
    match s.map key with
    | none => s'
    | some entry => { s'.setStrong entry (s.strong entry - 1) with map := Function.update s.map key none }
  else s'

def State.abandon (s : State n) (key : String) : State n :=
  { s with abandoned := key :: s.abandoned }

def next (s : State n) : Event n → Option (State n)
  | .lookup i key =>
    match s.tasks i with
    | none => some (s.lookup i key)
    | some _ => none
  | .poll i =>
    match s.tasks i with
    | some ⟨.cloned, key, m⟩ => some (s.poll i key m)
    | _ => none
  | .resume i =>
    match s.tasks i with
    | some ⟨.granted, key, m⟩ => some (s.put i (some ⟨.holding, key, m⟩))
    | _ => none
  | .abandon i =>
    match s.tasks i with
    | some ⟨.cloned, key, m⟩ => some ((s.put i (some ⟨.leaving, key, m⟩)).abandon key)
    | some ⟨.queued, key, m⟩ =>
      some (((s.put i (some ⟨.leaving, key, m⟩)).setLock m ((s.locks m).leave i)).abandon key)
    | some ⟨.granted, key, m⟩ =>
      some (((s.put i (some ⟨.leaving, key, m⟩)).handOver m).abandon key)
    | _ => none
  | .test i =>
    match s.tasks i with
    | some ⟨.holding, key, m⟩ => some (s.test i key m)
    | _ => none
  | .release i =>
    match s.tasks i with
    | some ⟨.tested, key, m⟩ => some ((s.put i (some ⟨.released, key, m⟩)).handOver m)
    | _ => none
  | .forget i =>
    match s.tasks i with
    | some ⟨.released, _, m⟩ | some ⟨.leaving, _, m⟩ =>
      some ((s.put i none).setStrong m (s.strong m - 1))
    | _ => none

def Step (s : State n) (e : Event n) (t : State n) : Prop := next s e = some t

/-! The fair mutexes. -/

/-- The task has the permit of a mutex. -/
def OwnsIn (task : Option Visit) (m : Nat) : Prop := ∃ v ∈ task, v.mutex = m ∧ v.phase.Owns

def WaitsIn (task : Option Visit) (m : Nat) : Prop := ∃ v ∈ task, v.mutex = m ∧ v.phase = .queued

def State.Owns (s : State n) (m : Nat) (i : Fin n) : Prop := OwnsIn (s.tasks i) m

def State.Waits (s : State n) (m : Nat) (i : Fin n) : Prop := WaitsIn (s.tasks i) m

/-- The tasks that hold an `Arc` of a mutex. -/
def users (tasks : Fin n → Option Visit) (m : Nat) : Finset (Fin n) :=
  Finset.univ.filter fun i => (tasks i).map Visit.mutex = some m

/-- What holds in every state. A task that waits or holds a guard has the mutex that the map has;
a mutex and the tasks agree; and its strong count is the number of those that hold it. -/
structure Sane (s : State n) : Prop where
  mapped : ∀ key m, s.map key = some m → s.keyOf m = key ∧ m < s.fresh
  visits : ∀ i v, s.tasks i = some v → s.keyOf v.mutex = v.key ∧ v.mutex < s.fresh
  live : ∀ i v, s.tasks i = some v → v.phase.Live → s.map v.key = some v.mutex
  locks : ∀ m, Ok (s.Owns m) (s.Waits m) (s.locks m)
  left : ∀ i v, s.tasks i = some v → v.phase = .leaving → v.key ∈ s.abandoned
  counted : ∀ m, s.strong m = (users s.tasks m).card + if s.map (s.keyOf m) = some m then 1 else 0

theorem sane_start : Sane (start : State n) where
  mapped := by
    intro key m h
    cases h
  visits := by
    intro i v h
    cases h
  live := by
    intro i v h
    cases h
  locks := by
    intro m
    refine Ok.of_free ?_ ?_
    · rintro i ⟨v, h, -⟩
      cases h
    · rintro i ⟨v, h, -⟩
      cases h
  left := by
    intro i v h
    cases h
  counted := by
    intro m
    simp [start, users]

section puts
variable {s : State n} {i j : Fin n} {m : Nat} {v w : Option Visit}

theorem OwnsIn.not_waitsIn {task : Option Visit} {m' : Nat} (h : OwnsIn task m) : ¬ WaitsIn task m' := by
  rintro ⟨v, hv, -, hqueued⟩
  obtain ⟨w, hw, -, howns⟩ := h
  cases Option.mem_unique hv hw
  rw [hqueued] at howns
  exact howns

theorem OwnsIn.mutex_eq {task : Option Visit} {m' : Nat} (h : OwnsIn task m) (h' : OwnsIn task m') :
    m = m' := by
  obtain ⟨v, hv, rfl, -⟩ := h
  obtain ⟨w, hw, rfl, -⟩ := h'
  rw [Option.mem_unique hv hw]

theorem WaitsIn.mutex_eq {task : Option Visit} {m' : Nat} (h : WaitsIn task m) (h' : WaitsIn task m') :
    m = m' := by
  obtain ⟨v, hv, rfl, -⟩ := h
  obtain ⟨w, hw, rfl, -⟩ := h'
  rw [Option.mem_unique hv hw]

theorem owns_put : (s.put i v).Owns m j ↔ if j = i then OwnsIn v m else s.Owns m j := by
  simp only [State.Owns, State.put, Function.update_apply]
  split <;> rfl

theorem waits_put : (s.put i v).Waits m j ↔ if j = i then WaitsIn v m else s.Waits m j := by
  simp only [State.Waits, State.put, Function.update_apply]
  split <;> rfl

theorem handOver_nil (hq : (s.locks m).queue = []) :
    s.handOver m = s.setLock m (s.locks m).handOver := by
  rw [State.handOver, hq]

theorem handOver_cons {rest : List (Fin n)} {u : Visit} (hq : (s.locks m).queue = j :: rest)
    (hu : s.tasks j = some u) : s.handOver m =
      (s.setLock m (s.locks m).handOver).put j (some { u with phase := .granted }) := by
  simp only [State.handOver, hq, hu, Option.map_some]

/-- A task that neither takes nor gives up a place leaves the mutexes agreeing. -/
theorem Sane.locks_put (h : Sane s) (ho : ∀ m, OwnsIn v m ↔ s.Owns m i)
    (hw : ∀ m, WaitsIn v m ↔ s.Waits m i) (m : Nat) :
    Ok ((s.put i v).Owns m) ((s.put i v).Waits m) (s.locks m) := by
  refine (h.locks m).congr ?_ ?_
  · intro j
    rw [owns_put]
    split
    · next heq => rw [ho, heq]
    · rfl
  · intro j
    rw [waits_put]
    split
    · next heq => rw [hw, heq]
    · rfl

/-- **The permit that a task gives up goes to the first that waits.** -/
theorem Sane.locks_handOver (h : Sane s) (hi : s.Owns m i) (hnone : ∀ m, ¬ OwnsIn v m ∧ ¬ WaitsIn v m)
    (m' : Nat) : Ok (((s.put i v).handOver m).Owns m') (((s.put i v).handOver m).Waits m')
      (((s.put i v).handOver m).locks m') := by
  have hother : ∀ m', m' ≠ m → Ok ((s.put i v).Owns m') ((s.put i v).Waits m') (s.locks m') := by
    intro m' hne
    refine (h.locks m').congr ?_ ?_
    · intro j
      rw [owns_put]
      split
      · next heq =>
        rw [heq]
        exact iff_of_false (fun ho => hne (OwnsIn.mutex_eq ho hi)) (hnone m').1
      · rfl
    · intro j
      rw [waits_put]
      split
      · next heq =>
        rw [heq]
        exact iff_of_false hi.not_waitsIn (hnone m').2
      · rfl
  have hdone := (h.locks m).handOver
  have hwaits : ∀ j, (s.put i v).Waits m j ↔ s.Waits m j := by
    intro j
    rw [waits_put]
    split
    · next heq =>
      rw [heq]
      exact iff_of_false (hnone m).2 hi.not_waitsIn
    · rfl
  have howns : ∀ j, ¬ (s.put i v).Owns m j := by
    intro j hj
    rw [owns_put] at hj
    split at hj
    · exact (hnone m).1 hj
    · next hne => exact hne ((h.locks m).owner_unique hj hi)
  cases hq : (s.locks m).queue with
  | nil =>
    rw [handOver_nil (show ((s.put i v).locks m).queue = [] from hq)]
    simp only [State.setLock, Function.update_apply]
    split
    · next heq =>
      rw [heq]
      refine hdone.congr ?_ ?_
      · intro j
        rw [hq]
        exact iff_of_false (by simp) (howns j)
      · intro j
        rw [hq]
        exact ⟨fun hj => (hwaits j).mpr hj.1, fun hj => ⟨(hwaits j).mp hj, by simp⟩⟩
    · next hne => exact hother m' hne
  | cons first rest =>
    have hfirst : s.Waits m first := by
      rw [← (h.locks m).queue, hq]
      exact List.mem_cons_self
    obtain ⟨w, hw, rfl, hqueued⟩ := (hwaits first).mpr hfirst
    rw [handOver_cons (show ((s.put i v).locks w.mutex).queue = first :: rest from hq) hw]
    have hwaitsFirst : ∀ m', (s.put i v).Waits m' first → m' = w.mutex := fun m' hm' =>
      hm'.mutex_eq ⟨w, hw, rfl, hqueued⟩
    have hownsFirst : ∀ m', ¬ (s.put i v).Owns m' first := fun m' hm' =>
      hm'.not_waitsIn ⟨w, hw, rfl, hqueued⟩
    have howner : OwnsIn (some { w with phase := .granted }) w.mutex := ⟨_, rfl, rfl, trivial⟩
    have hwaiter : ∀ m', ¬ WaitsIn (some { w with phase := .granted }) m' := fun m' =>
      howner.not_waitsIn
    show Ok _ _ (Function.update s.locks w.mutex (s.locks w.mutex).handOver m')
    rw [Function.update_apply]
    split
    · next heq =>
      rw [heq]
      refine hdone.congr ?_ ?_
      · intro j
        rw [hq, List.head?_cons, Option.some.injEq, owns_put]
        split
        · next hj => exact iff_of_true hj.symm howner
        · next hj => exact iff_of_false (Ne.symm hj) (howns j)
      · intro j
        rw [hq, List.head?_cons, ne_eq, Option.some.injEq, waits_put]
        split
        · next hj => exact iff_of_false (fun hj' => hj'.2 hj.symm) (hwaiter _)
        · next hj =>
          exact ⟨fun hj' => (hwaits j).mpr hj'.1, fun hj' => ⟨(hwaits j).mp hj', Ne.symm hj⟩⟩
    · next hne =>
      refine (hother m' hne).congr ?_ ?_
      · intro j
        refine Iff.trans ?_ owns_put.symm
        split
        · next hj =>
          rw [hj]
          exact iff_of_false (hownsFirst m') fun ho => hne (ho.mutex_eq howner)
        · rfl
      · intro j
        refine Iff.trans ?_ waits_put.symm
        split
        · next hj =>
          rw [hj]
          exact iff_of_false (fun hm' => hne (hwaitsFirst m' hm')) (hwaiter m')
        · rfl

/-! Strong counts. -/

theorem mem_users {tasks : Fin n → Option Visit} :
    j ∈ users tasks m ↔ ∃ u, tasks j = some u ∧ u.mutex = m := by
  simp [users]

theorem card_users_update (tasks : Fin n → Option Visit) (i : Fin n) (v : Option Visit) (m : Nat) :
    (users (Function.update tasks i v) m).card +
      (if (tasks i).map Visit.mutex = some m then 1 else 0) =
    (users tasks m).card + if v.map Visit.mutex = some m then 1 else 0 := by
  have herase : (users (Function.update tasks i v) m).erase i = (users tasks m).erase i := by
    ext j
    simp only [Finset.mem_erase, users, Finset.mem_filter, Finset.mem_univ, true_and]
    constructor
    · rintro ⟨hne, hj⟩
      rw [Function.update_of_ne hne] at hj
      exact ⟨hne, hj⟩
    · rintro ⟨hne, hj⟩
      rw [Function.update_of_ne hne]
      exact ⟨hne, hj⟩
  have hcard : ∀ tasks : Fin n → Option Visit, (users tasks m).card =
      ((users tasks m).erase i).card + if (tasks i).map Visit.mutex = some m then 1 else 0 := by
    intro tasks
    split
    · next hi =>
      have hmem : i ∈ users tasks m := by simpa [users] using hi
      exact (Finset.card_erase_add_one hmem).symm
    · next hi =>
      have hmem : i ∉ users tasks m := by simpa [users] using hi
      rw [Finset.erase_eq_of_notMem hmem]
      rfl
  rw [hcard (Function.update tasks i v), hcard tasks, herase, Function.update_self]
  omega

/-! Steps that make no `Arc` and drop none. -/

/-- The tasks are at the same keys and mutexes, in phases that are no more alive. -/
structure Rephased (s s' : State n) : Prop where
  some : ∀ j v', s'.tasks j = some v' → ∃ v, s.tasks j = some v ∧ v.key = v'.key ∧
    v.mutex = v'.mutex ∧ (v'.phase.Live → v.phase.Live) ∧
    (v'.phase = .leaving → v.phase = .leaving ∨ v'.key ∈ s'.abandoned)
  none : ∀ j, s'.tasks j = none → s.tasks j = none

theorem Sane.rephased {s' : State n} (h : Sane s) (hr : Rephased s s') (hmap : s'.map = s.map)
    (hstrong : s'.strong = s.strong) (hfresh : s'.fresh = s.fresh) (hkeyOf : s'.keyOf = s.keyOf)
    (habandoned : ∀ key ∈ s.abandoned, key ∈ s'.abandoned)
    (hlocks : ∀ m, Ok (s'.Owns m) (s'.Waits m) (s'.locks m)) : Sane s' where
  mapped := by
    rw [hmap, hkeyOf, hfresh]
    exact h.mapped
  visits := by
    intro j v' hv'
    obtain ⟨v, hv, hkey, hmutex, -⟩ := hr.some j v' hv'
    rw [hkeyOf, hfresh, ← hkey, ← hmutex]
    exact h.visits j v hv
  live := by
    intro j v' hv' hlive'
    obtain ⟨v, hv, hkey, hmutex, hlive, -⟩ := hr.some j v' hv'
    rw [hmap, ← hkey, ← hmutex]
    exact h.live j v hv (hlive hlive')
  locks := hlocks
  left := by
    intro j v' hv' hleaving
    obtain ⟨v, hv, hkey, -, -, hleft⟩ := hr.some j v' hv'
    rcases hleft hleaving with hbefore | hnow
    · rw [← hkey]
      exact habandoned _ (h.left j v hv hbefore)
    · exact hnow
  counted := by
    intro m
    have husers : users s'.tasks m = users s.tasks m := by
      ext j
      rw [mem_users, mem_users]
      constructor
      · rintro ⟨v', hv', hm⟩
        obtain ⟨v, hv, -, hmutex, -⟩ := hr.some j v' hv'
        exact ⟨v, hv, hmutex.trans hm⟩
      · rintro ⟨v, hv, hm⟩
        cases hv' : s'.tasks j with
        | none =>
          rw [hr.none j hv'] at hv
          cases hv
        | some v' =>
          obtain ⟨u, hu, -, hmutex, -⟩ := hr.some j v' hv'
          obtain rfl : v = u := Option.some.inj (hv.symm.trans hu)
          exact ⟨v', rfl, hmutex.symm.trans hm⟩
    rw [hstrong, hmap, hkeyOf, husers]
    exact h.counted m

theorem rephased_put {u : Visit} {phase : Phase} (hi : s.tasks i = some u)
    (hlive : phase.Live → u.phase.Live) (hleft : phase = .leaving → u.key ∈ s.abandoned) :
    Rephased s (s.put i (some { u with phase := phase })) where
  some := by
    intro j v' hv'
    simp only [State.put, Function.update_apply] at hv'
    split at hv'
    · next heq =>
      cases hv'
      rw [heq]
      exact ⟨u, hi, rfl, rfl, hlive, fun hl => .inr (hleft hl)⟩
    · exact ⟨v', hv', rfl, rfl, id, fun hl => .inl hl⟩
  none := by
    intro j hj
    simp only [State.put, Function.update_apply] at hj
    split at hj
    · cases hj
    · exact hj

theorem Rephased.trans {s₁ s₂ : State n} (h : Rephased s s₁) (h' : Rephased s₁ s₂)
    (hsub : ∀ key ∈ s₁.abandoned, key ∈ s₂.abandoned) : Rephased s s₂ where
  some := by
    intro j v₂ hv₂
    obtain ⟨v₁, hv₁, hkey₁, hmutex₁, hlive₁, hleft₁⟩ := h'.some j v₂ hv₂
    obtain ⟨v, hv, hkey, hmutex, hlive, hleft⟩ := h.some j v₁ hv₁
    refine ⟨v, hv, hkey.trans hkey₁, hmutex.trans hmutex₁, fun hl => hlive (hlive₁ hl), ?_⟩
    intro hleaving
    rcases hleft₁ hleaving with hbefore | hnow
    · rcases hleft hbefore with hbefore | hnow
      · exact .inl hbefore
      · rw [← hkey₁]
        exact .inr (hsub _ hnow)
    · exact .inr hnow
  none := fun j hj => h.none j (h'.none j hj)

theorem rephased_handOver (hqueue : ∀ j ∈ (s.locks m).queue, s.Waits m j) :
    Rephased s (s.handOver m) := by
  cases hq : (s.locks m).queue with
  | nil =>
    rw [handOver_nil hq]
    exact ⟨fun j v hv => ⟨v, hv, rfl, rfl, id, fun hl => .inl hl⟩, fun j hj => hj⟩
  | cons first rest =>
    obtain ⟨u, hu, -, hqueued⟩ := hqueue first (by rw [hq]; exact List.mem_cons_self)
    rw [handOver_cons hq hu]
    have hput : Rephased (s.setLock m (s.locks m).handOver)
        ((s.setLock m (s.locks m).handOver).put first (some { u with phase := .granted })) := by
      refine rephased_put hu ?_ ?_
      · intro _
        rw [hqueued]
        trivial
      · intro hl
        cases hl
    exact ⟨hput.some, hput.none⟩

theorem Sane.abandon (h : Sane s) (key : String) : Sane (s.abandon key) :=
  { h with left := fun i v hv hl => List.mem_cons_of_mem _ (h.left i v hv hl) }

theorem handOver_abandon (key : String) : (s.handOver m).abandon key = (s.abandon key).handOver m := by
  cases hq : (s.locks m).queue with
  | nil =>
    rw [handOver_nil hq, handOver_nil (s := s.abandon key) hq]
    rfl
  | cons first rest =>
    simp only [State.handOver, State.abandon, hq]
    rfl

section steps
variable {u : Visit} {phase : Phase}

/-- A task goes from one phase to another, and keeps or does without a place at the mutex. -/
theorem Sane.stays (h : Sane s) (hi : s.tasks i = some u) (hlive : phase.Live → u.phase.Live)
    (hleft : phase = .leaving → u.key ∈ s.abandoned) (howns : phase.Owns ↔ u.phase.Owns)
    (hwaits : phase = .queued ↔ u.phase = .queued) :
    Sane (s.put i (some { u with phase := phase })) := by
  refine h.rephased (rephased_put hi hlive hleft) rfl rfl rfl rfl (fun _ hk => hk) ?_
  refine h.locks_put ?_ ?_
  · intro m
    simp [State.Owns, OwnsIn, hi, howns]
  · intro m
    simp [State.Waits, WaitsIn, hi, hwaits]

/-- A task gives up the permit. -/
theorem Sane.giveUp (h : Sane s) (hi : s.tasks i = some u) (howns : u.phase.Owns)
    (hphase : phase = .released ∨ phase = .leaving)
    (hleft : phase = .leaving → u.key ∈ s.abandoned) :
    Sane ((s.put i (some { u with phase := phase })).handOver u.mutex) := by
  have hi' : s.Owns u.mutex i := ⟨u, hi, rfl, howns⟩
  have hnone : ∀ m, ¬ OwnsIn (some { u with phase := phase }) m ∧
      ¬ WaitsIn (some { u with phase := phase }) m := by
    intro m
    rcases hphase with rfl | rfl <;> simp [OwnsIn, WaitsIn, Phase.Owns]
  have hput : Rephased s (s.put i (some { u with phase := phase })) := by
    refine rephased_put hi ?_ hleft
    intro hl
    rcases hphase with rfl | rfl <;> exact hl.elim
  have hover : Rephased (s.put i (some { u with phase := phase }))
      ((s.put i (some { u with phase := phase })).handOver u.mutex) := by
    apply rephased_handOver
    intro j hj
    have hwaits : s.Waits u.mutex j := ((h.locks u.mutex).queue j).mp hj
    rw [waits_put, if_neg]
    · exact hwaits
    · rintro rfl
      exact hi'.not_waitsIn hwaits
  have hsame : ((s.put i (some { u with phase := phase })).handOver u.mutex).map = s.map ∧
      ((s.put i (some { u with phase := phase })).handOver u.mutex).strong = s.strong ∧
      ((s.put i (some { u with phase := phase })).handOver u.mutex).fresh = s.fresh ∧
      ((s.put i (some { u with phase := phase })).handOver u.mutex).keyOf = s.keyOf ∧
      ((s.put i (some { u with phase := phase })).handOver u.mutex).abandoned = s.abandoned := by
    rw [State.handOver]
    split <;> exact ⟨rfl, rfl, rfl, rfl, rfl⟩
  obtain ⟨hmap, hstrong, hfresh, hkeyOf, habandoned⟩ := hsame
  refine h.rephased (hput.trans hover ?_) hmap hstrong hfresh hkeyOf ?_ (h.locks_handOver hi' hnone)
  · intro key hkey
    rwa [habandoned]
  · intro key hkey
    rwa [habandoned]

/-- A task takes the permit, or its place in the queue. -/
theorem Sane.poll {key : String} (h : Sane s) (hi : s.tasks i = some ⟨.cloned, key, m⟩) :
    Sane (s.poll i key m) := by
  have hput : ∀ phase : Phase, phase ≠ .leaving →
      Rephased s (s.put i (some ⟨phase, key, m⟩)) := by
    intro phase hne
    exact rephased_put hi (fun _ => trivial) fun hl => absurd hl hne
  have hout : ∀ m', ¬ s.Owns m' i ∧ ¬ s.Waits m' i := by
    intro m'
    simp [State.Owns, State.Waits, OwnsIn, WaitsIn, hi, Phase.Owns]
  cases howner : (s.locks m).owner with
  | none =>
    have hpoll : s.poll i key m =
        (s.put i (some ⟨.holding, key, m⟩)).setLock m ((s.locks m).arrive i) := by
      simp [State.poll, howner]
    rw [hpoll]
    have hr := hput .holding (by decide)
    refine h.rephased ⟨hr.some, hr.none⟩ rfl rfl rfl rfl (fun _ hk => hk) ?_
    intro m'
    show Ok ((s.put i (some ⟨.holding, key, m⟩)).Owns m') ((s.put i (some ⟨.holding, key, m⟩)).Waits m')
      (Function.update s.locks m ((s.locks m).arrive i) m')
    rw [Function.update_apply]
    split
    · next heq =>
      rw [heq]
      have hfree : ∀ j, ¬ s.Owns m j := by
        intro j hj
        rw [← (h.locks m).owner, howner] at hj
        cases hj
      refine ((h.locks m).arrive_free howner).congr ?_ ?_
      · intro j
        rw [owns_put]
        split
        · next hj => exact iff_of_true hj ⟨_, rfl, rfl, trivial⟩
        · next hj => exact iff_of_false hj (hfree j)
      · intro j
        rw [waits_put]
        split
        · next hj =>
          rw [hj]
          exact iff_of_false (hout m).2 (by simp [WaitsIn])
        · rfl
    · next hne =>
      refine (h.locks m').congr ?_ ?_
      · intro j
        rw [owns_put]
        split
        · next hj =>
          rw [hj]
          exact iff_of_false (hout m').1 (by simp [OwnsIn, Ne.symm hne])
        · rfl
      · intro j
        rw [waits_put]
        split
        · next hj =>
          rw [hj]
          exact iff_of_false (hout m').2 (by simp [WaitsIn])
        · rfl
  | some o =>
    have hpoll : s.poll i key m =
        (s.put i (some ⟨.queued, key, m⟩)).setLock m ((s.locks m).arrive i) := by
      simp [State.poll, howner]
    rw [hpoll]
    have hr := hput .queued (by decide)
    refine h.rephased ⟨hr.some, hr.none⟩ rfl rfl rfl rfl (fun _ hk => hk) ?_
    intro m'
    show Ok ((s.put i (some ⟨.queued, key, m⟩)).Owns m') ((s.put i (some ⟨.queued, key, m⟩)).Waits m')
      (Function.update s.locks m ((s.locks m).arrive i) m')
    have howns : ∀ m' j, s.Owns m' j ↔ (s.put i (some ⟨.queued, key, m⟩)).Owns m' j := by
      intro m' j
      rw [owns_put]
      split
      · next hj =>
        rw [hj]
        exact iff_of_false (hout m').1 (by simp [OwnsIn, Phase.Owns])
      · rfl
    rw [Function.update_apply]
    split
    · next heq =>
      rw [heq]
      refine ((h.locks m).arrive_owned howner (hout m).2).congr (howns m) ?_
      intro j
      rw [waits_put]
      split
      · next hj => exact iff_of_true (.inr hj) ⟨_, rfl, rfl, rfl⟩
      · next hj => exact ⟨fun hw => hw.resolve_right hj, .inl⟩
    · next hne =>
      refine (h.locks m').congr (howns m') ?_
      intro j
      rw [waits_put]
      split
      · next hj =>
        rw [hj]
        exact iff_of_false (hout m').2 (by simp [WaitsIn, Ne.symm hne])
      · rfl

/-- A task leaves the queue. -/
theorem Sane.leaveQueue (h : Sane s) (hi : s.tasks i = some u) (hqueued : u.phase = .queued)
    (hleft : u.key ∈ s.abandoned) :
    Sane ((s.put i (some { u with phase := .leaving })).setLock u.mutex
      ((s.locks u.mutex).leave i)) := by
  have hr : Rephased s (s.put i (some { u with phase := .leaving })) :=
    rephased_put hi (fun hl => hl.elim) fun _ => hleft
  refine h.rephased ⟨hr.some, hr.none⟩ rfl rfl rfl rfl (fun _ hk => hk) ?_
  intro m'
  show Ok ((s.put i (some { u with phase := .leaving })).Owns m')
    ((s.put i (some { u with phase := .leaving })).Waits m')
    (Function.update s.locks u.mutex ((s.locks u.mutex).leave i) m')
  have hwaiting : s.Waits u.mutex i := ⟨u, hi, rfl, hqueued⟩
  have howns : ∀ m' j, s.Owns m' j ↔ (s.put i (some { u with phase := .leaving })).Owns m' j := by
    intro m' j
    rw [owns_put]
    split
    · next hj =>
      rw [hj]
      exact iff_of_false (fun ho => ho.not_waitsIn hwaiting) (by simp [OwnsIn, Phase.Owns])
    · rfl
  rw [Function.update_apply]
  split
  · next heq =>
    rw [heq]
    refine (h.locks u.mutex).leave.congr (howns u.mutex) ?_
    intro j
    rw [waits_put]
    split
    · next hj => exact iff_of_false (fun hw => hw.2 hj) (by simp [WaitsIn])
    · next hj => exact ⟨fun hw => hw.1, fun hw => ⟨hw, hj⟩⟩
  · next hne =>
    refine (h.locks m').congr (howns m') ?_
    intro j
    rw [waits_put]
    split
    · next hj =>
      rw [hj]
      exact iff_of_false (fun hw => hne (hw.mutex_eq hwaiting)) (by simp [WaitsIn])
    · rfl

/-- **A lookup** clones the mutex of the map, or a new one. -/
theorem Sane.lookup (h : Sane s) (hi : s.tasks i = none) (key : String) : Sane (s.lookup i key) := by
  have hcard : ∀ m m', (users (s.put i (some ⟨.cloned, key, m⟩)).tasks m').card =
      (users s.tasks m').card + if m = m' then 1 else 0 := by
    intro m m'
    have hupdate := card_users_update s.tasks i (some ⟨.cloned, key, m⟩) m'
    rw [hi] at hupdate
    simpa [State.put] using hupdate
  have hlocks : ∀ m m', Ok ((s.put i (some ⟨.cloned, key, m⟩)).Owns m')
      ((s.put i (some ⟨.cloned, key, m⟩)).Waits m') (s.locks m') := by
    intro m
    refine h.locks_put ?_ ?_
    · intro m'
      simp [State.Owns, OwnsIn, hi, Phase.Owns]
    · intro m'
      simp [State.Waits, WaitsIn, hi]
  have htasks : ∀ m j v, (s.put i (some ⟨.cloned, key, m⟩)).tasks j = some v →
      (j = i ∧ v = ⟨.cloned, key, m⟩) ∨ s.tasks j = some v := by
    intro m j v hv
    simp only [State.put, Function.update_apply] at hv
    split at hv
    · next heq => exact .inl ⟨heq, (Option.some.inj hv).symm⟩
    · exact .inr hv
  rw [State.lookup]
  split
  · next m hmap =>
    exact
      { mapped := h.mapped
        visits := by
          intro j v hv
          rcases htasks m j v hv with ⟨rfl, rfl⟩ | hv
          · exact h.mapped key m hmap
          · exact h.visits j v hv
        live := by
          intro j v hv hlive
          rcases htasks m j v hv with ⟨rfl, rfl⟩ | hv
          · exact hmap
          · exact h.live j v hv hlive
        locks := hlocks m
        left := by
          intro j v hv hl
          rcases htasks m j v hv with ⟨rfl, rfl⟩ | hv
          · cases hl
          · exact h.left j v hv hl
        counted := by
          intro m'
          show Function.update s.strong m (s.strong m + 1) m' =
            (users (s.put i (some ⟨.cloned, key, m⟩)).tasks m').card +
              if s.map (s.keyOf m') = some m' then 1 else 0
          rw [hcard, Function.update_apply]
          split
          · next heq =>
            rw [heq, h.counted m, if_pos rfl]
            omega
          · next hne => rw [if_neg (Ne.symm hne), h.counted m', Nat.add_zero] }
  · next hmap =>
    have hold : ∀ m, m < s.fresh → Function.update s.keyOf s.fresh key m = s.keyOf m := by
      intro m hm
      exact Function.update_of_ne (by omega) _ _
    exact
      { mapped := by
          intro key' m hm
          show Function.update s.keyOf s.fresh key m = key' ∧ m < s.fresh + 1
          have hm' : Function.update s.map key (some s.fresh) key' = some m := hm
          rw [Function.update_apply] at hm'
          split at hm'
          · next heq =>
            obtain rfl : s.fresh = m := Option.some.inj hm'
            rw [Function.update_self]
            exact ⟨heq.symm, by omega⟩
          · obtain ⟨hkey, hlt⟩ := h.mapped key' m hm'
            rw [hold m hlt]
            exact ⟨hkey, by omega⟩
        visits := by
          intro j v hv
          show Function.update s.keyOf s.fresh key v.mutex = v.key ∧ v.mutex < s.fresh + 1
          rcases htasks s.fresh j v hv with ⟨rfl, rfl⟩ | hv
          · exact ⟨Function.update_self .., by simp⟩
          · obtain ⟨hkey, hlt⟩ := h.visits j v hv
            rw [hold _ hlt]
            exact ⟨hkey, by omega⟩
        live := by
          intro j v hv hlive
          show Function.update s.map key (some s.fresh) v.key = some v.mutex
          rcases htasks s.fresh j v hv with ⟨rfl, rfl⟩ | hv
          · exact Function.update_self ..
          · have hbefore := h.live j v hv hlive
            rw [Function.update_of_ne, hbefore]
            rintro heq
            rw [heq, hmap] at hbefore
            cases hbefore
        locks := hlocks s.fresh
        left := by
          intro j v hv hl
          rcases htasks s.fresh j v hv with ⟨rfl, rfl⟩ | hv
          · cases hl
          · exact h.left j v hv hl
        counted := by
          intro m'
          show Function.update s.strong s.fresh 2 m' =
            (users (s.put i (some ⟨.cloned, key, s.fresh⟩)).tasks m').card +
              if Function.update s.map key (some s.fresh)
                (Function.update s.keyOf s.fresh key m') = some m' then 1 else 0
          rw [hcard, Function.update_apply]
          split
          · next heq =>
            have hnone : users s.tasks s.fresh = ∅ := by
              rw [Finset.eq_empty_iff_forall_notMem]
              intro j hj
              obtain ⟨v, hv, hm⟩ := mem_users.mp hj
              have := (h.visits j v hv).2
              omega
            rw [heq, hnone, Function.update_self, Function.update_self]
            simp
          · next hne =>
            rw [if_neg (Ne.symm hne), Function.update_of_ne hne, h.counted m', Nat.add_zero]
            congr 2
            rw [eq_iff_iff, Function.update_apply]
            split
            · next hkey =>
              rw [hkey, hmap]
              simp [Ne.symm hne]
            · rfl }

/-- A task drops the `Arc` of a mutex that it no longer needs. -/
theorem Sane.forget (h : Sane s) (hi : s.tasks i = some u) (hdone : u.phase = .released ∨ u.phase = .leaving) :
    Sane ((s.put i none).setStrong u.mutex (s.strong u.mutex - 1)) := by
  have htasks : ∀ j v, (s.put i none).tasks j = some v → s.tasks j = some v := by
    intro j v hv
    simp only [State.put, Function.update_apply] at hv
    split at hv
    · cases hv
    · exact hv
  exact
    { mapped := h.mapped
      visits := fun j v hv => h.visits j v (htasks j v hv)
      live := fun j v hv hl => h.live j v (htasks j v hv) hl
      locks := by
        refine h.locks_put ?_ ?_
        · intro m
          rcases hdone with hdone | hdone <;> simp [State.Owns, OwnsIn, hi, hdone, Phase.Owns]
        · intro m
          rcases hdone with hdone | hdone <;> simp [State.Waits, WaitsIn, hi, hdone]
      left := fun j v hv hl => h.left j v (htasks j v hv) hl
      counted := by
        intro m
        have hupdate := card_users_update s.tasks i none m
        rw [hi] at hupdate
        simp only [Option.map_some, Option.map_none, Option.some.injEq, reduceCtorEq, if_false,
          Nat.add_zero] at hupdate
        show Function.update s.strong u.mutex (s.strong u.mutex - 1) m =
          (users (Function.update s.tasks i none) m).card + if s.map (s.keyOf m) = some m then 1 else 0
        rw [Function.update_apply]
        have hcount := h.counted m
        split
        · next heq =>
          rw [heq] at hupdate hcount ⊢
          rw [if_pos rfl] at hupdate
          omega
        · next hne =>
          rw [if_neg (Ne.symm hne)] at hupdate
          omega }

/-- With the map's entry and one guard no other task holds the mutex. -/
theorem Sane.alone (h : Sane s) (hi : s.tasks i = some u) (hlive : u.phase.Live)
    (htwo : s.strong u.mutex = 2) {w : Visit} (hj : s.tasks j = some w) (hw : w.mutex = u.mutex) :
    j = i := by
  have hcount := h.counted u.mutex
  rw [(h.visits i u hi).1, if_pos (h.live i u hi hlive), htwo] at hcount
  have hone : (users s.tasks u.mutex).card = 1 := by omega
  obtain ⟨x, hx⟩ := Finset.card_eq_one.mp hone
  have hmem : ∀ y, y ∈ users s.tasks u.mutex → y = x := by
    intro y hy
    rw [hx] at hy
    exact Finset.mem_singleton.mp hy
  rw [hmem j (mem_users.mpr ⟨w, hj, hw⟩), hmem i (mem_users.mpr ⟨u, hi, rfl⟩)]

/-- **The removal test.** -/
theorem Sane.test {key : String} (h : Sane s) (hi : s.tasks i = some ⟨.holding, key, m⟩) :
    Sane (s.test i key m) := by
  have hput : Sane (s.put i (some ⟨.tested, key, m⟩)) :=
    h.stays (u := ⟨.holding, key, m⟩) hi (fun hl => hl.elim) (fun hl => by cases hl) Iff.rfl
      (by simp)
  have hmap : s.map key = some m := h.live i _ hi trivial
  have hkey : s.keyOf m = key := (h.visits i _ hi).1
  simp only [State.test, hmap]
  split
  · next htwo =>
    have halone : ∀ j w, s.tasks j = some w → w.mutex = m → j = i := fun j w hj hw =>
      h.alone hi trivial htwo hj hw
    exact
      { mapped := by
          intro key' m' hm'
          have hm : Function.update s.map key none key' = some m' := hm'
          rw [Function.update_apply] at hm
          split at hm
          · cases hm
          · exact h.mapped key' m' hm
        visits := hput.visits
        live := by
          intro j v hv hlive
          have hbefore : s.map v.key = some v.mutex := hput.live j v hv hlive
          show Function.update s.map key none v.key = some v.mutex
          rw [Function.update_of_ne, hbefore]
          rintro heq
          have hv' : Function.update s.tasks i (some ⟨.tested, key, m⟩) j = some v := hv
          rw [Function.update_apply] at hv'
          split at hv'
          · cases hv'
            exact hlive
          · next hne =>
            rw [heq, hmap] at hbefore
            exact hne (halone j v hv' (Option.some.inj hbefore).symm)
        locks := hput.locks
        left := hput.left
        counted := by
          intro m'
          have hcount := hput.counted m'
          have hcount' : s.strong m' = (users (Function.update s.tasks i (some ⟨.tested, key, m⟩)) m').card +
              if s.map (s.keyOf m') = some m' then 1 else 0 := hcount
          show Function.update s.strong m (s.strong m - 1) m' =
            (users (Function.update s.tasks i (some ⟨.tested, key, m⟩)) m').card +
              if Function.update s.map key none (s.keyOf m') = some m' then 1 else 0
          rw [Function.update_apply s.strong]
          split
          · next heq =>
            rw [heq, hkey, hmap, if_pos rfl] at hcount'
            rw [heq, hkey, Function.update_self, if_neg (by simp)]
            omega
          · next hne =>
            rw [hcount', Function.update_apply s.map]
            congr 2
            rw [eq_iff_iff]
            split
            · next hk =>
              rw [hk, hmap]
              simp [Ne.symm hne]
            · rfl }
  · exact hput

end steps

end puts

end

end MessageCrate.KeyedLocks

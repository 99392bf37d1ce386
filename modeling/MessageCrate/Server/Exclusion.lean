import MessageCrate.Server.KeyedLocks

/- A keyed lock excludes, and forgets its keys.

   1. `Sane.step`: one step of any task keeps what holds in every state.
   2. `Sane.exclusive`, `Sane.waits_for`, `Sane.removed`: two guards of a key are one; what keeps a
      task waiting is a task of the same key; a key is removed by a guard that no other task has
      the mutex of.
   3. `Recalled`: a key in the map is one that a task waits for or holds, or that a wait was
      abandoned on. It is kept by tests that find no guard of the mutex whose `Arc` is still to go:
      such an `Arc` counts as a third, and the test leaves the key to nobody.
   4. `keyed_lock_excludes`: these in every state that is reached. -/
namespace MessageCrate.KeyedLocks
open FairMutex Runs

variable {n : Nat} {s t : State n} {i j : Fin n} {e : Event n} {key : String} {m : Nat} {u w : Visit}
  {v : Option Visit}

theorem Sane.step (h : Sane s) (hstep : Step s e t) : Sane t := by
  cases e with
  | lookup i key =>
    rw [Step, next] at hstep
    split at hstep
    · next hi =>
      cases hstep
      exact h.lookup hi key
    · cases hstep
  | poll i =>
    rw [Step, next] at hstep
    split at hstep
    · next key m hi =>
      cases hstep
      exact h.poll hi
    · cases hstep
  | resume i =>
    rw [Step, next] at hstep
    split at hstep
    · next key m hi =>
      cases hstep
      exact h.stays (u := ⟨.granted, key, m⟩) hi (fun _ => trivial) (fun hl => by cases hl) Iff.rfl
        (by simp)
    · cases hstep
  | abandon i =>
    rw [Step, next] at hstep
    split at hstep
    · next key m hi =>
      cases hstep
      exact (h.abandon key).stays (u := ⟨.cloned, key, m⟩) hi (fun hl => hl.elim)
        (fun _ => List.mem_cons_self) Iff.rfl (by simp)
    · next key m hi =>
      cases hstep
      exact (h.abandon key).leaveQueue (u := ⟨.queued, key, m⟩) hi rfl List.mem_cons_self
    · next key m hi =>
      cases hstep
      rw [handOver_abandon]
      exact (h.abandon key).giveUp (u := ⟨.granted, key, m⟩) hi trivial (.inr rfl)
        fun _ => List.mem_cons_self
    · cases hstep
  | test i =>
    rw [Step, next] at hstep
    split at hstep
    · next key m hi =>
      cases hstep
      exact h.test hi
    · cases hstep
  | release i =>
    rw [Step, next] at hstep
    split at hstep
    · next key m hi =>
      cases hstep
      exact h.giveUp (u := ⟨.tested, key, m⟩) hi trivial (.inl rfl) fun hl => by cases hl
    · cases hstep
  | forget i =>
    rw [Step, next] at hstep
    split at hstep
    · next key m hi =>
      cases hstep
      exact h.forget (u := ⟨.released, key, m⟩) hi (.inl rfl)
    · next key m hi =>
      cases hstep
      exact h.forget (u := ⟨.leaving, key, m⟩) hi (.inr rfl)
    · cases hstep

/-! Exclusion. -/

/-- A guard of the key: `lock` has returned it, and its drop has not begun. -/
def State.Holds (s : State n) (i : Fin n) (key : String) : Prop :=
  ∃ m, s.tasks i = some ⟨.holding, key, m⟩

/-- **Two guards of one key are one.** -/
theorem Sane.exclusive (h : Sane s) (hi : s.Holds i key) (hj : s.Holds j key) : i = j := by
  obtain ⟨m, hi⟩ := hi
  obtain ⟨m', hj⟩ := hj
  have hm : s.map key = some m := h.live i _ hi trivial
  have hm' : s.map key = some m' := h.live j _ hj trivial
  obtain rfl : m = m' := Option.some.inj (hm.symm.trans hm')
  exact (h.locks m).owner_unique ⟨_, hi, rfl, trivial⟩ ⟨_, hj, rfl, trivial⟩

/-- The task has the permit of the key's mutex: it is about to return, holds the guard, or has
tested and not released it. -/
def State.OwnsKey (s : State n) (i : Fin n) (key : String) : Prop :=
  ∃ u, s.tasks i = some u ∧ u.key = key ∧ u.phase.Owns

theorem Sane.ownsKey_of_owns (h : Sane s) (hi : s.tasks i = some u) (hj : s.Owns u.mutex j) :
    s.OwnsKey j u.key := by
  obtain ⟨w, hw, hmutex, howns⟩ := hj
  refine ⟨w, hw, ?_, howns⟩
  rw [← (h.visits j w hw).1, hmutex, (h.visits i u hi).1]

/-- **What a task waits for is a task of its own key.** -/
theorem Sane.waits_for (h : Sane s) (hi : s.tasks i = some u) (hqueued : u.phase = .queued) :
    ∃ j, s.OwnsKey j u.key := by
  obtain ⟨j, hj⟩ := (h.locks u.mutex).exists_owner ⟨u, hi, rfl, hqueued⟩
  exact ⟨j, h.ownsKey_of_owns hi hj⟩

/-- The first poll takes the mutex unless a task of the same key has it. -/
theorem Sane.poll_holds (h : Sane s) (hi : s.tasks i = some ⟨.cloned, key, m⟩)
    (hstep : Step s (.poll i) t) : t.Holds i key ∨ ∃ j, s.OwnsKey j key := by
  rw [Step, next, hi] at hstep
  cases hstep
  cases howner : (s.locks m).owner with
  | none =>
    refine .inl ⟨m, ?_⟩
    simp [State.poll, howner, State.put, State.setLock]
  | some o =>
    exact .inr ⟨o, h.ownsKey_of_owns hi (((h.locks m).owner o).mp howner)⟩

/-! Removal. -/

@[simp] theorem map_handOver : (s.handOver m).map = s.map := by
  rw [State.handOver]
  split <;> rfl

@[simp] theorem abandoned_handOver : (s.handOver m).abandoned = s.abandoned := by
  rw [State.handOver]
  split <;> rfl

theorem map_lookup (hkey : s.map key = some m) (i : Fin n) (key' : String) :
    (s.lookup i key').map key = some m := by
  rw [State.lookup]
  split
  · exact hkey
  · next hnone =>
    show Function.update s.map key' (some s.fresh) key = some m
    rw [Function.update_of_ne, hkey]
    rintro rfl
    rw [hnone] at hkey
    cases hkey

/-- **An entry is removed only by a guard that no other task has the mutex of.** -/
theorem Sane.removed (h : Sane s) (hstep : Step s e t) (hkey : s.map key = some m)
    (hgone : t.map key ≠ some m) : ∃ i, e = .test i ∧ s.Holds i key ∧
      ∀ j w, s.tasks j = some w → w.mutex = m → j = i := by
  cases e with
  | lookup i key' =>
    rw [Step, next] at hstep
    split at hstep
    · cases hstep
      exact absurd (map_lookup hkey i key') hgone
    · cases hstep
  | poll i =>
    rw [Step, next] at hstep
    split at hstep
    · cases hstep
      exact absurd hkey hgone
    · cases hstep
  | resume i =>
    rw [Step, next] at hstep
    split at hstep
    · cases hstep
      exact absurd hkey hgone
    · cases hstep
  | abandon i =>
    rw [Step, next] at hstep
    split at hstep
    · cases hstep
      exact absurd hkey hgone
    · cases hstep
      exact absurd hkey hgone
    · cases hstep
      rw [handOver_abandon, map_handOver] at hgone
      exact absurd hkey hgone
    · cases hstep
  | test i =>
    rw [Step, next] at hstep
    split at hstep
    · next key' m' hi =>
      cases hstep
      have hmap : s.map key' = some m' := h.live i _ hi trivial
      simp only [State.test, hmap] at hgone
      split at hgone
      · next htwo =>
        have hgone' : Function.update s.map key' none key ≠ some m := hgone
        by_cases hown : key = key'
        · subst hown
          obtain rfl : m = m' := Option.some.inj (hkey.symm.trans hmap)
          exact ⟨i, rfl, ⟨m, hi⟩, fun j w hj hw => h.alone hi trivial htwo hj hw⟩
        · rw [Function.update_of_ne hown] at hgone'
          exact absurd hkey hgone'
      · exact absurd hkey hgone
    · cases hstep
  | release i =>
    rw [Step, next] at hstep
    split at hstep
    · cases hstep
      rw [map_handOver] at hgone
      exact absurd hkey hgone
    · cases hstep
  | forget i =>
    rw [Step, next] at hstep
    split at hstep
    · cases hstep
      exact absurd hkey hgone
    · cases hstep
      exact absurd hkey hgone
    · cases hstep

/-! Keys that nobody needs. -/

/-- A task that waits for the mutex of a key, or holds its guard. -/
def State.Needs (s : State n) (key : String) : Prop :=
  ∃ i u, s.tasks i = some u ∧ u.key = key ∧ u.phase.Live

def Recalled (s : State n) : Prop :=
  ∀ key m, s.map key = some m → key ∈ s.abandoned ∨ s.Needs key

/-- A test comes when no guard of the mutex has given up the permit and still has its `Arc`. -/
def InTurn (s : State n) : Event n → Prop
  | .test i => ∀ u, s.tasks i = some u → ∀ j w, s.tasks j = some w → w.mutex = u.mutex →
      w.phase ≠ .released
  | _ => True

def TurnStep (s : State n) (e : Event n) (t : State n) : Prop := Step s e t ∧ InTurn s e

theorem needs_put (hneeds : s.Needs key) (hi : ∀ u, s.tasks i = some u → u.key = key → u.phase.Live →
    ∃ w, v = some w ∧ w.key = key ∧ w.phase.Live) : (s.put i v).Needs key := by
  obtain ⟨j, u, hj, hkey, hlive⟩ := hneeds
  by_cases heq : j = i
  · subst heq
    obtain ⟨w, rfl, hw, hlive'⟩ := hi u hj hkey hlive
    exact ⟨j, w, Function.update_self .., hw, hlive'⟩
  · exact ⟨j, u, (Function.update_of_ne heq _ _).trans hj, hkey, hlive⟩

theorem needs_handOver (hneeds : s.Needs key) : (s.handOver m).Needs key := by
  rw [State.handOver]
  split
  · exact hneeds
  · next first rest hq =>
    refine needs_put (s := s.setLock m (s.locks m).handOver) hneeds ?_
    intro u hu hkey hlive
    have hu' : s.tasks first = some u := hu
    exact ⟨{ u with phase := .granted }, by rw [hu']; rfl, hkey, trivial⟩

/-- An abandoned wait leaves its key behind, and no other. -/
theorem recalled_abandon (key' : String) {t : State n} (hr : Recalled s) (hmap : t.map = s.map)
    (habandoned : t.abandoned = key' :: s.abandoned)
    (hneeds : ∀ key, key ≠ key' → s.Needs key → t.Needs key) : Recalled t := by
  intro key m hkey
  rw [hmap] at hkey
  rw [habandoned]
  by_cases hown : key = key'
  · rw [hown]
    exact .inl List.mem_cons_self
  · exact (hr key m hkey).imp (List.mem_cons_of_mem _) (hneeds key hown)

/-- **A test in turn leaves the key to a task that needs it**, to an abandoned wait, or to nobody. -/
theorem Recalled.test (hr : Recalled s) (h : Sane s) (hi : s.tasks i = some ⟨.holding, key, m⟩)
    (hturn : ∀ j w, s.tasks j = some w → w.mutex = m → w.phase ≠ .released) :
    Recalled (s.test i key m) := by
  have hmap : s.map key = some m := h.live i _ hi trivial
  have hkeyOf : s.keyOf m = key := (h.visits i _ hi).1
  have hother : ∀ key', key' ≠ key → s.Needs key' →
      (s.put i (some ⟨.tested, key, m⟩)).Needs key' := by
    intro key' hne hneeds
    refine needs_put hneeds ?_
    intro u hu hkey _
    rw [hi] at hu
    cases hu
    exact absurd hkey.symm hne
  simp only [State.test, hmap]
  split
  · intro key' m' hkey'
    have hkey'' : Function.update s.map key none key' = some m' := hkey'
    rw [Function.update_apply] at hkey''
    split at hkey''
    · cases hkey''
    · next hne => exact (hr key' m' hkey'').imp id (hother key' hne)
  · next hmany =>
    intro key' m' hkey'
    by_cases hown : key' = key
    · subst hown
      -- a third that has the mutex is a task that needs it or an abandoned wait
      have hcount := h.counted m
      rw [hkeyOf, hmap, if_pos rfl] at hcount
      have hmem : i ∈ users s.tasks m := mem_users.mpr ⟨_, hi, rfl⟩
      have htwo : 1 < (users s.tasks m).card := by
        have := Finset.card_pos.mpr ⟨i, hmem⟩
        omega
      obtain ⟨j, hj, hne⟩ := Finset.exists_mem_ne htwo i
      obtain ⟨w, hw, hmutex⟩ := mem_users.mp hj
      have hwkey : w.key = key' := by rw [← (h.visits j w hw).1, hmutex, hkeyOf]
      have hnotOwner : ¬ w.phase.Owns := fun howns =>
        hne ((h.locks m).owner_unique ⟨w, hw, hmutex, howns⟩ ⟨_, hi, rfl, trivial⟩)
      have hlive : w.phase.Live → (s.put i (some ⟨.tested, key', m⟩)).Needs key' := fun hlive =>
        ⟨j, w, (Function.update_of_ne hne _ _).trans hw, hwkey, hlive⟩
      cases hphase : w.phase with
      | cloned => exact .inr (hlive (by rw [hphase]; trivial))
      | queued => exact .inr (hlive (by rw [hphase]; trivial))
      | granted => exact absurd (by rw [hphase]; trivial) hnotOwner
      | holding => exact absurd (by rw [hphase]; trivial) hnotOwner
      | tested => exact absurd (by rw [hphase]; trivial) hnotOwner
      | released => exact absurd hphase (hturn j w hw hmutex)
      | leaving =>
        rw [← hwkey]
        exact .inl (h.left j w hw hphase)
    · exact (hr key' m' hkey').imp id (hother key' hown)

theorem Recalled.step (hr : Recalled s) (h : Sane s) (hstep : TurnStep s e t) : Recalled t := by
  obtain ⟨hstep, hturn⟩ := hstep
  cases e with
  | lookup i key' =>
    rw [Step, next] at hstep
    split at hstep
    · next hi =>
      cases hstep
      have hneeds : ∀ m key, s.Needs key → (s.put i (some ⟨.cloned, key', m⟩)).Needs key := by
        intro m key hneeds
        refine needs_put hneeds ?_
        intro u hu
        rw [hi] at hu
        cases hu
      rw [State.lookup]
      split
      · next m hmap =>
        intro key m' hkey
        exact (hr key m' hkey).imp id (hneeds m key)
      · next hmap =>
        intro key m' hkey
        have hkey' : Function.update s.map key' (some s.fresh) key = some m' := hkey
        rw [Function.update_apply] at hkey'
        split at hkey'
        · next heq =>
          rw [heq]
          exact .inr ⟨i, _, Function.update_self .., rfl, trivial⟩
        · exact (hr key m' hkey').imp id (hneeds s.fresh key)
    · cases hstep
  | poll i =>
    rw [Step, next] at hstep
    split at hstep
    · next key' m' hi =>
      cases hstep
      intro key m hkey
      refine (hr key m hkey).imp id ?_
      intro hneeds
      refine needs_put (s := s) hneeds ?_
      intro u hu hkey _
      rw [hi] at hu
      cases hu
      refine ⟨_, rfl, hkey, ?_⟩
      show Phase.Live (if (s.locks m').owner.isNone then Phase.holding else Phase.queued)
      split <;> trivial
    · cases hstep
  | resume i =>
    rw [Step, next] at hstep
    split at hstep
    · next key' m' hi =>
      cases hstep
      intro key m hkey
      refine (hr key m hkey).imp id ?_
      intro hneeds
      refine needs_put hneeds ?_
      intro u hu hkey _
      rw [hi] at hu
      cases hu
      exact ⟨_, rfl, hkey, trivial⟩
    · cases hstep
  | abandon i =>
    have hput : ∀ {key' m' phase}, s.tasks i = some ⟨phase, key', m'⟩ → ∀ key, key ≠ key' →
        s.Needs key → (s.put i (some ⟨.leaving, key', m'⟩)).Needs key := by
      intro key' m' phase hi key hne hneeds
      refine needs_put hneeds ?_
      intro u hu hkey _
      rw [hi] at hu
      cases hu
      exact absurd hkey.symm hne
    rw [Step, next] at hstep
    split at hstep
    · next key' m' hi =>
      cases hstep
      exact recalled_abandon key' hr rfl rfl (hput hi)
    · next key' m' hi =>
      cases hstep
      exact recalled_abandon key' hr rfl rfl (hput hi)
    · next key' m' hi =>
      cases hstep
      refine recalled_abandon key' hr ?_ ?_ ?_
      · rw [handOver_abandon, map_handOver]
        rfl
      · rw [handOver_abandon, abandoned_handOver]
        rfl
      · intro key hne hneeds
        rw [handOver_abandon]
        exact needs_handOver (hput hi key hne hneeds)
    · cases hstep
  | test i =>
    rw [Step, next] at hstep
    split at hstep
    · next key' m' hi =>
      cases hstep
      exact hr.test h hi (hturn _ hi)
    · cases hstep
  | release i =>
    rw [Step, next] at hstep
    split at hstep
    · next key' m' hi =>
      cases hstep
      intro key m hkey
      rw [map_handOver] at hkey
      rw [abandoned_handOver]
      refine (hr key m hkey).imp id ?_
      intro hneeds
      apply needs_handOver
      refine needs_put hneeds ?_
      intro u hu _ hlive
      rw [hi] at hu
      cases hu
      exact hlive.elim
    · cases hstep
  | forget i =>
    have hput : ∀ {phase key' m'}, s.tasks i = some ⟨phase, key', m'⟩ → ¬ phase.Live → ∀ key,
        s.Needs key → (s.put i none).Needs key := by
      intro phase key' m' hi hdone key hneeds
      refine needs_put hneeds ?_
      intro u hu _ hlive
      rw [hi] at hu
      cases hu
      exact absurd hlive hdone
    rw [Step, next] at hstep
    split at hstep
    · next key' m' hi =>
      cases hstep
      exact fun key m hkey => (hr key m hkey).imp id (hput hi id key)
    · next key' m' hi =>
      cases hstep
      exact fun key m hkey => (hr key m hkey).imp id (hput hi id key)
    · cases hstep

/-- **A keyed lock excludes**, for any number of tasks. In every state reached two guards of a key
are one; the next step removes an entry only by a guard that no other task has the mutex of; and
what a task waits for is a task of its own key. When the tests came in turn and no guard or wait is
left, the map holds only keys on which a wait was abandoned. -/
theorem keyed_lock_excludes (n : Nat) (es : List (Event n)) (s : State n)
    (hrun : Run Step start es s) :
    (∀ i j key, s.Holds i key → s.Holds j key → i = j) ∧
    (∀ e t key m, Step s e t → s.map key = some m → t.map key ≠ some m →
      ∃ i, e = .test i ∧ s.Holds i key ∧ ∀ j w, s.tasks j = some w → w.mutex = m → j = i) ∧
    (∀ i u, s.tasks i = some u → u.phase = .queued → ∃ j, s.OwnsKey j u.key) ∧
    (∀ i key m t, s.tasks i = some ⟨.cloned, key, m⟩ → Step s (.poll i) t →
      t.Holds i key ∨ ∃ j, s.OwnsKey j key) ∧
    (Run TurnStep start es s → (∀ key, ¬ s.Needs key) →
      ∀ key m, s.map key = some m → key ∈ s.abandoned) := by
  have h : Sane s := hrun.keeps (fun s e t hstep hs => hs.step hstep) sane_start
  refine ⟨fun i j key hi hj => h.exclusive hi hj, ?_, ?_, ?_, ?_⟩
  · exact fun e t key m hstep hkey hgone => h.removed hstep hkey hgone
  · exact fun i u hi hqueued => h.waits_for hi hqueued
  · exact fun i key m t hi hstep => h.poll_holds hi hstep
  · intro hturns hnone key m hkey
    have hboth : Sane s ∧ Recalled s := hturns.keeps (I := fun s => Sane s ∧ Recalled s)
      (fun s e t hstep hs => ⟨hs.1.step hstep.1, hs.2.step hs.1 hstep⟩)
      ⟨sane_start, fun key m hkey => by cases hkey⟩
    exact (hboth.2 key m hkey).resolve_right (hnone key)

instance (s : State n) (e : Event n) : Decidable (InTurn s e) :=
  match e with
  | .test i => inferInstanceAs (Decidable (∀ u ∈ s.tasks i, ∀ j, ∀ w ∈ s.tasks j,
      w.mutex = u.mutex → w.phase ≠ .released))
  | .lookup _ _ | .poll _ | .resume _ | .abandon _ | .release _ | .forget _ => .isTrue trivial

/-- A step in turn, computed. -/
def nextInTurn (s : State n) (e : Event n) : Option (State n) := if InTurn s e then next s e else none

theorem turnStep_of_nextInTurn (h : nextInTurn s e = some t) : TurnStep s e t := by
  rw [nextInTurn] at h
  split at h
  · next hturn => exact ⟨h, hturn⟩
  · cases h

/-- A holder and two that wait for it; the first of them gives up, and drops its `Arc` after the
second has tested. -/
def givesUp : List (Event 3) :=
  [.lookup 0 "a", .poll 0, .lookup 1 "a", .poll 1, .lookup 2 "a", .poll 2, .test 0, .abandon 1,
    .release 0, .forget 0, .resume 2, .test 2, .forget 1, .release 2, .forget 2]

/-- The key stays, with nobody left: a wait on it was abandoned. -/
theorem keyed_lock_excludes_givesUp : ∃ s, Run TurnStep start givesUp s ∧
    (∀ i j key, s.Holds i key → s.Holds j key → i = j) ∧ (∀ i, s.tasks i = none) ∧
    s.map "a" = some 0 ∧ "a" ∈ s.abandoned := by
  have hend : (givesUp.foldlM nextInTurn start).map
      (fun s => (s.tasks 0, s.tasks 1, s.tasks 2, s.map "a")) = some (none, none, none, some 0) := by
    decide +kernel
  obtain ⟨s, hs, hparts⟩ := Option.map_eq_some_iff.mp hend
  simp only [Prod.mk.injEq] at hparts
  obtain ⟨hfirst, hsecond, hthird, hmap⟩ := hparts
  have hturns : Run TurnStep start givesUp s :=
    (run_of_foldlM hs).mono fun _ _ _ h => turnStep_of_nextInTurn h
  have hgone : ∀ i, s.tasks i = none := by
    intro i
    match i with
    | 0 => exact hfirst
    | 1 => exact hsecond
    | 2 => exact hthird
  obtain ⟨hexclusive, -, -, -, hleft⟩ :=
    keyed_lock_excludes 3 givesUp s (hturns.mono fun _ _ _ h => h.1)
  refine ⟨s, hturns, hexclusive, hgone, hmap, hleft hturns ?_ "a" 0 hmap⟩
  rintro key ⟨i, u, hi, -⟩
  rw [hgone i] at hi
  cases hi

/-- A waiter is given the permit and is done with it before the guard that gave it up has dropped
its `Arc`. -/
def twoDrops : List (Event 2) :=
  [.lookup 0 "a", .poll 0, .lookup 1 "a", .poll 1, .test 0, .release 0, .resume 1, .test 1, .release 1,
    .forget 0, .forget 1]

/-- Its test counts that `Arc` as a third, and the key stays with nobody left and no wait
abandoned. -/
theorem key_left_to_nobody : ∃ s, Run Step start twoDrops s ∧ (∀ i, s.tasks i = none) ∧
    s.abandoned = [] ∧ s.map "a" = some 0 := by
  have hend : (twoDrops.foldlM next start).map (fun s => (s.tasks 0, s.tasks 1, s.abandoned, s.map "a"))
      = some (none, none, [], some 0) := by decide
  obtain ⟨s, hs, hparts⟩ := Option.map_eq_some_iff.mp hend
  simp only [Prod.mk.injEq] at hparts
  obtain ⟨hfirst, hsecond, habandoned, hmap⟩ := hparts
  refine ⟨s, run_of_foldlM hs, ?_, habandoned, hmap⟩
  intro i
  match i with
  | 0 => exact hfirst
  | 1 => exact hsecond

end MessageCrate.KeyedLocks

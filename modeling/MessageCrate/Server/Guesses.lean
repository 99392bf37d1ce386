import MessageCrate.Lib.Runs
import MessageCrate.Server.StatedWaits

/- Guesses from any number of tasks at once (`credentials.rs`, `accounts_api.rs`).

   A task that presents a credential (login, register, claim) reads the clock and then takes the
   limiter's lock. One that confirms a change (`require_current_password`) peeks, compares, and
   counts a wrong password, and reads the clock again to count it; anything may happen between.

   1. `State`, `next`: the tasks, and one step of one of them.
   2. `InTurn`: the calls take the lock in the order of what they read, and between the peek and
      the count of a wrong password no other attempt on its bucket gets past. Nothing in the code
      sees to either.
   3. `Limited`: what holds in every state that such steps reach; each attempt that got past is
      a hit of its bucket, but for one whose count is still to come (`counted`).
   4. `guesses_stay_limited`: no window lets more through than its limit. -/
namespace MessageCrate.RateLimits
open Runs Window

/-! The tasks. -/

inductive Task
  | idle
  /-- The clock was read, and the lock is still to be taken. -/
  | asking (c : Call)
  /-- A peek let the password be compared, when `seen` moves had been made on the bucket. -/
  | looked (bucket : String) (seen : Nat)
  /-- The password was wrong. -/
  | wrong (bucket : String)

/-- `last`, `past` and `moves` are history: the latest instant a call took the lock with, the
attempts that got past the limiter with their instants, and on each bucket the number of attempts
that got past and of hits counted afterwards. -/
structure State where
  clock : Nat
  limits : AuthRateLimits
  tasks : Nat → Task
  last : Nat
  past : List (String × Nat)
  moves : String → Nat

def start : State := ⟨0, noHits, fun _ => .idle, 0, [], fun _ => 0⟩

def State.put (s : State) (i : Nat) (task : Task) : State :=
  { s with tasks := Function.update s.tasks i task }

def State.move (s : State) (bucket : String) : State :=
  { s with moves := Function.update s.moves bucket (s.moves bucket + 1) }

/-- An attempt gets past the limiter. -/
def State.pass (s : State) (bucket : String) (now : Nat) : State :=
  { s.move bucket with past := s.past ++ [(bucket, now)] }

inductive Event
  | tick (clock : Nat)
  /-- A credential is presented: the clock is read. -/
  | check (i : Nat) (bucket : String)
  /-- A current password is sent: the clock is read. -/
  | peek (i : Nat) (bucket : String)
  | compare (i : Nat) (right : Bool)
  /-- The clock is read to count a wrong password. -/
  | fail (i : Nat)
  /-- The call takes the limiter's lock. -/
  | lock (i : Nat)

def State.locked (s : State) (i : Nat) (c : Call) : State :=
  let (answer, limits) := respond s.limits c
  let s := { s with limits := limits, last := max s.last c.now }
  match c.ask, answer with
  | .check, .ok () => (s.put i .idle).pass c.bucket c.now
  | .peek, .ok () => s.put i (.looked c.bucket (s.moves c.bucket))
  | .count, _ => (s.put i .idle).move c.bucket
  | _, .error _ => s.put i .idle

def next (s : State) : Event → Option State
  | .tick clock => if s.clock ≤ clock then some { s with clock := clock } else none
  | .check i bucket =>
    match s.tasks i with
    | .idle => some (s.put i (.asking ⟨.check, bucket, s.clock⟩))
    | _ => none
  | .peek i bucket =>
    match s.tasks i with
    | .idle => some (s.put i (.asking ⟨.peek, bucket, s.clock⟩))
    | _ => none
  | .compare i right =>
    match s.tasks i with
    | .looked bucket _ =>
      some (if right then s.put i .idle else (s.put i (.wrong bucket)).pass bucket s.clock)
    | _ => none
  | .fail i =>
    match s.tasks i with
    | .wrong bucket => some (s.put i (.asking ⟨.count, bucket, s.clock⟩))
    | _ => none
  | .lock i =>
    match s.tasks i with
    | .asking c => some (s.locked i c)
    | _ => none

def Step (s : State) (e : Event) (t : State) : Prop := next s e = some t

/-! What a window lets through. -/

/-- The attempts on a bucket that got past in the window that starts at `w`. -/
def passedIn (past : List (String × Nat)) (bucket : String) (w : Nat) : Nat :=
  past.countP fun a => a.1 = bucket ∧ w ≤ a.2 ∧ a.2 ≤ w + authRateWindow

/-- A wrong password of the bucket is compared and not counted yet. -/
def Task.Pending (task : Task) (bucket : String) : Prop :=
  task = .wrong bucket ∨ ∃ now, task = .asking ⟨.count, bucket, now⟩

def State.Pending (s : State) (i : Nat) (bucket : String) : Prop := (s.tasks i).Pending bucket

/-- The calls take the lock in the order of the instants they read, and a wrong current password is
compared and counted with no other attempt on its bucket let through since its peek. -/
def InTurn (s : State) : Event → Prop
  | .lock i => ∀ c, s.tasks i = .asking c →
      s.last ≤ c.now ∧ (c.ask = .check → ∀ j, ¬ s.Pending j c.bucket)
  | .compare i right => ∀ bucket seen, s.tasks i = .looked bucket seen →
      right = true ∨ s.moves bucket = seen ∧ ∀ j, ¬ s.Pending j bucket
  | _ => True

def TurnStep (s : State) (e : Event) (t : State) : Prop := Step s e t ∧ InTurn s e

/-! Attempts and hits. -/

/-- The attempts on a bucket that got past and are no older at `t` than the window is wide. -/
def stillPast (past : List (String × Nat)) (bucket : String) (t : Nat) : Nat :=
  past.countP fun a => a.1 = bucket ∧ t ≤ a.2 + authRateWindow

section counts
variable {past : List (String × Nat)} {bucket other : String} {now t w : Nat}

theorem stillPast_snoc_self : stillPast (past ++ [(bucket, now)]) bucket t =
    stillPast past bucket t + if t ≤ now + authRateWindow then 1 else 0 := by
  rw [stillPast, List.countP_append, stillPast, List.countP_singleton]
  simp

theorem stillPast_snoc_ne (hne : other ≠ bucket) :
    stillPast (past ++ [(bucket, now)]) other t = stillPast past other t := by
  rw [stillPast, List.countP_append, stillPast, List.countP_singleton]
  simp [hne.symm]

theorem stillPast_snoc_le (past : List (String × Nat)) (bucket other : String) (now t : Nat) :
    stillPast (past ++ [(bucket, now)]) other t ≤ stillPast past other t + 1 := by
  rw [stillPast, List.countP_append, stillPast, List.countP_singleton]
  split <;> omega

theorem stillPast_eq_zero (h : ∀ a ∈ past, a.1 = bucket → a.2 + authRateWindow < t) :
    stillPast past bucket t = 0 := by
  rw [stillPast, List.countP_eq_zero]
  intro a ha hcount
  simp only [decide_eq_true_eq] at hcount
  have := h a ha hcount.1
  omega

/-- **A window stays within its limit** when what gets past finds fewer of the attempts that are
still in it. -/
theorem passedIn_snoc (hin : ∀ bucket w, passedIn past bucket w ≤ authRateMax)
    (hroom : stillPast past bucket now < authRateMax) (other : String) (w : Nat) :
    passedIn (past ++ [(bucket, now)]) other w ≤ authRateMax := by
  have hbefore := hin other w
  rw [passedIn, List.countP_append, ← passedIn, List.countP_singleton]
  split
  · next hcount =>
    simp only [decide_eq_true_eq] at hcount
    obtain ⟨rfl, hfirst, hlast⟩ := hcount
    have hle : passedIn past bucket w ≤ stillPast past bucket now := by
      apply List.countP_mono_left
      intro a _ ha
      simp only [decide_eq_true_eq] at ha ⊢
      exact ⟨ha.1, by omega⟩
    omega
  · omega

end counts

section calls
variable {limits : AuthRateLimits} {now t : Nat} {c : Call}

/-- The window of a call's own bucket after the call. -/
theorem recent_respond_self (h : Sound now limits) (hle : now ≤ c.now) (ht : c.now ≤ t) :
    recent (respond limits c).2 c.bucket t = recent limits c.bucket t ++
      if (act c.ask c.now (recent limits c.bucket c.now)).2 = recent limits c.bucket c.now then []
      else if t - c.now ≤ authRateWindow then [c.now] else [] := by
  have hordered : Ordered c.now (recent limits c.bucket c.now) :=
    ((h.ordered c.bucket).mono hle).live
  have hlive : live authRateWindow t (recent limits c.bucket c.now) = recent limits c.bucket t :=
    live_live ht
  rw [recent, hitsOf_respond_self h]
  split
  · next hsame => rw [hsame, hlive, List.append_nil]
  · next hput =>
    rw [(act_hits _ _ _).resolve_left hput, live_snoc hordered, hlive]

/-- A call that counts nothing leaves every window. -/
theorem recent_respond_same (h : Sound now limits) (hle : now ≤ c.now) (ht : c.now ≤ t)
    (hsame : (act c.ask c.now (recent limits c.bucket c.now)).2 = recent limits c.bucket c.now)
    (bucket : String) : recent (respond limits c).2 bucket t = recent limits bucket t := by
  by_cases hown : bucket = c.bucket
  · rw [hown, recent_respond_self h hle ht, if_pos hsame, List.append_nil]
  · exact recent_respond_ne h hown ht

/-- A call that counts itself. -/
theorem length_recent_respond (h : Sound now limits) (hle : now ≤ c.now) (ht : c.now ≤ t)
    (hput : (act c.ask c.now (recent limits c.bucket c.now)).2 =
      recent limits c.bucket c.now ++ [c.now]) :
    (recent (respond limits c).2 c.bucket t).length = (recent limits c.bucket t).length +
      if t ≤ c.now + authRateWindow then 1 else 0 := by
  have hne : (act c.ask c.now (recent limits c.bucket c.now)).2 ≠ recent limits c.bucket c.now := by
    rw [hput]
    simp
  rw [recent_respond_self h hle ht, if_neg hne, List.length_append]
  congr 1
  by_cases hin : t ≤ c.now + authRateWindow
  · rw [if_pos hin, if_pos (by omega)]
    rfl
  · rw [if_neg hin, if_neg (by omega)]
    rfl

end calls

/-! What holds in every state. -/

/-- What is known of a task. -/
def TaskOk (s : State) : Task → Prop
  | .idle => True
  | .asking c => c.now ≤ s.clock ∧ (c.ask = .count → ∀ a ∈ s.past, a.1 = c.bucket → a.2 ≤ c.now)
  | .looked bucket seen => seen ≤ s.moves bucket ∧
      (s.moves bucket = seen → ∀ t, s.last ≤ t → (recent s.limits bucket t).length < authRateMax)
  | .wrong _ => True

structure Limited (s : State) : Prop where
  sound : Sound s.last s.limits
  lastLe : s.last ≤ s.clock
  pastLe : ∀ a ∈ s.past, a.2 ≤ s.clock
  tasks : ∀ i, TaskOk s (s.tasks i)
  alone : ∀ i j bucket, s.Pending i bucket → s.Pending j bucket → i = j
  owed : ∀ bucket t, s.last ≤ t →
    stillPast s.past bucket t ≤ (recent s.limits bucket t).length + 1
  counted : ∀ bucket, (∀ i, ¬ s.Pending i bucket) → ∀ t, s.last ≤ t →
    stillPast s.past bucket t ≤ (recent s.limits bucket t).length
  within : ∀ bucket w, passedIn s.past bucket w ≤ authRateMax

theorem limited_start : Limited start where
  sound := sound_noHits
  lastLe := Nat.le_refl _
  pastLe := by
    intro a ha
    cases ha
  tasks := fun _ => trivial
  alone := by
    rintro i j bucket (h | ⟨now, h⟩)
    · cases h
    · cases h
  owed := fun bucket t _ => Nat.zero_le _
  counted := fun bucket _ t _ => Nat.zero_le _
  within := fun bucket w => Nat.zero_le _

section steps
variable {s s' : State} {i : Nat} {bucket : String}

/-- What a task knows stays true while time goes on, no window it looked into fills unseen, and
nothing more gets past on a bucket it is about to count in. -/
structure Frame (s s' : State) : Prop where
  clock : s.clock ≤ s'.clock
  last : s.last ≤ s'.last
  moves : ∀ bucket, s.moves bucket ≤ s'.moves bucket
  room : ∀ bucket, s'.moves bucket = s.moves bucket → ∀ t, s'.last ≤ t →
    (recent s'.limits bucket t).length ≤ (recent s.limits bucket t).length

theorem TaskOk.frame {task : Task} (h : TaskOk s task) (hf : Frame s s')
    (hpast : ∀ c, task = .asking c → c.ask = .count → ∀ a ∈ s'.past, a.1 = c.bucket → a ∈ s.past) :
    TaskOk s' task := by
  cases task with
  | idle => trivial
  | asking c =>
    refine ⟨le_trans h.1 hf.clock, ?_⟩
    intro hcount a ha hbucket
    exact h.2 hcount a (hpast c rfl hcount a ha hbucket) hbucket
  | looked bucket seen =>
    refine ⟨le_trans h.1 (hf.moves bucket), ?_⟩
    intro hseen t ht
    have hsame : s'.moves bucket = s.moves bucket := by
      have := hf.moves bucket
      have := h.1
      omega
    exact lt_of_le_of_lt (hf.room bucket hsame t ht)
      (h.2 (hsame.symm.trans hseen) t (le_trans hf.last ht))
  | wrong _ => trivial

/-- The limiter after a call, and the instant that the call took the lock with. -/
def State.took (s : State) (c : Call) : State :=
  { s with limits := (respond s.limits c).2, last := max s.last c.now }

/-- What a call that takes the lock does: it counts nothing, gets past, or counts a failure. -/
theorem locked_cases (h : Sound s.last s.limits) (c : Call) :
    (∃ task, s.locked i c = (s.took c).put i task ∧ c.ask ≠ .count ∧
      (act c.ask c.now (recent s.limits c.bucket c.now)).2 = recent s.limits c.bucket c.now ∧
      (task = .idle ∨ task = .looked c.bucket (s.moves c.bucket) ∧
        (recent s.limits c.bucket c.now).length < authRateMax)) ∨
    (s.locked i c = ((s.took c).put i .idle).pass c.bucket c.now ∧ c.ask = .check ∧
      (act c.ask c.now (recent s.limits c.bucket c.now)).2 =
        recent s.limits c.bucket c.now ++ [c.now] ∧
      (recent s.limits c.bucket c.now).length < authRateMax) ∨
    (s.locked i c = ((s.took c).put i .idle).move c.bucket ∧ c.ask = .count ∧
      (act c.ask c.now (recent s.limits c.bucket c.now)).2 =
        recent s.limits c.bucket c.now ++ [c.now]) := by
  have hanswer := respond_answer (c := c) h
  cases hask : c.ask with
  | check =>
    cases hfull : refuseWhenFull (recent s.limits c.bucket c.now) c.now with
    | error e =>
      have hact : act .check c.now (recent s.limits c.bucket c.now) =
          (.error e, recent s.limits c.bucket c.now) := by simp only [act, hfull]
      rw [hask, hact] at hanswer
      refine .inl ⟨.idle, ?_, by decide, by rw [hact], .inl rfl⟩
      simp only [State.locked, hanswer, hask]
      rfl
    | ok =>
      have hact : act .check c.now (recent s.limits c.bucket c.now) =
          (.ok (), recent s.limits c.bucket c.now ++ [c.now]) := by simp only [act, hfull]
      rw [hask, hact] at hanswer
      refine .inr (.inl ⟨?_, rfl, by rw [hact], refuseWhenFull_eq_ok.mp hfull⟩)
      simp only [State.locked, hanswer, hask]
      rfl
  | peek =>
    have hact : act .peek c.now (recent s.limits c.bucket c.now) =
        (refuseWhenFull (recent s.limits c.bucket c.now) c.now,
          recent s.limits c.bucket c.now) := rfl
    rw [hask, hact] at hanswer
    cases hfull : refuseWhenFull (recent s.limits c.bucket c.now) c.now with
    | error e =>
      rw [hfull] at hanswer
      refine .inl ⟨.idle, ?_, by decide, rfl, .inl rfl⟩
      simp only [State.locked, hanswer, hask]
      rfl
    | ok =>
      rw [hfull] at hanswer
      refine .inl ⟨_, ?_, by decide, rfl, .inr ⟨rfl, refuseWhenFull_eq_ok.mp hfull⟩⟩
      simp only [State.locked, hanswer, hask]
      rfl
  | count =>
    refine .inr (.inr ⟨?_, rfl, rfl⟩)
    simp only [State.locked, hask]
    rfl

@[simp] theorem pending_put {task : Task} {j : Nat} : (s.put i task).Pending j bucket ↔
    if j = i then task.Pending bucket else s.Pending j bucket := by
  simp only [State.Pending, State.put, Function.update_apply]
  split <;> rfl

/-- **A quiet step**: nothing gets past and nothing is counted, and no wrong password is compared
or done with. -/
theorem Limited.quiet {task : Task} (h : Limited s) (hclock : s.clock ≤ s'.clock)
    (hlast : s.last ≤ s'.last) (hlastLe : s'.last ≤ s'.clock) (hpast : s'.past = s.past)
    (hmoves : s'.moves = s.moves) (hsound : Sound s'.last s'.limits)
    (hrecent : ∀ bucket t, s'.last ≤ t → recent s'.limits bucket t = recent s.limits bucket t)
    (htasks : s'.tasks = Function.update s.tasks i task) (htask : TaskOk s' task)
    (hpending : ∀ bucket, task.Pending bucket ↔ s.Pending i bucket) : Limited s' := by
  have hframe : Frame s s' :=
    { clock := hclock
      last := hlast
      moves := fun bucket => by rw [hmoves]
      room := fun bucket _ t ht => by rw [hrecent bucket t ht] }
  have hsame : ∀ j bucket, s'.Pending j bucket ↔ s.Pending j bucket := by
    intro j bucket
    rw [State.Pending, htasks, Function.update_apply]
    split
    · next heq => rw [hpending, heq]
    · rfl
  exact
    { sound := hsound
      lastLe := hlastLe
      pastLe := by
        intro a ha
        rw [hpast] at ha
        exact le_trans (h.pastLe a ha) hclock
      tasks := by
        intro j
        rw [htasks, Function.update_apply]
        split
        · exact htask
        · refine (h.tasks j).frame hframe ?_
          intro c _ _ a ha _
          rwa [hpast] at ha
      alone := by
        intro j k bucket hj hk
        exact h.alone j k bucket ((hsame j bucket).mp hj) ((hsame k bucket).mp hk)
      owed := by
        intro bucket t ht
        rw [hpast, hrecent bucket t ht]
        exact h.owed bucket t (le_trans hlast ht)
      counted := by
        intro bucket hfree t ht
        rw [hpast, hrecent bucket t ht]
        refine h.counted bucket ?_ t (le_trans hlast ht)
        intro j hj
        exact hfree j ((hsame j bucket).mpr hj)
      within := by
        intro bucket w
        rw [hpast]
        exact h.within bucket w }

/-- What a task knows outlasts an attempt on a bucket where no wrong password is pending. -/
theorem Limited.taskOk_pass {now : Nat} (h : Limited s) (hf : Frame s s')
    (hpast : s'.past = s.past ++ [(bucket, now)]) (hfree : ∀ j, ¬ s.Pending j bucket) (j : Nat) :
    TaskOk s' (s.tasks j) := by
  refine (h.tasks j).frame hf ?_
  intro c hc hcount a ha hbucket
  rw [hpast, List.mem_append, List.mem_singleton] at ha
  rcases ha with ha | rfl
  · exact ha
  · refine absurd (.inr ⟨c.now, ?_⟩) (hfree j)
    rw [hc, ← hcount, show bucket = c.bucket from hbucket]

/-- **An attempt that is checked gets past.** -/
theorem Limited.check_passes {c : Call} (h : Limited s) (hlast : s.last ≤ c.now)
    (hclock : c.now ≤ s.clock) (hfree : ∀ j, ¬ s.Pending j c.bucket)
    (hput : (act c.ask c.now (recent s.limits c.bucket c.now)).2 =
      recent s.limits c.bucket c.now ++ [c.now])
    (hroom : (recent s.limits c.bucket c.now).length < authRateMax)
    (hi : ∀ bucket, ¬ s.Pending i bucket) :
    Limited (((s.took c).put i .idle).pass c.bucket c.now) := by
  have htook : max s.last c.now = c.now := Nat.max_eq_right hlast
  have hpending : ∀ j bucket, (((s.took c).put i .idle).pass c.bucket c.now).Pending j bucket →
      s.Pending j bucket ∧ j ≠ i := by
    intro j bucket hj
    have hj' : ((s.took c).put i .idle).Pending j bucket := hj
    rw [pending_put] at hj'
    split at hj'
    · rcases hj' with hj' | ⟨_, hj'⟩ <;> cases hj'
    · next hne => exact ⟨hj', hne⟩
  have hframe : Frame s (((s.took c).put i .idle).pass c.bucket c.now) :=
    { clock := Nat.le_refl _
      last := Nat.le_max_left _ _
      moves := by
        intro bucket
        simp only [State.pass, State.move, State.put, State.took, Function.update_apply]
        split
        · next heq => rw [heq]; exact Nat.le_succ _
        · exact Nat.le_refl _
      room := by
        intro bucket hsame t ht
        have hne : bucket ≠ c.bucket := by
          rintro rfl
          simp only [State.pass, State.move, State.put, State.took, Function.update_self] at hsame
          omega
        have ht' : c.now ≤ t := le_trans (Nat.le_max_right _ _) ht
        exact (congrArg List.length (recent_respond_ne h.sound hne ht')).le }
  have hwindow : ∀ bucket t, c.now ≤ t →
      stillPast (s.past ++ [(c.bucket, c.now)]) bucket t + (recent s.limits bucket t).length =
        stillPast s.past bucket t + (recent (respond s.limits c).2 bucket t).length := by
    intro bucket t ht
    by_cases hown : bucket = c.bucket
    · rw [hown, stillPast_snoc_self, length_recent_respond h.sound hlast ht hput]
      omega
    · rw [stillPast_snoc_ne hown, recent_respond_ne h.sound hown ht]
  exact
    { sound := by
        have := h.sound.respond hlast
        rw [← htook] at this
        exact this
      lastLe := Nat.max_le.mpr ⟨h.lastLe, hclock⟩
      pastLe := by
        intro a ha
        rcases List.mem_append.mp ha with ha | ha
        · exact h.pastLe a ha
        · rw [List.mem_singleton.mp ha]
          exact hclock
      tasks := by
        intro j
        have htasks : (((s.took c).put i .idle).pass c.bucket c.now).tasks =
          Function.update s.tasks i .idle := rfl
        rw [htasks, Function.update_apply]
        split
        · trivial
        · exact h.taskOk_pass hframe rfl hfree j
      alone := fun j k bucket hj hk => h.alone j k bucket (hpending j bucket hj).1 (hpending k bucket hk).1
      owed := by
        intro bucket t ht
        have ht' : c.now ≤ t := le_trans (Nat.le_max_right _ _) ht
        have hbefore := h.owed bucket t (le_trans hlast ht')
        have := hwindow bucket t ht'
        show stillPast (s.past ++ [(c.bucket, c.now)]) bucket t ≤
          (recent (respond s.limits c).2 bucket t).length + 1
        omega
      counted := by
        intro bucket hnone t ht
        have ht' : c.now ≤ t := le_trans (Nat.le_max_right _ _) ht
        have hbefore := h.counted bucket (by
          intro j hj
          by_cases hji : j = i
          · exact hi bucket (hji ▸ hj)
          · refine hnone j ?_
            show ((s.took c).put i .idle).Pending j bucket
            rw [pending_put, if_neg hji]
            exact hj) t (le_trans hlast ht')
        have := hwindow bucket t ht'
        show stillPast (s.past ++ [(c.bucket, c.now)]) bucket t ≤
          (recent (respond s.limits c).2 bucket t).length
        omega
      within := by
        intro bucket w
        refine passedIn_snoc h.within ?_ bucket w
        exact lt_of_le_of_lt (h.counted c.bucket hfree c.now hlast) hroom }

/-- **A wrong current password is compared.** -/
theorem Limited.compare_wrong {seen : Nat} (h : Limited s) (hi : s.tasks i = .looked bucket seen)
    (hseen : s.moves bucket = seen) (hfree : ∀ j, ¬ s.Pending j bucket) :
    Limited ((s.put i (.wrong bucket)).pass bucket s.clock) := by
  have hroom : (recent s.limits bucket s.clock).length < authRateMax := by
    have hok := h.tasks i
    rw [hi] at hok
    exact hok.2 hseen s.clock h.lastLe
  have hpending : ∀ j other, ((s.put i (.wrong bucket)).pass bucket s.clock).Pending j other →
      (j = i ∧ other = bucket) ∨ (j ≠ i ∧ s.Pending j other) := by
    intro j other hj
    have hj' : (s.put i (.wrong bucket)).Pending j other := hj
    rw [pending_put] at hj'
    split at hj'
    · next heq =>
      rcases hj' with hj' | ⟨_, hj'⟩
      · cases hj'
        exact .inl ⟨heq, rfl⟩
      · cases hj'
    · next hne => exact .inr ⟨hne, hj'⟩
  have hframe : Frame s ((s.put i (.wrong bucket)).pass bucket s.clock) :=
    { clock := Nat.le_refl _
      last := Nat.le_refl _
      moves := by
        intro other
        simp only [State.pass, State.move, State.put, Function.update_apply]
        split
        · next heq => rw [heq]; exact Nat.le_succ _
        · exact Nat.le_refl _
      room := fun other _ t _ => Nat.le_refl _ }
  exact
    { sound := h.sound
      lastLe := h.lastLe
      pastLe := by
        intro a ha
        rcases List.mem_append.mp ha with ha | ha
        · exact h.pastLe a ha
        · rw [List.mem_singleton.mp ha]
          exact Nat.le_refl _
      tasks := by
        intro j
        have htasks : ((s.put i (.wrong bucket)).pass bucket s.clock).tasks =
          Function.update s.tasks i (.wrong bucket) := rfl
        rw [htasks, Function.update_apply]
        split
        · trivial
        · exact h.taskOk_pass hframe rfl hfree j
      alone := by
        intro j k other hj hk
        rcases hpending j other hj with ⟨rfl, rfl⟩ | ⟨-, hj'⟩
        · rcases hpending k other hk with ⟨rfl, -⟩ | ⟨-, hk'⟩
          · rfl
          · exact absurd hk' (hfree k)
        · rcases hpending k other hk with ⟨-, rfl⟩ | ⟨-, hk'⟩
          · exact absurd hj' (hfree j)
          · exact h.alone j k other hj' hk'
      owed := by
        intro other t ht
        show stillPast (s.past ++ [(bucket, s.clock)]) other t ≤ (recent s.limits other t).length + 1
        by_cases hown : other = bucket
        · have hbefore := h.counted other (hown ▸ hfree) t ht
          have := stillPast_snoc_le s.past bucket other s.clock t
          omega
        · rw [stillPast_snoc_ne hown]
          exact h.owed other t ht
      counted := by
        intro other hnone t ht
        have hne : other ≠ bucket := by
          rintro rfl
          refine hnone i ?_
          show (s.put i (.wrong other)).Pending i other
          rw [pending_put, if_pos rfl]
          exact .inl rfl
        show stillPast (s.past ++ [(bucket, s.clock)]) other t ≤ (recent s.limits other t).length
        rw [stillPast_snoc_ne hne]
        refine h.counted other ?_ t ht
        intro j hj
        refine hnone j ?_
        show (s.put i (.wrong bucket)).Pending j other
        rw [pending_put]
        split
        · next heq =>
          rw [heq, State.Pending, hi] at hj
          rcases hj with hj | ⟨_, hj⟩ <;> cases hj
        · exact hj
      within := by
        intro other w
        refine passedIn_snoc h.within ?_ other w
        exact lt_of_le_of_lt (h.counted bucket hfree s.clock h.lastLe) hroom }

/-- **A wrong current password is counted.** -/
theorem Limited.count_failure {c : Call} (h : Limited s) (hlast : s.last ≤ c.now)
    (hi : s.tasks i = .asking c) (hask : c.ask = .count)
    (hput : (act c.ask c.now (recent s.limits c.bucket c.now)).2 =
      recent s.limits c.bucket c.now ++ [c.now]) :
    Limited (((s.took c).put i .idle).move c.bucket) := by
  have htask := h.tasks i
  rw [hi] at htask
  obtain ⟨hclock, hbefore⟩ := htask
  have hmine : s.Pending i c.bucket := by
    refine .inr ⟨c.now, ?_⟩
    rw [hi, ← hask]
  have htook : max s.last c.now = c.now := Nat.max_eq_right hlast
  have hpending : ∀ j bucket, (((s.took c).put i .idle).move c.bucket).Pending j bucket ↔
      j ≠ i ∧ s.Pending j bucket := by
    intro j bucket
    show ((s.took c).put i .idle).Pending j bucket ↔ _
    rw [pending_put]
    split
    · next heq =>
      constructor
      · rintro (hj | ⟨_, hj⟩) <;> cases hj
      · intro hj
        exact absurd heq hj.1
    · next hne => exact ⟨fun hj => ⟨hne, hj⟩, fun hj => hj.2⟩
  have hframe : Frame s (((s.took c).put i .idle).move c.bucket) :=
    { clock := Nat.le_refl _
      last := Nat.le_max_left _ _
      moves := by
        intro bucket
        simp only [State.move, State.put, State.took, Function.update_apply]
        split
        · next heq => rw [heq]; exact Nat.le_succ _
        · exact Nat.le_refl _
      room := by
        intro bucket hsame t ht
        have hne : bucket ≠ c.bucket := by
          rintro rfl
          simp only [State.move, State.put, State.took, Function.update_self] at hsame
          omega
        have ht' : c.now ≤ t := le_trans (Nat.le_max_right _ _) ht
        exact (congrArg List.length (recent_respond_ne h.sound hne ht')).le }
  -- the hit takes the place of the one that was owed
  have hpaid : ∀ t, c.now ≤ t → stillPast s.past c.bucket t ≤
      (recent (respond s.limits c).2 c.bucket t).length := by
    intro t ht
    rw [length_recent_respond h.sound hlast ht hput]
    by_cases hin : t ≤ c.now + authRateWindow
    · rw [if_pos hin]
      exact h.owed c.bucket t (le_trans hlast ht)
    · have hnone : stillPast s.past c.bucket t = 0 := by
        apply stillPast_eq_zero
        intro a ha hbucket
        have := hbefore hask a ha hbucket
        omega
      omega
  have hother : ∀ bucket t, bucket ≠ c.bucket → c.now ≤ t →
      recent (respond s.limits c).2 bucket t = recent s.limits bucket t :=
    fun bucket t hne ht => recent_respond_ne h.sound hne ht
  exact
    { sound := by
        have := h.sound.respond hlast
        rw [← htook] at this
        exact this
      lastLe := Nat.max_le.mpr ⟨h.lastLe, hclock⟩
      pastLe := h.pastLe
      tasks := by
        intro j
        have htasks : (((s.took c).put i .idle).move c.bucket).tasks =
          Function.update s.tasks i .idle := rfl
        rw [htasks, Function.update_apply]
        split
        · trivial
        · exact (h.tasks j).frame hframe fun _ _ _ a ha _ => ha
      alone := by
        intro j k bucket hj hk
        exact h.alone j k bucket ((hpending j bucket).mp hj).2 ((hpending k bucket).mp hk).2
      owed := by
        intro bucket t ht
        have ht' : c.now ≤ t := le_trans (Nat.le_max_right _ _) ht
        show stillPast s.past bucket t ≤ (recent (respond s.limits c).2 bucket t).length + 1
        by_cases hown : bucket = c.bucket
        · rw [hown]
          exact Nat.le_succ_of_le (hpaid t ht')
        · rw [hother bucket t hown ht']
          exact h.owed bucket t (le_trans hlast ht')
      counted := by
        intro bucket hnone t ht
        have ht' : c.now ≤ t := le_trans (Nat.le_max_right _ _) ht
        show stillPast s.past bucket t ≤ (recent (respond s.limits c).2 bucket t).length
        by_cases hown : bucket = c.bucket
        · rw [hown]
          exact hpaid t ht'
        · rw [hother bucket t hown ht']
          refine h.counted bucket ?_ t (le_trans hlast ht')
          intro j hj
          refine hnone j ((hpending j bucket).mpr ⟨?_, hj⟩)
          rintro rfl
          rw [State.Pending, hi] at hj
          rcases hj with hj | ⟨now, hj⟩
          · cases hj
          · rw [Task.asking.injEq] at hj
            exact hown (by rw [hj])
      within := h.within }

/-- **One step in turn keeps what holds.** -/
theorem Limited.step {e : Event} (h : Limited s) (hstep : TurnStep s e s') : Limited s' := by
  obtain ⟨hnext, hturn⟩ := hstep
  cases e with
  | tick clock =>
    rw [Step, next] at hnext
    split at hnext
    · next hle =>
      cases hnext
      exact h.quiet (i := 0) hle (Nat.le_refl _) (le_trans h.lastLe hle) rfl rfl h.sound
        (fun _ _ _ => rfl) (Function.update_eq_self 0 s.tasks).symm
        ((h.tasks 0).frame ⟨hle, Nat.le_refl _, fun _ => Nat.le_refl _, fun _ _ _ _ => Nat.le_refl _⟩
          fun _ _ _ a ha _ => ha) fun _ => Iff.rfl
    · cases hnext
  | check i bucket =>
    rw [Step, next] at hnext
    split at hnext
    · next hi =>
      cases hnext
      refine h.quiet (i := i) (Nat.le_refl _) (Nat.le_refl _) h.lastLe rfl rfl h.sound
        (fun _ _ _ => rfl) rfl ⟨Nat.le_refl _, fun hcount => by cases hcount⟩ ?_
      intro other
      rw [State.Pending, hi]
      simp [Task.Pending]
    · cases hnext
  | peek i bucket =>
    rw [Step, next] at hnext
    split at hnext
    · next hi =>
      cases hnext
      refine h.quiet (i := i) (Nat.le_refl _) (Nat.le_refl _) h.lastLe rfl rfl h.sound
        (fun _ _ _ => rfl) rfl ⟨Nat.le_refl _, fun hcount => by cases hcount⟩ ?_
      intro other
      rw [State.Pending, hi]
      simp [Task.Pending]
    · cases hnext
  | compare i right =>
    rw [Step, next] at hnext
    split at hnext
    · next bucket seen hi =>
      have hcase := hturn bucket seen hi
      cases hnext
      by_cases hright : right = true
      · rw [if_pos hright]
        refine h.quiet (i := i) (Nat.le_refl _) (Nat.le_refl _) h.lastLe rfl rfl h.sound
          (fun _ _ _ => rfl) rfl trivial ?_
        intro other
        rw [State.Pending, hi]
        simp [Task.Pending]
      · obtain ⟨hseen, hfree⟩ := hcase.resolve_left hright
        rw [if_neg hright]
        exact h.compare_wrong hi hseen hfree
    · cases hnext
  | fail i =>
    rw [Step, next] at hnext
    split at hnext
    · next bucket hi =>
      cases hnext
      refine h.quiet (i := i) (Nat.le_refl _) (Nat.le_refl _) h.lastLe rfl rfl h.sound
        (fun _ _ _ => rfl) rfl ⟨Nat.le_refl _, fun _ a ha _ => h.pastLe a ha⟩ ?_
      intro other
      rw [State.Pending, hi]
      simp [Task.Pending]
    · cases hnext
  | lock i =>
    rw [Step, next] at hnext
    split at hnext
    · next c hi =>
      obtain ⟨hlast, hfree⟩ := hturn c hi
      have hclock : c.now ≤ s.clock := by
        have := h.tasks i
        rw [hi] at this
        exact this.1
      have htook : max s.last c.now = c.now := Nat.max_eq_right hlast
      cases hnext
      rcases locked_cases (i := i) h.sound c with
        ⟨task, heq, hask, hsame, htask⟩ | ⟨heq, hask, hput, hroom⟩ | ⟨heq, hask, hput⟩
      · rw [heq]
        have hrecent : ∀ bucket t, max s.last c.now ≤ t →
            recent (respond s.limits c).2 bucket t = recent s.limits bucket t := by
          intro bucket t ht
          exact recent_respond_same h.sound hlast (le_trans (Nat.le_max_right _ _) ht) hsame bucket
        have hsound : Sound (max s.last c.now) (respond s.limits c).2 := by
          rw [htook]
          exact h.sound.respond hlast
        refine h.quiet (i := i) (Nat.le_refl _) (Nat.le_max_left _ _)
          (Nat.max_le.mpr ⟨h.lastLe, hclock⟩) rfl rfl hsound hrecent rfl ?_ ?_
        · rcases htask with rfl | ⟨rfl, hroom⟩
          · trivial
          · refine ⟨Nat.le_refl _, ?_⟩
            intro _ t ht
            have ht' : max s.last c.now ≤ t := ht
            show (recent (respond s.limits c).2 c.bucket t).length < authRateMax
            rw [hrecent c.bucket t ht']
            exact lt_of_le_of_lt (live_length_le (le_trans (Nat.le_max_right _ _) ht')) hroom
        · intro other
          rw [State.Pending, hi]
          rcases htask with rfl | ⟨rfl, -⟩
          · simp only [Task.Pending, reduceCtorEq, exists_false, or_self, Task.asking.injEq, false_or,
              false_iff, not_exists]
            rintro now rfl
            exact hask rfl
          · simp only [Task.Pending, reduceCtorEq, exists_false, or_self, Task.asking.injEq, false_or,
              false_iff, not_exists]
            rintro now rfl
            exact hask rfl
      · rw [heq]
        refine h.check_passes hlast hclock (hfree hask) hput hroom ?_
        intro bucket hj
        rw [State.Pending, hi] at hj
        rcases hj with hj | ⟨now, hj⟩
        · cases hj
        · rw [Task.asking.injEq] at hj
          rw [hj] at hask
          cases hask
      · rw [heq]
        exact h.count_failure hlast hi hask hput
    · cases hnext

end steps

/-! The limit. -/

/-- The answers to calls that take the lock one after another. -/
def answers : AuthRateLimits → List Call → List Answer
  | _, [] => []
  | limits, c :: calls => (respond limits c).1 :: answers (respond limits c).2 calls

/-- Two limiters that show every bucket but one the same. -/
theorem answers_congr {l₁ l₂ : AuthRateLimits} {bucket : String} {now later : Nat} {calls : List Call}
    (h₁ : Sound now l₁) (h₂ : Sound now l₂) (hcalls : InOrder now calls later)
    (hne : ∀ c ∈ calls, c.bucket ≠ bucket)
    (hsame : ∀ other t, other ≠ bucket → now ≤ t → recent l₁ other t = recent l₂ other t) :
    answers l₁ calls = answers l₂ calls := by
  induction calls generalizing now l₁ l₂ with
  | nil => rfl
  | cons c calls ih =>
    obtain ⟨hfirst, hrest⟩ := List.forall_mem_cons.mp hne
    have hc := hsame c.bucket c.now hfirst hcalls.1
    have hanswer : (respond l₁ c).1 = (respond l₂ c).1 := by
      rw [respond_answer h₁, respond_answer h₂, hc]
    refine congrArg₂ List.cons hanswer (ih (h₁.respond hcalls.1) (h₂.respond hcalls.1) hcalls.2 hrest ?_)
    intro other t hother ht
    by_cases hown : other = c.bucket
    · rw [hown, recent_respond_self h₁ hcalls.1 ht, recent_respond_self h₂ hcalls.1 ht, hc,
        hsame c.bucket t hfirst (le_trans hcalls.1 ht)]
    · rw [recent_respond_ne h₁ hown ht, recent_respond_ne h₂ hown ht,
        hsame other t hother (le_trans hcalls.1 ht)]

/-- **No bucket lets more than its limit of guesses through**: in every state that steps in turn
reach, every window of every bucket holds at most the limit of attempts that got past; and a call
that takes the lock next changes no answer that another bucket gives from then on, and leaves no
bucket in the map without a hit inside the window that ends at the call. -/
theorem guesses_stay_limited (es : List Event) (s : State) (hrun : Run TurnStep start es s) :
    (∀ bucket w, passedIn s.past bucket w ≤ authRateMax) ∧
    ∀ c : Call, s.last ≤ c.now →
      (∀ calls later, InOrder c.now calls later → (∀ d ∈ calls, d.bucket ≠ c.bucket) →
        answers (respond s.limits c).2 calls = answers s.limits calls) ∧
      ∀ bucket hits, (respond s.limits c).2 bucket = some hits →
        ∃ hit ∈ hits, hit ≤ c.now ∧ c.now ≤ hit + authRateWindow := by
  have h : Limited s := hrun.keeps (fun s e t hstep hs => hs.step hstep) limited_start
  refine ⟨h.within, ?_⟩
  intro c hlast
  refine ⟨?_, ?_⟩
  · intro calls later hcalls hne
    refine answers_congr (h.sound.respond hlast) (h.sound.mono hlast) hcalls hne ?_
    intro other t hother ht
    exact recent_respond_ne h.sound hother ht
  · intro bucket hits hmem
    exact recent_of_mem_respond h.sound hlast hmem

/-! Runs of the first tasks, computed. -/

section computed
variable {n : Nat} {s t : State} {e : Event}

instance (task : Task) (bucket : String) : Decidable (task.Pending bucket) :=
  match task with
  | .wrong other => decidable_of_iff (other = bucket) (by simp [Task.Pending])
  | .asking c => decidable_of_iff (c.ask = .count ∧ c.bucket = bucket) (by
      obtain ⟨ask, other, now⟩ := c
      simp [Task.Pending])
  | .idle | .looked _ _ => .isFalse (by simp [Task.Pending])

/-- Nothing is under way but in the first `n` tasks. -/
def State.Below (n : Nat) (s : State) : Prop := ∀ i, n ≤ i → s.tasks i = .idle

/-- None of the first `n` tasks has a wrong password of the bucket to count. -/
def State.noPending (n : Nat) (s : State) (bucket : String) : Bool :=
  (List.range n).all fun j => !decide ((s.tasks j).Pending bucket)

/-- `InTurn`, of the first `n` tasks. -/
def turnBelow (n : Nat) (s : State) : Event → Bool
  | .tick _ => true
  | .check i _ | .peek i _ | .fail i => decide (i < n)
  | .compare i right => decide (i < n) &&
    match s.tasks i with
    | .looked bucket seen => right || (decide (s.moves bucket = seen) && s.noPending n bucket)
    | _ => true
  | .lock i => decide (i < n) &&
    match s.tasks i with
    | .asking c => decide (s.last ≤ c.now) && (decide (c.ask ≠ .check) || s.noPending n c.bucket)
    | _ => true

def nextBelow (n : Nat) (s : State) (e : Event) : Option State :=
  if turnBelow n s e then next s e else none

theorem State.Below.not_pending (h : s.Below n) {bucket : String}
    (hnone : s.noPending n bucket = true) (j : Nat) : ¬ s.Pending j bucket := by
  by_cases hj : j < n
  · simpa [State.Pending] using List.all_eq_true.mp hnone j (List.mem_range.mpr hj)
  · rw [State.Pending, h j (Nat.le_of_not_lt hj)]
    simp [Task.Pending]

theorem State.Below.inTurn (h : s.Below n) (hturn : turnBelow n s e = true) : InTurn s e := by
  cases e with
  | tick | check | peek | fail => trivial
  | compare i right =>
    intro bucket seen hi
    simp only [turnBelow, hi, Bool.and_eq_true, Bool.or_eq_true, decide_eq_true_eq] at hturn
    exact hturn.2.imp_right fun hseen => ⟨hseen.1, h.not_pending hseen.2⟩
  | lock i =>
    intro c hi
    simp only [turnBelow, hi, Bool.and_eq_true, Bool.or_eq_true, decide_eq_true_eq] at hturn
    exact ⟨hturn.2.1, fun hask => h.not_pending (hturn.2.2.resolve_left (not_not.mpr hask))⟩

theorem State.Below.put {i : Nat} {task : Task} (h : s.Below n) (hi : i < n) :
    (s.put i task).Below n := by
  intro j hj
  have hne : j ≠ i := by omega
  exact (Function.update_of_ne hne _ _).trans (h j hj)

theorem State.Below.step (h : s.Below n) (hturn : turnBelow n s e = true)
    (hstep : Step s e t) : t.Below n := by
  cases e with
  | tick clock =>
    rw [Step, next] at hstep
    split at hstep
    · cases hstep
      exact h
    · cases hstep
  | check i | peek i | fail i =>
    rw [Step, next] at hstep
    split at hstep
    · cases hstep
      exact h.put (of_decide_eq_true hturn)
    · cases hstep
  | compare i right =>
    have hi : i < n := of_decide_eq_true (Bool.and_eq_true_iff.mp hturn).1
    rw [Step, next] at hstep
    split at hstep
    · cases hstep
      split
      · exact h.put hi
      · exact h.put hi
    · cases hstep
  | lock i =>
    have hi : i < n := of_decide_eq_true (Bool.and_eq_true_iff.mp hturn).1
    rw [Step, next] at hstep
    split at hstep
    · next c _ =>
      cases hstep
      have htook : (s.took c).Below n := h
      rw [State.locked]
      dsimp only
      split
      · exact htook.put hi
      · exact htook.put hi
      · exact htook.put hi
      · exact htook.put hi
    · cases hstep

/-- A run of the first tasks that can be computed is a run in turn. -/
theorem run_nextBelow {es : List Event} (h : s.Below n) (hrun : es.foldlM (nextBelow n) s = some t) :
    Run TurnStep s es t := by
  induction es generalizing s with
  | nil =>
    obtain rfl : s = t := Option.some.inj hrun
    exact .nil s
  | cons e es ih =>
    rw [List.foldlM_cons] at hrun
    obtain ⟨u, hu, hrest⟩ := Option.bind_eq_some_iff.mp hrun
    rw [nextBelow] at hu
    split at hu
    · next hturn => exact .cons ⟨hu, h.inTurn hturn⟩ (ih (h.step hturn hu) hrest)
    · cases hu

end computed

/-- Two wrong current passwords of one account, one after the other, and two logins of another
meanwhile. -/
def guessesInTurn : List Event :=
  [.peek 0 "password:1", .lock 0, .check 1 "login:ann", .lock 1, .compare 0 false, .tick 5, .fail 0,
    .check 2 "login:ann", .lock 0, .lock 2, .peek 1 "password:1", .lock 1, .compare 1 false, .fail 1,
    .lock 1]

theorem guesses_stay_limited_inTurn : ∃ s, Run TurnStep start guessesInTurn s ∧
    passedIn s.past "password:1" 0 = 2 ∧ ∀ bucket w, passedIn s.past bucket w ≤ authRateMax := by
  have hcount : (guessesInTurn.foldlM (nextBelow 3) start).map
      (fun s => passedIn s.past "password:1" 0) = some 2 := by decide +kernel
  obtain ⟨s, hs, hpassed⟩ := Option.map_eq_some_iff.mp hcount
  have hrun : Run TurnStep start guessesInTurn s := run_nextBelow (fun _ _ => rfl) hs
  exact ⟨s, hrun, hpassed, (guesses_stay_limited guessesInTurn s hrun).1⟩

/-- Twenty-one current passwords peek before one of them is counted. -/
def parallelGuesses : List Event :=
  (List.range 21).flatMap (fun i => [.peek i "password:1", .lock i]) ++
    (List.range 21).map fun i => .compare i false

/-- A login reads the clock before nineteen others and takes the lock after them; twenty more come
when only its own hit has left the window. -/
def lateLogin : List Event :=
  [.check 99 "password:1", .tick 1] ++
    (List.range 19).flatMap (fun i => [.check i "password:1", .lock i]) ++
    [.lock 99, .tick (1 + authRateWindow)] ++
    (List.range 20).flatMap fun i => [.check i "password:1", .lock i]

theorem guesses_past_the_limit :
    (∃ s, Run Step start parallelGuesses s ∧ passedIn s.past "password:1" 0 = 21) ∧
      ∃ s, Run Step start lateLogin s ∧ passedIn s.past "password:1" 1 = 39 := by
  have hparallel : (parallelGuesses.foldlM next start).map
      (fun s => passedIn s.past "password:1" 0) = some 21 := by decide +kernel
  have hlate : (lateLogin.foldlM next start).map
      (fun s => passedIn s.past "password:1" 1) = some 39 := by decide +kernel
  obtain ⟨s, hs, hcount⟩ := Option.map_eq_some_iff.mp hparallel
  obtain ⟨t, ht, hcount'⟩ := Option.map_eq_some_iff.mp hlate
  exact ⟨⟨s, run_of_foldlM hs, hcount⟩, t, run_of_foldlM ht, hcount'⟩

end MessageCrate.RateLimits

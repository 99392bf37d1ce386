import MessageCrate.Server.RateLimits

/- The wait that a refused attempt is told.

   1. `Sound.after`, `recent_after_ne`: what calls leave, and what calls on other buckets leave of
      one bucket.
   2. `refused_iff`: an attempt is refused just when the window holds the most hits it may.
   3. `stated_wait`: the wait is never zero and never too long, and it is long enough just when the
      bucket is no longer full a second after the refusal: the wait is the rest of the window cut
      to whole seconds, and a hit as old as the window is wide is still inside it. -/
namespace MessageCrate.RateLimits
open Window

section
variable {limits : AuthRateLimits} {now later t : Nat} {bucket : String} {c : Call}
  {calls : List Call}

/-- Calls take the lock in the order in which they read the clock, from `now` to `later`. -/
def InOrder : Nat → List Call → Nat → Prop
  | now, [], later => now ≤ later
  | now, c :: calls, later => now ≤ c.now ∧ InOrder c.now calls later

instance InOrder.decidable : ∀ now calls later, Decidable (InOrder now calls later)
  | now, [], later => inferInstanceAs (Decidable (now ≤ later))
  | now, c :: calls, later =>
    have := InOrder.decidable c.now calls later
    inferInstanceAs (Decidable (now ≤ c.now ∧ InOrder c.now calls later))

theorem InOrder.le (h : InOrder now calls later) : now ≤ later := by
  induction calls generalizing now with
  | nil => exact h
  | cons c calls ih => exact le_trans h.1 (ih h.2)

theorem Sound.after (hs : Sound now limits) (h : InOrder now calls later) :
    Sound later (after limits calls) := by
  induction calls generalizing now limits with
  | nil => exact hs.mono h
  | cons c calls ih => exact ih (hs.respond h.1) h.2

/-- Calls on other buckets leave what a later call sees of this one. -/
theorem recent_after_ne (hs : Sound now limits) (h : InOrder now calls later)
    (hne : ∀ c ∈ calls, bucket ≠ c.bucket) (hle : later ≤ t) :
    recent (RateLimits.after limits calls) bucket t = recent limits bucket t := by
  induction calls generalizing now limits with
  | nil => rfl
  | cons c calls ih =>
    obtain ⟨hfirst, hrest⟩ := List.forall_mem_cons.mp hne
    have hstep := ih (hs.respond h.1) h.2 hrest
    rw [RateLimits.after, List.foldl_cons]
    exact hstep.trans (recent_respond_ne hs hfirst (le_trans h.2.le hle))

/-! Refusals. -/

theorem refuseWhenFull_eq_ok {hits : List Nat} :
    refuseWhenFull hits now = .ok () ↔ hits.length < authRateMax := by
  rw [refuseWhenFull]
  split
  · next hfull => simpa using hfull
  · next hroom => simpa using hroom

/-- The wait is what is left of the window of the oldest hit. -/
theorem refuseWhenFull_eq_error {hits : List Nat} {r : Nat} :
    refuseWhenFull hits now = .error ⟨r⟩ ↔ authRateMax ≤ hits.length ∧
      r = max ((authRateWindow - (now - hits.head?.getD now)) / second) 1 := by
  rw [refuseWhenFull]
  split
  · next hfull => simp [hfull, eq_comm]
  · next hroom => simp [hroom]

/-- **An attempt is refused just when the window is full.** -/
theorem refused_iff (hs : Sound now limits) (hask : c.ask ≠ .count) :
    (respond limits c).1 ≠ .ok () ↔ authRateMax ≤ (recent limits c.bucket c.now).length := by
  have hact : ∀ hits, (act c.ask c.now hits).1 = refuseWhenFull hits c.now := by
    intro hits
    cases hcase : c.ask with
    | check =>
      rw [act]
      split
      · next e he => exact he.symm
      · next hok => exact hok.symm
    | peek => rfl
    | count => exact absurd hcase hask
  rw [respond_answer hs, hact, ne_eq, refuseWhenFull_eq_ok, not_lt]

/-- A refusal takes nothing out of the window and puts nothing in it. -/
theorem act_of_error {ask : Ask} {hits : List Nat} {e : RateLimited}
    (h : (act ask now hits).1 = .error e) :
    refuseWhenFull hits now = .error e ∧ (act ask now hits).2 = hits := by
  cases ask with
  | check =>
    rw [act] at h ⊢
    split at h
    · next e' he =>
      cases h
      exact ⟨he, rfl⟩
    · cases h
  | peek => exact ⟨h, rfl⟩
  | count => cases h

/-- What is told at `now` of hits inside the window: they all stay for a second less than the wait,
and after it the window is full just when it is full a second on. -/
theorem told_wait {hits : List Nat} {r : Nat} (hordered : Ordered now hits)
    (hlive : live authRateWindow now hits = hits) (h : refuseWhenFull hits now = .error ⟨r⟩) :
    1 ≤ r ∧ (∀ later, now ≤ later → later < now + (r - 1) * second →
      live authRateWindow later hits = hits) ∧
    (authRateMax ≤ (live authRateWindow (now + r * second) hits).length ↔
      authRateMax ≤ (live authRateWindow (now + second) hits).length) := by
  obtain ⟨hfull, hr⟩ := refuseWhenFull_eq_error.mp h
  obtain ⟨oldest, rest, rfl⟩ : ∃ oldest rest, hits = oldest :: rest :=
    List.exists_cons_of_length_pos (lt_of_lt_of_le (by decide) hfull)
  have hpast := hordered.past oldest List.mem_cons_self
  have hinside : now - oldest ≤ authRateWindow :=
    ((mem_live hordered.sorted).mp (by rw [hlive]; exact List.mem_cons_self)).2
  have hself : ∀ later, later - oldest ≤ authRateWindow →
      live authRateWindow later (oldest :: rest) = oldest :: rest := fun later hlater =>
    live_eq_self hlater
  simp only [List.head?_cons, Option.getD_some] at hr
  have hpos : 1 ≤ r := by
    rw [hr]
    exact Nat.le_max_right _ _
  refine ⟨hpos, ?_, ?_⟩
  · intro later hle hlater
    apply hself
    have hfloor := Nat.div_mul_le_self (authRateWindow - (now - oldest)) second
    rcases Nat.lt_or_ge 1 r with hlong | hshort
    · have hdiv : r = (authRateWindow - (now - oldest)) / second := by omega
      have hcut : (r - 1) * second ≤ r * second := Nat.mul_le_mul_right _ (Nat.sub_le _ _)
      rw [hdiv] at hcut hlater
      omega
    · have hone : r - 1 = 0 := by omega
      rw [hone, Nat.zero_mul] at hlater
      omega
  · rcases Nat.lt_or_ge 1 r with hlong | hshort
    · -- the wait is cut to whole seconds, so the oldest hit outlives it
      have hdiv : r = (authRateWindow - (now - oldest)) / second := by omega
      have hfloor := Nat.div_mul_le_self (authRateWindow - (now - oldest)) second
      rw [← hdiv] at hfloor
      have hsecond : second ≤ r * second := Nat.le_mul_of_pos_left _ hpos
      rw [hself _ (by omega), hself _ (by omega)]
    · have hone : r = 1 := by omega
      rw [hone, Nat.one_mul]

/-- The answer to a later call on the bucket of `c`, after `c` and then calls on other buckets. -/
def nextAnswer (limits : AuthRateLimits) (c : Call) (others : List Call) (ask : Ask) (later : Nat) :
    Answer :=
  (respond (RateLimits.after (respond limits c).2 others) ⟨ask, c.bucket, later⟩).1

/-- The calls between are on other buckets and in order. -/
def Between (c : Call) (others : List Call) (later : Nat) : Prop :=
  InOrder c.now others later ∧ ∀ o ∈ others, c.bucket ≠ o.bucket

theorem nextAnswer_ne_ok {r : Nat} {others : List Call} {ask : Ask} (hs : Sound now limits)
    (hle : now ≤ c.now) (href : (respond limits c).1 = .error ⟨r⟩) (hb : Between c others later)
    (hask : ask ≠ .count) : nextAnswer limits c others ask later ≠ .ok () ↔
      authRateMax ≤ (recent limits c.bucket later).length := by
  have hafter := (hs.respond hle).after hb.1
  rw [nextAnswer, refused_iff hafter hask]
  rw [recent_after_ne (hs.respond hle) hb.1 hb.2 (Nat.le_refl _)]
  rw [respond_answer hs] at href
  have hsame : recent (respond limits c).2 c.bucket later = recent limits c.bucket later := by
    rw [recent, hitsOf_respond_self hs, (act_of_error href).2, recent, live_live hb.1.le, ← recent]
  rw [hsame]

/-- **A stated wait**, for every call that is refused: it is at least a second; the next attempt on
the bucket is still refused up to a second before its end; and from its end on every attempt is let
through just when a second after the refusal the window is no longer full. -/
theorem stated_wait (calls : List Call) (c : Call) (r : Nat) (hcalls : InOrder 0 calls c.now)
    (href : (respond (RateLimits.after noHits calls) c).1 = .error ⟨r⟩) :
    1 ≤ r ∧
    (∀ others ask later, ask ≠ .count → Between c others later → later < c.now + (r - 1) * second →
      nextAnswer (RateLimits.after noHits calls) c others ask later ≠ .ok ()) ∧
    ((∀ others ask later, Between c others later → c.now + r * second ≤ later →
        nextAnswer (RateLimits.after noHits calls) c others ask later = .ok ()) ↔
      (recent (RateLimits.after noHits calls) c.bucket (c.now + second)).length < authRateMax) := by
  have hs : Sound c.now (RateLimits.after noHits calls) := sound_noHits.after hcalls
  generalize RateLimits.after noHits calls = limits at hs href
  have hhits : Ordered c.now (recent limits c.bucket c.now) := (hs.ordered c.bucket).live
  have hlive : live authRateWindow c.now (recent limits c.bucket c.now) =
      recent limits c.bucket c.now := live_live (Nat.le_refl _)
  have htold := (act_of_error ((respond_answer hs).symm.trans href)).1
  obtain ⟨hpos, hearly, hlate⟩ := told_wait hhits hlive htold
  have hon : ∀ later, c.now ≤ later → live authRateWindow later (recent limits c.bucket c.now) =
      recent limits c.bucket later := fun later hle => live_live hle
  have hfull := (refuseWhenFull_eq_error.mp htold).1
  rw [hon _ (by omega), hon _ (by omega)] at hlate
  refine ⟨hpos, ?_, ?_⟩
  · intro others ask later hask hb hlater
    rw [nextAnswer_ne_ok hs (Nat.le_refl _) href hb hask, ← hon later hb.1.le,
      hearly later hb.1.le hlater]
    exact hfull
  · rw [← not_le, ← hlate]
    constructor
    · intro hall hstill
      have hb : Between c [] (c.now + r * second) := ⟨Nat.le_add_right _ _, by simp⟩
      exact (nextAnswer_ne_ok hs (Nat.le_refl _) href hb (by decide)).mpr hstill
        (hall [] .check _ hb (Nat.le_refl _))
    · intro hroom others ask later hb hlater
      by_cases hask : ask = .count
      · rw [hask, nextAnswer, respond_answer ((hs.respond (Nat.le_refl _)).after hb.1)]
        rfl
      · by_contra hrefused
        have hfullLater := (nextAnswer_ne_ok hs (Nat.le_refl _) href hb hask).mp hrefused
        have hshrinks : (recent limits c.bucket later).length ≤
            (recent limits c.bucket (c.now + r * second)).length := live_length_le hlater
        omega

end

/-- Twenty attempts at once and the one after. -/
def registrations : List Call := List.replicate 20 ⟨.check, "register", 0⟩

theorem stated_wait_register :
    1 ≤ 60 ∧
    (∀ others ask later, ask ≠ .count → Between ⟨.check, "register", 0⟩ others later →
      later < 0 + (60 - 1) * second →
      nextAnswer (RateLimits.after noHits registrations) ⟨.check, "register", 0⟩ others ask later ≠
        .ok ()) ∧
    ((∀ others ask later, Between ⟨.check, "register", 0⟩ others later → 0 + 60 * second ≤ later →
        nextAnswer (RateLimits.after noHits registrations) ⟨.check, "register", 0⟩ others ask later =
          .ok ()) ↔
      (recent (RateLimits.after noHits registrations) "register" (0 + second)).length < authRateMax) :=
  stated_wait registrations ⟨.check, "register", 0⟩ 60 (by decide) (by decide +kernel)

/-- An attempt that waits the minute that it was told is refused again. -/
theorem stated_wait_too_short :
    (respond (RateLimits.after noHits registrations) ⟨.check, "register", 0⟩).1 = .error ⟨60⟩ ∧
      nextAnswer (RateLimits.after noHits registrations) ⟨.check, "register", 0⟩ [] .check (60 * second) =
        .error ⟨1⟩ := by
  constructor <;> decide +kernel

end MessageCrate.RateLimits

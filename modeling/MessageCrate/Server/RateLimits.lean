import Mathlib.Logic.Function.Basic
import MessageCrate.Lib.Window

/- The rate limiter on attempts to present a credential (`credentials.rs`).

   Correspondence (Rust ↔ Lean):
     `AuthRateLimits` under its lock                  ↔ `AuthRateLimits`
     `with_bucket`                                    ↔ `withBucket`
     `refuse_when_full`                               ↔ `refuseWhenFull`
     `check_auth_rate_limit_at`                       ↔ `checkAuthRateLimitAt`
     `refuse_when_rate_limited`, `count_auth_failure` ↔ `refuseWhenRateLimited`, `countAuthFailure`

   An `Instant` is a number of nanoseconds; `duration_since` and `saturating_sub` stop at zero, as
   subtraction does here. Each call holds the lock to its end and takes the clock as an argument.
   The lock is never poisoned, since nothing under it panics. -/
namespace MessageCrate.RateLimits
open Window

def second : Nat := 1000000000
def authRateWindow : Nat := 60 * second
def authRateMax : Nat := 20

structure RateLimited where
  retryAfterSecs : Nat
  deriving DecidableEq

/-- The hits counted in each bucket, the oldest first. -/
abbrev AuthRateLimits := String → Option (List Nat)

abbrev Answer := Except RateLimited Unit

def noHits : AuthRateLimits := fun _ => none

/-- The buckets whose newest hit is inside the window. -/
def retainRecent (limits : AuthRateLimits) (now : Nat) : AuthRateLimits := fun bucket =>
  (limits bucket).filter fun hits => hits.getLast?.any fun newest => now - newest ≤ authRateWindow

/-- Run `f` on the hits of a bucket that are inside the window. -/
def withBucket (limits : AuthRateLimits) (bucket : String) (now : Nat)
    (f : List Nat → Answer × List Nat) : Answer × AuthRateLimits :=
  let kept := retainRecent limits now
  let (result, entry) := f (live authRateWindow now ((kept bucket).getD []))
  (result, Function.update kept bucket (if entry = [] then none else some entry))

def refuseWhenFull (hits : List Nat) (now : Nat) : Answer :=
  if authRateMax ≤ hits.length then
    let oldest := hits.head?.getD now
    let remaining := authRateWindow - (now - oldest)
    .error ⟨max (remaining / second) 1⟩
  else .ok ()

/-- What a call asks of the limiter. -/
inductive Ask
  /-- An attempt: refused, or counted. -/
  | check
  /-- A look before a password is compared. -/
  | peek
  /-- A password that was wrong. -/
  | count
  deriving DecidableEq

def checkAuthRateLimitAt (limits : AuthRateLimits) (bucket : String) (now : Nat) :
    Answer × AuthRateLimits :=
  withBucket limits bucket now fun hits =>
    match refuseWhenFull hits now with
    | .error e => (.error e, hits)
    | .ok () => (.ok (), hits ++ [now])

def refuseWhenRateLimited (limits : AuthRateLimits) (bucket : String) (now : Nat) :
    Answer × AuthRateLimits :=
  withBucket limits bucket now fun hits => (refuseWhenFull hits now, hits)

def countAuthFailure (limits : AuthRateLimits) (bucket : String) (now : Nat) :
    Answer × AuthRateLimits :=
  withBucket limits bucket now fun hits => (.ok (), hits ++ [now])

/-- A call with the instant that it read. -/
structure Call where
  ask : Ask
  bucket : String
  now : Nat

def respond (limits : AuthRateLimits) (c : Call) : Answer × AuthRateLimits :=
  match c.ask with
  | .check => checkAuthRateLimitAt limits c.bucket c.now
  | .peek => refuseWhenRateLimited limits c.bucket c.now
  | .count => countAuthFailure limits c.bucket c.now

/-- The limiter after one call and another. -/
def after (limits : AuthRateLimits) (calls : List Call) : AuthRateLimits :=
  calls.foldl (fun l c => (respond l c).2) limits

/-! One call. -/

def hitsOf (limits : AuthRateLimits) (bucket : String) : List Nat := (limits bucket).getD []

/-- The hits of a bucket that are inside the window that ends at `now`. -/
def recent (limits : AuthRateLimits) (bucket : String) (now : Nat) : List Nat :=
  live authRateWindow now (hitsOf limits bucket)

/-- A limiter as calls up to `now` leave it: no empty bucket, each in order. -/
structure Sound (now : Nat) (limits : AuthRateLimits) : Prop where
  nonempty : ∀ bucket, limits bucket ≠ some []
  ordered : ∀ bucket, Ordered now (hitsOf limits bucket)

section
variable {limits : AuthRateLimits} {now later : Nat} {bucket other : String} {c : Call}

theorem sound_noHits : Sound now noHits where
  nonempty := by
    intro bucket h
    cases h
  ordered := fun _ => Ordered.nil

theorem Sound.mono (h : Sound now limits) (hle : now ≤ later) : Sound later limits :=
  ⟨h.nonempty, fun bucket => (h.ordered bucket).mono hle⟩

/-- A bucket that is forgotten had no hit inside the window. -/
theorem hitsOf_retainRecent (h : Sound now limits) (bucket : String) (later : Nat) :
    (recent limits bucket later = [] ∧ hitsOf (retainRecent limits later) bucket = []) ∨
      (recent limits bucket later ≠ [] ∧
        hitsOf (retainRecent limits later) bucket = hitsOf limits bucket) := by
  have hnewest := live_eq_nil_iff_newest authRateWindow later (h.ordered bucket).sorted
  rw [← recent] at hnewest
  rw [ne_eq, hnewest, hitsOf, hitsOf, retainRecent]
  cases hhits : limits bucket with
  | none => simp
  | some hits =>
    have hne : hits ≠ [] := by
      rintro rfl
      exact h.nonempty bucket hhits
    obtain ⟨front, last, rfl⟩ := (List.eq_nil_or_concat' hits).resolve_left hne
    by_cases hin : later - last ≤ authRateWindow
    · refine .inr ⟨?_, ?_⟩
      · simpa using hin
      · rw [Option.filter_some_pos (by simpa using hin)]
    · refine .inl ⟨?_, ?_⟩
      · intro newest hnewest
        obtain rfl : last = newest := by simpa using hnewest
        exact not_le.mp hin
      · rw [Option.filter_some_neg (by simpa using hin)]
        rfl

theorem live_hitsOf_retainRecent (h : Sound now limits) (hle : later ≤ t) :
    live authRateWindow t (hitsOf (retainRecent limits later) bucket) = recent limits bucket t := by
  rcases hitsOf_retainRecent h bucket later with ⟨hnone, hkept⟩ | ⟨-, hkept⟩
  · rw [hkept, live_nil, recent, ← live_live hle, ← recent, hnone, live_nil]
  · rw [hkept, recent]

/-- What a call does with the hits that are inside the window. -/
def act (ask : Ask) (now : Nat) (hits : List Nat) : Answer × List Nat :=
  match ask with
  | .check =>
    match refuseWhenFull hits now with
    | .error e => (.error e, hits)
    | .ok () => (.ok (), hits ++ [now])
  | .peek => (refuseWhenFull hits now, hits)
  | .count => (.ok (), hits ++ [now])

theorem respond_eq : respond limits c = withBucket limits c.bucket c.now (act c.ask c.now) := by
  obtain ⟨ask, bucket, now⟩ := c
  cases ask <;> rfl

/-- A call leaves the hits it found, or puts its own last. -/
theorem act_hits (ask : Ask) (now : Nat) (hits : List Nat) :
    (act ask now hits).2 = hits ∨ (act ask now hits).2 = hits ++ [now] := by
  cases ask with
  | check =>
    rw [act]
    split
    · exact .inl rfl
    · exact .inr rfl
  | peek => exact .inl rfl
  | count => exact .inr rfl

theorem respond_answer (h : Sound now limits) :
    (respond limits c).1 = (act c.ask c.now (recent limits c.bucket c.now)).1 := by
  rw [respond_eq, withBucket, ← hitsOf, live_hitsOf_retainRecent h (Nat.le_refl _)]

theorem respond_limits (h : Sound now limits) : (respond limits c).2 =
    Function.update (retainRecent limits c.now) c.bucket
      (if (act c.ask c.now (recent limits c.bucket c.now)).2 = [] then none
        else some (act c.ask c.now (recent limits c.bucket c.now)).2) := by
  rw [respond_eq, withBucket, ← hitsOf, live_hitsOf_retainRecent h (Nat.le_refl _)]

/-- The call's own bucket. -/
theorem hitsOf_respond_self (h : Sound now limits) : hitsOf (respond limits c).2 c.bucket =
    (act c.ask c.now (recent limits c.bucket c.now)).2 := by
  rw [respond_limits h, hitsOf, Function.update_self]
  split
  · next hnil => rw [hnil]; rfl
  · rfl

/-- Any other bucket. -/
theorem respond_ne (h : Sound now limits) (hne : other ≠ c.bucket) :
    (respond limits c).2 other = retainRecent limits c.now other := by
  rw [respond_limits h, Function.update_of_ne hne]

theorem hitsOf_respond_ne (h : Sound now limits) (hne : other ≠ c.bucket) :
    hitsOf (respond limits c).2 other = hitsOf (retainRecent limits c.now) other := by
  rw [hitsOf, respond_ne h hne, hitsOf]

/-- **A call changes no other bucket, as far as a later call can see.** -/
theorem recent_respond_ne (h : Sound now limits) (hne : other ≠ c.bucket) (hle : c.now ≤ t) :
    recent (respond limits c).2 other t = recent limits other t := by
  rw [recent, hitsOf_respond_ne h hne, live_hitsOf_retainRecent h hle]

theorem Sound.respond (h : Sound now limits) (hle : now ≤ c.now) :
    Sound c.now (respond limits c).2 where
  nonempty := by
    intro bucket
    by_cases hown : bucket = c.bucket
    · rw [hown, respond_limits h, Function.update_self]
      split
      · intro hnone
        cases hnone
      · next hentry => exact fun hsome => hentry (Option.some.inj hsome)
    · rw [respond_ne h hown, retainRecent]
      intro hsome
      exact h.nonempty bucket (Option.filter_eq_some_iff.mp hsome).1
  ordered := by
    intro bucket
    by_cases hown : bucket = c.bucket
    · have hrecent : Ordered c.now (recent limits c.bucket c.now) :=
        ((h.ordered c.bucket).mono hle).live
      rw [hown, hitsOf_respond_self h]
      rcases act_hits c.ask c.now (recent limits c.bucket c.now) with hsame | hput
      · rw [hsame]
        exact hrecent
      · rw [hput]
        exact hrecent.snoc
    · rw [hitsOf_respond_ne h hown]
      rcases hitsOf_retainRecent h bucket c.now with ⟨-, hkept⟩ | ⟨-, hkept⟩
      · rw [hkept]
        exact Ordered.nil
      · rw [hkept]
        exact (h.ordered bucket).mono hle

/-- **What a call leaves in the map has a hit inside the window that ends at the call.** -/
theorem recent_of_mem_respond (h : Sound now limits) (hle : now ≤ c.now) {hits : List Nat}
    (hmem : (RateLimits.respond limits c).2 bucket = some hits) :
    ∃ hit ∈ hits, hit ≤ c.now ∧ c.now ≤ hit + authRateWindow := by
  have hne : hits ≠ [] := by
    rintro rfl
    exact (h.respond hle).nonempty bucket hmem
  have hhits : hitsOf (RateLimits.respond limits c).2 bucket = hits := by
    rw [hitsOf, hmem]
    rfl
  have hbefore := (h.ordered bucket).mono hle
  have hinside : ∀ hit ∈ recent limits bucket c.now, hit ≤ c.now ∧ c.now ≤ hit + authRateWindow := by
    intro hit hhit
    obtain ⟨hmem, hage⟩ := (mem_live hbefore.sorted).mp hhit
    exact ⟨hbefore.past hit hmem, by omega⟩
  by_cases hown : bucket = c.bucket
  · -- the call's own bucket holds hits inside the window only
    obtain ⟨hit, hhit⟩ := List.exists_mem_of_ne_nil _ hne
    refine ⟨hit, hhit, ?_⟩
    rw [← hhits, hown, hitsOf_respond_self h, ← hown] at hhit
    rcases act_hits c.ask c.now (recent limits bucket c.now) with hsame | hput
    · rw [hsame] at hhit
      exact hinside hit hhit
    · rw [hput, List.mem_append, List.mem_singleton] at hhit
      rcases hhit with hhit | rfl
      · exact hinside hit hhit
      · exact ⟨Nat.le_refl _, Nat.le_add_right _ _⟩
  · rw [hitsOf_respond_ne h hown] at hhits
    rcases hitsOf_retainRecent h bucket c.now with ⟨-, hkept⟩ | ⟨hsome, hkept⟩
    · rw [hkept] at hhits
      exact absurd hhits.symm hne
    · obtain ⟨hit, hhit⟩ := List.exists_mem_of_ne_nil _ hsome
      refine ⟨hit, ?_, hinside hit hhit⟩
      rw [← hhits, hkept]
      exact live_sublist.subset hhit

end

end MessageCrate.RateLimits

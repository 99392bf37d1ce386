import Mathlib

/- Decoders that walk a cursor over bytes.

   A decoder is given all the bytes and the index of the next, and moves the index on. It ends
   with a value, with an error that names a shape and where it broke, or in a panic where it
   slices outside the bytes.

   1. `Safe`: from a cursor inside the bytes there is no panic, and the cursor stays inside and
      does not move back.
   2. `Local`: a value is settled by the bytes that the cursor moved over, so other bytes with
      those among them give the same.
   3. `Good` decoders are both, and so is what is put together of them (`Good.bind`). A decoder
      that only peeks is not local; one that peeks and then moves is (`Eats.peek_bind`). -/
namespace Wire

/-- A shape that was broken, and where. -/
structure Error where
  offset : Nat
  what : String
  deriving DecidableEq

inductive Fail
  | shape (e : Error)
  | panic
  deriving DecidableEq

def Decoder (α : Type) := List UInt8 → Nat → Except Fail (α × Nat)

variable {α β : Type}

instance : Monad Decoder where
  pure a := fun _ pos => .ok (a, pos)
  bind d f := fun data pos =>
    match d data pos with
    | .ok (a, q) => f a data q
    | .error e => .error e

/-- The next byte without moving. -/
def peek : Decoder (Option UInt8) := fun data pos => .ok (data[pos]?, pos)

def position : Decoder Nat := fun _ pos => .ok (pos, pos)

def size : Decoder Nat := fun data pos => .ok (data.length, pos)

def seek (p : Nat) : Decoder Unit := fun _ _ => .ok ((), p)

def failAt (offset : Nat) (what : String) : Decoder α := fun _ _ => .error (.shape ⟨offset, what⟩)

def fail (what : String) : Decoder α := fun _ pos => .error (.shape ⟨pos, what⟩)

def nextByte (what : String) : Decoder UInt8 := fun data pos =>
  match data[pos]? with
  | some b => .ok (b, pos + 1)
  | none => .error (.shape ⟨pos, what⟩)

/-- `data[a..b]`. -/
def slice (data : List UInt8) (a b : Nat) : Except Fail (List UInt8) :=
  if a ≤ b ∧ b ≤ data.length then .ok ((data.drop a).take (b - a)) else .error .panic

/-- `data[a..]`. -/
def sliceFrom (data : List UInt8) (a : Nat) : Except Fail (List UInt8) :=
  if a ≤ data.length then .ok (data.drop a) else .error .panic

/-- The next `n` bytes. -/
def take (n : Nat) (what : String) : Decoder (List UInt8) := fun data pos =>
  if data.length - pos < n then .error (.shape ⟨pos, what⟩)
  else
    match slice data pos (pos + n) with
    | .ok s => .ok (s, pos + n)
    | .error e => .error e

/-- A loop: each turn goes on with a state or ends with a result. -/
def loop {σ : Type} (turn : σ → Decoder (σ ⊕ β)) : Nat → σ → Decoder β
  | 0, _ => fun _ _ => .error .panic
  | turns + 1, s => do
    match ← turn s with
    | .inl s => loop turn turns s
    | .inr b => return b

/-- The loop with a turn for each byte and one more. Out of turns is a panic. -/
def whileLoop {σ : Type} (turn : σ → Decoder (σ ⊕ β)) (s : σ) : Decoder β :=
  fun data pos => loop turn (data.length + 1) s data pos

/-- A run that does not panic, and what holds of its result. -/
def Ends (P : β → Prop) : Except Fail β → Prop
  | .ok r => P r
  | .error (.shape _) => True
  | .error .panic => False

def Safe (d : Decoder α) : Prop :=
  ∀ data pos, pos ≤ data.length →
    Ends (fun r => pos ≤ r.2 ∧ r.2 ≤ data.length) (d data pos)

/-- The same bytes from `a` to `b`. -/
def SameBytes (data data' : List UInt8) (a b : Nat) : Prop :=
  a ≤ data'.length ∧ ∀ i, a ≤ i → i < b → data'[i]? = data[i]?

def Local (d : Decoder α) : Prop :=
  ∀ data data' pos v q, pos ≤ data.length → d data pos = .ok (v, q) → SameBytes data data' pos q →
    d data' pos = .ok (v, q)

structure Good (d : Decoder α) : Prop where
  safe : Safe d
  loc : Local d

/-- A good decoder that moves its cursor on. -/
structure Eats (d : Decoder α) : Prop extends Good d where
  moves : ∀ data pos v q, pos ≤ data.length → d data pos = .ok (v, q) → pos < q

section run
variable {d : Decoder α} {f : α → Decoder β} {data data' : List UInt8} {pos q : Nat}

theorem bind_apply (d : Decoder α) (f : α → Decoder β) :
    (d >>= f) data pos =
      match d data pos with
      | .ok (a, q) => f a data q
      | .error e => .error e := rfl

theorem bind_eq_ok {r : β × Nat} :
    (d >>= f) data pos = .ok r ↔ ∃ a q, d data pos = .ok (a, q) ∧ f a data q = .ok r := by
  rw [bind_apply]
  cases hd : d data pos with
  | ok s =>
    constructor
    · exact fun h => ⟨s.1, s.2, rfl, h⟩
    · rintro ⟨a, q, hs, h⟩
      cases hs
      exact h
  | error e =>
    constructor
    · intro h
      cases h
    · rintro ⟨a, q, hs, -⟩
      cases hs

@[simp]
theorem pure_apply (a : α) : (pure a : Decoder α) data pos = .ok (a, pos) := rfl

theorem bind_of_ok {a : α} (h : d data pos = .ok (a, q)) : (d >>= f) data pos = f a data q := by
  rw [bind_apply, h]

/-! Bytes that are the same. -/

theorem SameBytes.mono {a b b' : Nat} (h : SameBytes data data' a b) (hb : b' ≤ b) :
    SameBytes data data' a b' :=
  ⟨h.1, fun i ha hi => h.2 i ha (by omega)⟩

theorem SameBytes.reaches {a b : Nat} (h : SameBytes data data' a b) (hab : a ≤ b)
    (hb : b ≤ data.length) : b ≤ data'.length := by
  rcases Nat.lt_or_ge a b with hlt | hge
  · have hlast := h.2 (b - 1) (by omega) (by omega)
    rw [List.getElem?_eq_getElem (by omega : b - 1 < data.length)] at hlast
    have := (List.getElem?_eq_some_iff.mp hlast).1
    omega
  · have := h.1
    omega

theorem SameBytes.from {a b c : Nat} (h : SameBytes data data' a b) (hac : a ≤ c) (hcb : c ≤ b)
    (hb : b ≤ data.length) : SameBytes data data' c b :=
  ⟨(h.mono hcb).reaches hac (by omega), fun i hi hib => h.2 i (by omega) hib⟩

theorem sameBytes_take (data : List UInt8) {a b : Nat} (hab : a ≤ b) (hb : b ≤ data.length) :
    SameBytes data (data.take b) a b := by
  refine ⟨by rw [List.length_take]; omega, ?_⟩
  intro i _ hi
  exact List.getElem?_take_of_lt hi

theorem SameBytes.symm {a b : Nat} (h : SameBytes data data' a b) (ha : a ≤ data.length) :
    SameBytes data' data a b :=
  ⟨ha, fun i hai hib => (h.2 i hai hib).symm⟩

/-- Slices of the bytes that are the same are the same. -/
theorem SameBytes.slice {a b : Nat} (h : SameBytes data data' a b) :
    (data'.drop a).take (b - a) = (data.drop a).take (b - a) := by
  apply List.ext_getElem?
  intro i
  rw [List.getElem?_take, List.getElem?_take]
  split
  · next hi =>
    rw [List.getElem?_drop, List.getElem?_drop]
    exact h.2 (a + i) (by omega) (by omega)
  · rfl

/-! Safe decoders. -/

theorem Safe.ok {v : α} (h : Safe d) (hpos : pos ≤ data.length) (hd : d data pos = .ok (v, q)) :
    pos ≤ q ∧ q ≤ data.length := by
  have hends := h data pos hpos
  rwa [hd] at hends

theorem Ends.mono {P Q : β → Prop} (hPQ : ∀ r, P r → Q r) :
    ∀ {x : Except Fail β}, Ends P x → Ends Q x
  | .ok r, h => hPQ r h
  | .error (.shape _), _ => trivial
  | .error .panic, h => h

/-- A run goes on where the run before it ended. -/
theorem ends_bind {P : β × Nat → Prop} {Q : α × Nat → Prop} (hd : Ends Q (d data pos))
    (hf : ∀ a q, d data pos = .ok (a, q) → Q (a, q) → Ends P (f a data q)) :
    Ends P ((d >>= f) data pos) := by
  rw [bind_apply]
  cases hrun : d data pos with
  | ok r => exact hf r.1 r.2 hrun (by rwa [hrun] at hd)
  | error e =>
    rw [hrun] at hd
    cases e with
    | shape e => trivial
    | panic => exact hd

theorem Safe.bind (hd : Safe d) (hf : ∀ a, Safe (f a)) : Safe (d >>= f) := by
  intro data pos hpos
  apply ends_bind (hd data pos hpos)
  intro a q _ hq
  exact (hf a data q hq.2).mono fun r hr => ⟨Nat.le_trans hq.1 hr.1, hr.2⟩

/-! Good decoders. -/

namespace Good

theorem pure' (a : α) : Good (pure a : Decoder α) where
  safe := fun _ _ hpos => ⟨Nat.le_refl _, hpos⟩
  loc := by
    intro data data' pos v q _ h _
    obtain ⟨rfl, rfl⟩ : a = v ∧ pos = q := by simpa using h
    rfl

theorem bind (hd : Good d) (hf : ∀ a, Good (f a)) : Good (d >>= f) where
  safe := hd.safe.bind fun a => (hf a).safe
  loc := by
    intro data data' pos v q hpos h hsame
    obtain ⟨a, p, hrun, hrest⟩ := bind_eq_ok.mp h
    have hp := hd.safe.ok hpos hrun
    have hq := (hf a).safe.ok hp.2 hrest
    rw [bind_of_ok (hd.loc data data' pos a p hpos hrun (hsame.mono hq.1))]
    exact (hf a).loc data data' p v q hp.2 hrest (hsame.from hp.1 hq.1 hq.2)

theorem failAt (offset : Nat) (what : String) : Good (Wire.failAt offset what : Decoder α) where
  safe := fun _ _ _ => trivial
  loc := by
    intro data data' pos v q _ h _
    cases h

theorem fail (what : String) : Good (Wire.fail what : Decoder α) where
  safe := fun _ _ _ => trivial
  loc := by
    intro data data' pos v q _ h _
    cases h

theorem position : Good Wire.position where
  safe := fun _ _ hpos => ⟨Nat.le_refl _, hpos⟩
  loc := by
    intro data data' pos v q _ h _
    exact h

theorem nextByte (what : String) : Good (Wire.nextByte what) where
  safe := by
    intro data pos hpos
    rw [Wire.nextByte]
    split
    · next b hb =>
      have := (List.getElem?_eq_some_iff.mp hb).1
      exact ⟨Nat.le_succ _, this⟩
    · trivial
  loc := by
    intro data data' pos v q hpos h hsame
    rw [Wire.nextByte] at h ⊢
    split at h
    · next b hb =>
      cases h
      rw [hsame.2 pos (Nat.le_refl _) (Nat.lt_succ_self _), hb]
    · cases h

theorem take (n : Nat) (what : String) : Good (Wire.take n what) where
  safe := by
    intro data pos hpos
    rw [Wire.take]
    split
    · trivial
    · next hlong =>
      rw [slice, if_pos ⟨by omega, by omega⟩]
      exact ⟨Nat.le_add_right _ _, by show pos + n ≤ data.length; omega⟩
  loc := by
    intro data data' pos v q hpos h hsame
    rw [Wire.take] at h ⊢
    split at h
    · cases h
    · next hlong =>
      rw [slice, if_pos ⟨by omega, by omega⟩] at h
      cases h
      have hreach := hsame.reaches (Nat.le_add_right _ _) (by omega)
      rw [if_neg (by omega), slice, if_pos ⟨by omega, hreach⟩, hsame.slice]

end Good

namespace Eats

theorem failAt (offset : Nat) (what : String) : Eats (Wire.failAt offset what : Decoder α) where
  toGood := Good.failAt offset what
  moves := by
    intro data pos v q _ h
    cases h

theorem fail (what : String) : Eats (Wire.fail what : Decoder α) where
  toGood := Good.fail what
  moves := by
    intro data pos v q _ h
    cases h

theorem nextByte (what : String) : Eats (Wire.nextByte what) where
  toGood := Good.nextByte what
  moves := by
    intro data pos v q _ h
    rw [Wire.nextByte] at h
    split at h
    · cases h
      exact Nat.lt_succ_self pos
    · cases h

theorem bind (hd : Eats d) (hf : ∀ a, Good (f a)) : Eats (d >>= f) where
  toGood := hd.toGood.bind hf
  moves := by
    intro data pos v q hpos h
    obtain ⟨a, p, hrun, hrest⟩ := bind_eq_ok.mp h
    have hp := hd.safe.ok hpos hrun
    have hq := (hf a).safe.ok hp.2 hrest
    have := hd.moves data pos a p hpos hrun
    omega

theorem of_bind (hd : Good d) (hf : ∀ a, Eats (f a)) : Eats (d >>= f) where
  toGood := hd.bind fun a => (hf a).toGood
  moves := by
    intro data pos v q hpos h
    obtain ⟨a, p, hrun, hrest⟩ := bind_eq_ok.mp h
    have hp := hd.safe.ok hpos hrun
    have := (hf a).moves data p v q hp.2 hrest
    omega

/-- A choice by the next byte is local where every choice moves over it. -/
theorem peek_bind {f : Option UInt8 → Decoder β} (hf : ∀ o, Eats (f o)) : Eats (peek >>= f) where
  safe := by
    intro data pos hpos
    exact (hf data[pos]?).safe data pos hpos
  loc := by
    intro data data' pos v q hpos h hsame
    have hmove := (hf data[pos]?).moves data pos v q hpos h
    show f data'[pos]? data' pos = .ok (v, q)
    rw [hsame.2 pos (Nat.le_refl _) hmove]
    exact (hf data[pos]?).loc data data' pos v q hpos h hsame
  moves := by
    intro data pos v q hpos h
    exact (hf data[pos]?).moves data pos v q hpos h

end Eats

/-! Loops. -/

section loop
variable {σ : Type} {turn : σ → Decoder (σ ⊕ β)}

/-- Every turn but the last moves the cursor. -/
def Moves (turn : σ → Decoder (σ ⊕ β)) : Prop :=
  ∀ s data pos s' q, pos ≤ data.length → turn s data pos = .ok (.inl s', q) → pos < q

/-- A loop whose turns move the cursor ends: there are fewer bytes ahead at each turn. -/
theorem ends_loop (hsafe : ∀ s, Safe (turn s)) (hmoves : Moves turn) :
    ∀ (turns : Nat) (s : σ) {pos : Nat}, pos ≤ data.length → data.length - pos < turns →
      Ends (fun r => pos ≤ r.2 ∧ r.2 ≤ data.length) (loop turn turns s data pos)
  | 0, _, _, _, hturns => by omega
  | turns + 1, s, pos, hpos, hturns => by
    rw [loop]
    apply ends_bind (hsafe s data pos hpos)
    intro next q hrun hq
    cases next with
    | inl s' =>
      have hmove := hmoves s data pos s' q hpos hrun
      have hlater := ends_loop hsafe hmoves turns s' hq.2 (by omega)
      exact hlater.mono fun r hr => ⟨by omega, hr.2⟩
    | inr b => exact hq

theorem safe_whileLoop (hsafe : ∀ s, Safe (turn s)) (hmoves : Moves turn) (s : σ) :
    Safe (whileLoop turn s) := by
  intro data pos hpos
  exact ends_loop hsafe hmoves _ s hpos (by omega)

theorem loop_ok (hsafe : ∀ s, Safe (turn s)) :
    ∀ (turns : Nat) (s : σ) {pos q : Nat} {b : β}, pos ≤ data.length →
      loop turn turns s data pos = .ok (b, q) → pos ≤ q ∧ q ≤ data.length
  | 0, _, _, _, _, _, h => by cases h
  | turns + 1, s, pos, q, b, hpos, h => by
    rw [loop] at h
    obtain ⟨next, p, hrun, hrest⟩ := bind_eq_ok.mp h
    have hp := (hsafe s).ok hpos hrun
    cases next with
    | inl s' =>
      have hq := loop_ok hsafe turns s' hp.2 hrest
      omega
    | inr b' =>
      obtain ⟨rfl, rfl⟩ : b' = b ∧ p = q := by simpa using hrest
      exact hp

/-- However many turns a loop is given, it does the same with them where they are enough. -/
theorem loop_local (hgood : ∀ s, Good (turn s)) (hmoves : Moves turn) :
    ∀ (turns turns' : Nat) (s : σ) {pos q : Nat} {b : β}, pos ≤ data.length →
      loop turn turns s data pos = .ok (b, q) → SameBytes data data' pos q →
      data'.length - pos < turns' → q ≤ data.length → loop turn turns' s data' pos = .ok (b, q)
  | 0, _, _, _, _, _, _, h, _, _, _ => by cases h
  | _ + 1, 0, _, _, _, _, _, _, _, hturns, _ => by omega
  | turns + 1, turns' + 1, s, pos, q, b, hpos, h, hsame, hturns, hq => by
    rw [loop] at h ⊢
    obtain ⟨next, p, hrun, hrest⟩ := bind_eq_ok.mp h
    have hp := (hgood s).safe.ok hpos hrun
    cases next with
    | inl s' =>
      have hmove := hmoves s data pos s' p hpos hrun
      have hpq := (loop_ok (fun s => (hgood s).safe) turns s' hp.2 hrest).1
      have hreach := (hsame.mono hpq).reaches hp.1 hp.2
      rw [bind_of_ok ((hgood s).loc data data' pos _ p hpos hrun (hsame.mono hpq))]
      exact loop_local hgood hmoves turns turns' s' hp.2 hrest (hsame.from hp.1 hpq hq) (by omega) hq
    | inr b' =>
      obtain ⟨rfl, rfl⟩ : b' = b ∧ p = q := by simpa using hrest
      rw [bind_of_ok ((hgood s).loc data data' pos _ p hpos hrun hsame)]
      rfl

theorem good_whileLoop (hgood : ∀ s, Good (turn s)) (hmoves : Moves turn) (s : σ) :
    Good (whileLoop turn s) where
  safe := safe_whileLoop (fun s => (hgood s).safe) hmoves s
  loc := by
    intro data data' pos v q hpos h hsame
    have hq := (safe_whileLoop (fun s => (hgood s).safe) hmoves s).ok hpos h
    exact loop_local hgood hmoves _ _ s hpos h hsame (by omega) hq.2

end loop

end run

end Wire

import MessageCrate.Lib.Wire

/- Decoders that read back what an encoder wrote.

   1. `Run d before bs after v`: with the cursor between `before` and `bs`, the decoder moves
      over exactly `bs` and gives `v`.
   2. `Reads d bs v`: it does so whatever stands around `bs`, so the encoding ends by itself. A
      decoder put together of others reads the bytes of one after the bytes of the other
      (`Reads.bind`).
   3. `Turns turn s bs s'`: turns of a loop that read `bs` between them. A loop comes through them
      to its last turn (`Turns.run_whileLoop`), and never runs out of turns. -/
namespace Wire

variable {α β ι σ : Type}

/-- From between `before` and `bs` the decoder moves over `bs` and gives `v`. -/
def Run (d : Decoder α) (before bs after : List UInt8) (v : α) : Prop :=
  d (before ++ (bs ++ after)) before.length = .ok (v, before.length + bs.length)

/-- `bs` is read as `v` wherever it stands. -/
def Reads (d : Decoder α) (bs : List UInt8) (v : α) : Prop := ∀ before after, Run d before bs after v

section run
variable {d : Decoder α} {f : α → Decoder β} {before bs cs after : List UInt8} {a : α} {b : β}

theorem Run.pure (a : α) : Run (Pure.pure a) before [] after a := rfl

theorem Run.bind (hd : Run d before bs (cs ++ after) a) (hf : Run (f a) (before ++ bs) cs after b) :
    Run (d >>= f) before (bs ++ cs) after b := by
  have hbytes : before ++ (bs ++ cs ++ after) = before ++ (bs ++ (cs ++ after)) := by
    rw [List.append_assoc]
  rw [Run, hbytes, bind_of_ok hd, List.length_append, ← Nat.add_assoc, ← List.length_append]
  have hrest : (before ++ bs) ++ (cs ++ after) = before ++ (bs ++ (cs ++ after)) :=
    List.append_assoc ..
  rw [← hrest]
  exact hf

/-- One byte, and the bytes after it. -/
theorem Run.cons_bind {first : UInt8} (hd : Run d before [first] (bs ++ after) a)
    (hf : Run (f a) (before ++ [first]) bs after b) : Run (d >>= f) before (first :: bs) after b :=
  Run.bind hd hf

/-- What comes after the last byte moves nothing. -/
theorem Run.bind_end (hd : Run d before bs after a) (hf : Run (f a) (before ++ bs) [] after b) :
    Run (d >>= f) before bs after b := by
  have hd' : Run d before bs ([] ++ after) a := hd
  have h := hd'.bind hf
  rwa [List.append_nil] at h

theorem Run.map {g : α → β} (hd : Run d before bs after a) :
    Run (d >>= fun x => Pure.pure (g x)) before bs after (g a) :=
  hd.bind_end (Run.pure (g a))

theorem Run.position_bind {f : Nat → Decoder β} (hf : Run (f before.length) before bs after b) :
    Run (position >>= f) before bs after b := hf

theorem Run.size_bind {f : Nat → Decoder β}
    (hf : Run (f (before ++ (bs ++ after)).length) before bs after b) :
    Run (size >>= f) before bs after b := hf

/-- The byte the cursor is before. -/
theorem getElem?_cursor (before rest : List UInt8) :
    (before ++ rest)[before.length]? = rest.head? := by
  rw [List.getElem?_append_right (Nat.le_refl _), Nat.sub_self, List.head?_eq_getElem?]

theorem Run.peek_bind {f : Option UInt8 → Decoder β} (hf : Run (f (bs ++ after).head?) before bs after b) :
    Run (peek >>= f) before bs after b := by
  have hpeek : peek (before ++ (bs ++ after)) before.length =
      .ok ((bs ++ after).head?, before.length) := by
    rw [peek, getElem?_cursor]
  rw [Run, bind_of_ok hpeek]
  exact hf

/-- A check that passes and moves nothing. -/
theorem Run.check_bind {c : Decoder Unit} {f : Unit → Decoder β}
    (hc : c (before ++ (bs ++ after)) before.length = .ok ((), before.length))
    (hf : Run (f ()) before bs after b) : Run (c >>= f) before bs after b := by
  rw [Run, bind_of_ok hc]
  exact hf

end run

section reads
variable {d : Decoder α} {f : α → Decoder β} {bs cs : List UInt8} {a : α} {b : β}

theorem Reads.pure (a : α) : Reads (Pure.pure a) [] a := fun _ _ => Run.pure a

theorem Reads.bind (hd : Reads d bs a) (hf : Reads (f a) cs b) : Reads (d >>= f) (bs ++ cs) b :=
  fun before after => (hd before (cs ++ after)).bind (hf (before ++ bs) after)

theorem Reads.cons_bind {first : UInt8} (hd : Reads d [first] a) (hf : Reads (f a) cs b) :
    Reads (d >>= f) (first :: cs) b := hd.bind hf

theorem Reads.bind_end (hd : Reads d bs a) (hf : Reads (f a) [] b) : Reads (d >>= f) bs b :=
  fun before after => (hd before after).bind_end (hf (before ++ bs) after)

theorem Reads.map {g : α → β} (hd : Reads d bs a) : Reads (d >>= fun x => Pure.pure (g x)) bs (g a) :=
  fun before after => (hd before after).map

theorem Reads.nextByte (what : String) (b : UInt8) : Reads (nextByte what) [b] b := by
  intro before after
  rw [Run, Wire.nextByte, getElem?_cursor]
  rfl

theorem Reads.take (what : String) (bs : List UInt8) : Reads (take bs.length what) bs bs := by
  intro before after
  have hlen : (before ++ (bs ++ after)).length = before.length + (bs.length + after.length) := by
    rw [List.length_append, List.length_append]
  rw [Run, Wire.take, if_neg (by omega), slice, if_pos ⟨by omega, by omega⟩]
  have hslice : ((before ++ (bs ++ after)).drop before.length).take
      (before.length + bs.length - before.length) = bs := by
    rw [List.drop_left, Nat.add_sub_cancel_left, List.take_left]
  rw [hslice]

/-- A choice by the next byte, where the bytes that are read begin with it. -/
theorem Reads.peek_bind {f : Option UInt8 → Decoder β} {first : UInt8}
    (hf : Reads (f (some first)) (first :: bs) b) : Reads (peek >>= f) (first :: bs) b :=
  fun before after => Run.peek_bind (hf before after)

theorem Reads.position_bind {f : Nat → Decoder β} (hf : ∀ start, Reads (f start) bs b) :
    Reads (position >>= f) bs b :=
  fun before after => (hf before.length before after).position_bind

end reads

/-! Loops. -/

section loop
variable {turn : σ → Decoder (σ ⊕ β)} {before bs cs after : List UInt8} {s s' : σ} {b : β} {turns : Nat}

theorem loop_succ (turn : σ → Decoder (σ ⊕ β)) (turns : Nat) (s : σ) :
    loop turn (turns + 1) s = turn s >>= Sum.elim (loop turn turns) Pure.pure := by
  funext data pos
  rw [loop, bind_apply, bind_apply]
  cases turn s data pos with
  | error e => rfl
  | ok r =>
    obtain ⟨next, q⟩ := r
    cases next with
    | inl s' => rfl
    | inr b => rfl

theorem Run.loop_last (h : Run (turn s) before bs after (.inr b)) :
    Run (loop turn (turns + 1) s) before bs after b := by
  rw [loop_succ]
  exact h.bind_end (Run.pure b)

theorem Run.loop_next (h : Run (turn s) before bs (cs ++ after) (.inl s'))
    (hrest : Run (loop turn turns s') (before ++ bs) cs after b) :
    Run (loop turn (turns + 1) s) before (bs ++ cs) after b := by
  rw [loop_succ]
  exact Run.bind h hrest

/-- Turns that read `bs` one after another and take the state `s` to `s'`. -/
inductive Turns (turn : σ → Decoder (σ ⊕ β)) : σ → List UInt8 → σ → Prop
  | done (s : σ) : Turns turn s [] s
  | next {s s' s'' : σ} {bs cs : List UInt8} (hne : bs ≠ []) (hread : Reads (turn s) bs (.inl s'))
      (hrest : Turns turn s' cs s'') : Turns turn s (bs ++ cs) s''

theorem Turns.one (hne : bs ≠ []) (hread : Reads (turn s) bs (.inl s')) : Turns turn s bs s' := by
  have h := Turns.next hne hread (Turns.done s')
  rwa [List.append_nil] at h

theorem Turns.append {s'' : σ} (h : Turns turn s bs s') (h' : Turns turn s' cs s'') :
    Turns turn s (bs ++ cs) s'' := by
  induction h with
  | done s => exact h'
  | next hne hread _ ih =>
    rw [List.append_assoc]
    exact .next hne hread (ih h')

/-- Turns over the bytes of a list, an item at a turn. -/
theorem Turns.flatMap {bytes : ι → List UInt8} {next : σ → ι → σ} (items : List ι)
    (h : ∀ i ∈ items, ∀ s, Turns turn s (bytes i) (next s i)) :
    ∀ s, Turns turn s (items.flatMap bytes) (items.foldl next s) := by
  induction items with
  | nil => exact fun s => .done s
  | cons i items ih =>
    intro s
    rw [List.flatMap_cons, List.foldl_cons]
    exact (h i List.mem_cons_self s).append (ih (fun j hj => h j (List.mem_cons_of_mem i hj)) _)

/-- **A loop comes through its turns to its last.** The loop may look at its cursor before a turn,
as long as it goes on where there are bytes up to `stop`. -/
theorem Turns.run_loop {turn' : σ → Decoder (σ ⊕ β)} {last : List UInt8} {stop : Nat}
    (h : Turns turn s bs s') (hstop : before.length + bs.length ≤ stop)
    (hturn : ∀ s pre cs post r, cs ≠ [] → pre.length + cs.length ≤ stop →
      Run (turn s) pre cs post r → Run (turn' s) pre cs post r)
    (hlast : Run (turn' s') (before ++ bs) last after (.inr b)) :
    ∃ turns ≤ bs.length, ∀ more,
      Run (loop turn' (turns + 1 + more) s) before (bs ++ last) after b := by
  induction h generalizing before with
  | done s =>
    refine ⟨0, Nat.le_refl _, ?_⟩
    intro more
    rw [List.append_nil] at hlast
    rw [Nat.zero_add, Nat.add_comm 1 more]
    exact Run.loop_last hlast
  | @next s s' s'' bs cs hne hread _ ih =>
    rw [List.length_append] at hstop
    rw [← List.append_assoc] at hlast
    obtain ⟨turns, hturns, hrun⟩ := ih (by rw [List.length_append]; omega) hlast
    have hpos := List.length_pos_iff.mpr hne
    refine ⟨turns + 1, by rw [List.length_append]; omega, ?_⟩
    intro more
    rw [show turns + 1 + 1 + more = turns + 1 + more + 1 by omega, List.append_assoc]
    exact Run.loop_next (hturn s before bs _ _ hne (by omega) (hread before _)) (hrun more)

theorem Turns.run_whileLoop {turn' : σ → Decoder (σ ⊕ β)} {last : List UInt8} {stop : Nat}
    (h : Turns turn s bs s') (hstop : before.length + bs.length ≤ stop)
    (hturn : ∀ s pre cs post r, cs ≠ [] → pre.length + cs.length ≤ stop →
      Run (turn s) pre cs post r → Run (turn' s) pre cs post r)
    (hlast : Run (turn' s') (before ++ bs) last after (.inr b)) :
    Run (whileLoop turn' s) before (bs ++ last) after b := by
  obtain ⟨turns, hturns, hrun⟩ := h.run_loop hstop hturn hlast
  have hdata : (before ++ (bs ++ last ++ after)).length + 1 =
      turns + 1 + ((before ++ (bs ++ last ++ after)).length - turns) := by
    simp only [List.length_append]
    omega
  have hwhile := hrun ((before ++ (bs ++ last ++ after)).length - turns)
  rw [← hdata] at hwhile
  exact hwhile

end loop

end Wire

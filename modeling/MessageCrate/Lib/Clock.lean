import Mathlib

/- Clocks that are set by offsets.

   A zone's clock reads an instant plus the offset that holds there. Offsets change at
   transitions; each is shorter than a day, and transitions are two days apart or more. Instants,
   readings and offsets are counted in ticks.

   1. In any two days there are two offsets at most, one up to a transition and one from it on
      (`exists_two_offsets`), though the readings themselves may go back.
   2. So there is a first instant at which the clock shows a time or a later one (`exists_first`).
      The clock shows that time there, or never does, and then this is the end of a gap.
   3. `occurrence` looks the time up span by span: it is the first instant at which the clock shows
      it (`occurrence_isLeast`), and nothing where it never does (`occurrence_eq_none`). -/
namespace Clock

/-- An offset, and the transitions to others. -/
structure Zone (tick day : Int) where
  initial : Int
  transitions : List (Int × Int)
  short : ∀ o ∈ initial :: transitions.map Prod.snd, -day < o ∧ o < day
  whole : ∀ n ∈ initial :: transitions.map Prod.snd ++ transitions.map Prod.fst, tick ∣ n
  apart : transitions.Pairwise fun a b => a.1 + 2 * day ≤ b.1

/-- The offset at an instant: the one of the last transition at or before it. -/
def offsetFrom : Int → List (Int × Int) → Int → Int
  | o, [], _ => o
  | o, (start, next) :: rest, t => if t < start then o else offsetFrom next rest t

/-- The instant at which the clock shows `loc`, in the first span that has one. A span is from
the transition before it, where there is one, up to the next. -/
def occurrenceFrom (loc : Int) : Option Int → Int → List (Int × Int) → Option Int
  | start, o, [] => if start.all (· ≤ loc - o) then some (loc - o) else none
  | start, o, (stop, next) :: rest =>
    if start.all (· ≤ loc - o) ∧ loc - o < stop then some (loc - o)
    else occurrenceFrom loc (some stop) next rest

variable {tick day : Int}

/-- What the clock shows. -/
def Zone.reading (z : Zone tick day) (t : Int) : Int := t + offsetFrom z.initial z.transitions t

def Zone.occurrence (z : Zone tick day) (loc : Int) : Option Int :=
  occurrenceFrom loc none z.initial z.transitions

/-! Two offsets in two days. -/

/-- Up to an instant one offset holds, and from it on another. -/
def Turns (offset : Int → Int) (a b turn before after : Int) : Prop :=
  ∀ t, a ≤ t → t < b → offset t = if t < turn then before else after

theorem offsetFrom_of_lt {o t : Int} {l : List (Int × Int)} (h : ∀ p ∈ l, t < p.1) :
    offsetFrom o l t = o := by
  cases l with
  | nil => rfl
  | cons p rest =>
    obtain ⟨start, next⟩ := p
    rw [offsetFrom, if_pos (h _ List.mem_cons_self)]

/-- **In any two days there is one turn at most.** -/
theorem exists_two_offsets (a : Int) : ∀ (o : Int) (l : List (Int × Int)),
    l.Pairwise (fun p q => p.1 + 2 * day ≤ q.1) →
    ∃ turn before after, Turns (offsetFrom o l) a (a + 2 * day) turn before after ∧
      before ∈ o :: l.map Prod.snd ∧ after ∈ o :: l.map Prod.snd ∧
      (turn = 0 ∨ turn ∈ l.map Prod.fst)
  | o, [], _ => by
    refine ⟨0, o, o, ?_, List.mem_cons_self, List.mem_cons_self, .inl rfl⟩
    intro t _ _
    rw [ite_self]
    rfl
  | o, (start, next) :: rest, hapart => by
    obtain ⟨hfirst, hrest⟩ := List.pairwise_cons.mp hapart
    by_cases hpast : start ≤ a
    · -- the first transition is behind: only the later ones count
      obtain ⟨turn, before, after, hturns, hbefore, hafter, hturn⟩ :=
        exists_two_offsets a next rest hrest
      refine ⟨turn, before, after, ?_, List.mem_cons_of_mem _ hbefore, List.mem_cons_of_mem _ hafter,
        hturn.imp id fun h => List.mem_cons_of_mem _ h⟩
      intro t hat htb
      rw [offsetFrom, if_neg (by omega)]
      exact hturns t hat htb
    · -- the one after the first is two days later
      refine ⟨start, o, next, ?_, List.mem_cons_self,
        List.mem_cons_of_mem _ List.mem_cons_self, .inr List.mem_cons_self⟩
      intro t hat htb
      rw [offsetFrom]
      split
      · rfl
      · apply offsetFrom_of_lt
        intro p hp
        have := hfirst p hp
        simp only at this
        omega

/-! The first instant at or after a time of the clock. -/

theorem Zone.exists_turn (z : Zone tick day) (a : Int) : ∃ turn before after,
    (∀ t, a ≤ t → t < a + 2 * day → z.reading t = t + if t < turn then before else after) ∧
      (-day < before ∧ before < day) ∧ (-day < after ∧ after < day) ∧
      tick ∣ before ∧ tick ∣ after ∧ tick ∣ turn := by
  obtain ⟨turn, before, after, hturns, hbefore, hafter, hturn⟩ :=
    exists_two_offsets a z.initial z.transitions z.apart
  refine ⟨turn, before, after, ?_, z.short _ hbefore, z.short _ hafter,
    z.whole _ (List.mem_append_left _ hbefore), z.whole _ (List.mem_append_left _ hafter), ?_⟩
  · intro t hat htb
    rw [Zone.reading, hturns t hat htb]
  · rcases hturn with rfl | hturn
    · exact dvd_zero _
    · exact z.whole _ (List.mem_append_right _ hturn)

theorem Zone.offset_mem (z : Zone tick day) (t : Int) : -day < z.reading t - t ∧ z.reading t - t < day := by
  obtain ⟨turn, before, after, hreading, hbefore, hafter, -⟩ := z.exists_turn t
  have hday : 0 < day := by omega
  have ht := hreading t (Int.le_refl _) (by omega)
  split at ht
  · omega
  · omega

/-- How the first instant at or after `loc` is met: on time, or at the end of a gap, around which
the clock shows an earlier time before and a later one after. -/
structure Zone.First (z : Zone tick day) (loc t : Int) : Prop where
  isLeast : IsLeast {u | loc ≤ z.reading u} t
  near : loc - day < t ∧ t < loc + day
  onTime : z.reading t = loc ∨ (∀ u, z.reading u ≠ loc) ∧
    ∀ u, loc - day ≤ u → u < loc + day → (loc ≤ z.reading u ↔ t ≤ u)
  whole : tick ∣ loc → tick ∣ t

theorem Zone.exists_first (z : Zone tick day) (loc : Int) : ∃ t, z.First loc t := by
  obtain ⟨turn, before, after, hreading, hbefore, hafter, hdvd, hdvd', hturn⟩ :=
    z.exists_turn (loc - day)
  have hwindow : loc - day + 2 * day = loc + day := by omega
  rw [hwindow] at hreading
  -- a day before and a day after, the offset is too short to matter
  have hearly : ∀ u, u < loc - day → z.reading u < loc := by
    intro u hu
    have := z.offset_mem u
    omega
  have hlate : ∀ u, loc + day ≤ u → loc < z.reading u := by
    intro u hu
    have := z.offset_mem u
    omega
  by_cases hfirst : loc - before < turn
  · -- before the turn
    have ht := hreading (loc - before) (by omega) (by omega)
    rw [if_pos hfirst, Int.sub_add_cancel] at ht
    refine ⟨loc - before, ⟨le_of_eq ht.symm, ?_⟩, by omega, .inl ht, fun h => dvd_sub h hdvd⟩
    intro u hu
    by_contra hlt
    rcases lt_or_ge u (loc - day) with hout | hin
    · exact absurd hu (not_le.mpr (hearly u hout))
    · have hu' : loc ≤ z.reading u := hu
      rw [hreading u hin (by omega), if_pos (by omega)] at hu'
      omega
  by_cases hsecond : turn ≤ loc - after
  · -- behind it
    have ht := hreading (loc - after) (by omega) (by omega)
    rw [if_neg (by omega), Int.sub_add_cancel] at ht
    refine ⟨loc - after, ⟨le_of_eq ht.symm, ?_⟩, by omega, .inl ht, fun h => dvd_sub h hdvd'⟩
    intro u hu
    by_contra hlt
    rcases lt_or_ge u (loc - day) with hout | hin
    · exact absurd hu (not_le.mpr (hearly u hout))
    · have hu' : loc ≤ z.reading u := hu
      rw [hreading u hin (by omega)] at hu'
      split at hu'
      · omega
      · omega
  · -- the clock is turned past the time
    have hgap : ∀ u, loc - day ≤ u → u < loc + day → (loc ≤ z.reading u ↔ turn ≤ u) := by
      intro u hlow hhigh
      rw [hreading u hlow hhigh]
      split
      · omega
      · omega
    refine ⟨turn, ⟨(hgap turn (by omega) (by omega)).mpr (Int.le_refl _), ?_⟩, by omega,
      .inr ⟨?_, hgap⟩, fun _ => hturn⟩
    · intro u hu
      rcases lt_or_ge u (loc - day) with hout | hin
      · exact absurd hu (not_le.mpr (hearly u hout))
      rcases lt_or_ge u (loc + day) with hin' | hout
      · exact (hgap u hin hin').mp hu
      · omega
    · intro u hu
      rcases lt_or_ge u (loc - day) with hout | hin
      · exact absurd hu (ne_of_lt (hearly u hout))
      rcases lt_or_ge u (loc + day) with hin' | hout
      · rw [hreading u hin hin'] at hu
        split at hu
        · omega
        · omega
      · exact absurd hu (ne_of_gt (hlate u hout))

/-- A later time is met at a later instant. -/
theorem Zone.First.mono {z : Zone tick day} {loc loc' t t' : Int} (h : z.First loc t)
    (h' : z.First loc' t') (hle : loc ≤ loc') : t ≤ t' :=
  h.isLeast.2 (le_trans hle h'.isLeast.1)

theorem Zone.First.unique {z : Zone tick day} {loc t t' : Int} (h : z.First loc t)
    (h' : z.First loc t') : t = t' :=
  h.isLeast.unique h'.isLeast

/-! Looking a time up. -/

/-- From where a span starts. -/
def From (start : Option Int) (t : Int) : Prop := ∀ s ∈ start, s ≤ t

theorem all_le_iff {start : Option Int} {t : Int} : start.all (· ≤ t) = true ↔ From start t := by
  cases start with
  | none => simp [From]
  | some s => simp [From]

/-- The spans are looked through in order, so what is found is the first. -/
theorem occurrenceFrom_spec (loc : Int) : ∀ (start : Option Int) (o : Int) (l : List (Int × Int)),
    l.Pairwise (fun p q => p.1 ≤ q.1) → (∀ s ∈ start, ∀ p ∈ l, s ≤ p.1) →
    (∀ t, occurrenceFrom loc start o l = some t →
      IsLeast {u | From start u ∧ u + offsetFrom o l u = loc} t) ∧
    (occurrenceFrom loc start o l = none → ∀ u, From start u → u + offsetFrom o l u ≠ loc)
  | start, o, [], _, _ => by
    rw [occurrenceFrom]
    split
    · next hstart =>
      refine ⟨?_, fun h => by cases h⟩
      intro t ht
      obtain rfl := Option.some.inj ht
      refine ⟨⟨all_le_iff.mp hstart, Int.sub_add_cancel loc o⟩, ?_⟩
      intro u hu
      have : u + o = loc := hu.2
      omega
    · next hstart =>
      refine ⟨fun t h => (by cases h), ?_⟩
      intro _ u hu hread
      have hu' : u + o = loc := hread
      apply hstart
      rw [all_le_iff, show loc - o = u by omega]
      exact hu
  | start, o, (stop, next) :: rest, hsorted, hstart => by
    obtain ⟨hfirst, hrest⟩ := List.pairwise_cons.mp hsorted
    have hle : ∀ s ∈ start, s ≤ stop := fun s hs => hstart s hs _ List.mem_cons_self
    have ih := occurrenceFrom_spec loc (some stop) next rest hrest
      (by intro s hs p hp; cases hs; exact hfirst p hp)
    have hlater : ∀ {u}, stop ≤ u → offsetFrom o ((stop, next) :: rest) u = offsetFrom next rest u := by
      intro u hu
      rw [offsetFrom, if_neg (by omega)]
    have hbefore : ∀ {u}, u < stop → offsetFrom o ((stop, next) :: rest) u = o := by
      intro u hu
      rw [offsetFrom, if_pos hu]
    rw [occurrenceFrom]
    split
    · next hfound =>
      rw [all_le_iff] at hfound
      refine ⟨?_, fun h => by cases h⟩
      intro t ht
      obtain rfl := Option.some.inj ht
      refine ⟨⟨hfound.1, by rw [hbefore hfound.2, Int.sub_add_cancel]⟩, ?_⟩
      intro u hu
      rcases lt_or_ge u stop with hin | hout
      · have := hu.2
        rw [hbefore hin] at this
        omega
      · omega
    · next hmissing =>
      rw [all_le_iff] at hmissing
      -- nothing in this span, so an occurrence is in a later one
      have hout : ∀ u, From start u → u + offsetFrom o ((stop, next) :: rest) u = loc → stop ≤ u := by
        intro u hu hread
        by_contra hin
        rw [hbefore (by omega)] at hread
        apply hmissing
        rw [show loc - o = u by omega]
        exact ⟨hu, by omega⟩
      constructor
      · intro t ht
        obtain ⟨⟨hfrom, hread⟩, hleast⟩ := ih.1 t ht
        have hstop : stop ≤ t := hfrom stop rfl
        refine ⟨⟨fun s hs => le_trans (hle s hs) hstop, by rw [hlater hstop, hread]⟩, ?_⟩
        intro u hu
        have hu' := hout u hu.1 hu.2
        apply hleast
        refine ⟨?_, by rw [← hlater hu', hu.2]⟩
        intro s hs
        cases hs
        exact hu'
      · intro hnone u hu hread
        have hu' := hout u hu hread
        apply ih.2 hnone u
        · intro s hs
          cases hs
          exact hu'
        · rw [← hlater hu', hread]

theorem Zone.occurrence_spec (z : Zone tick day) (loc : Int) :
    (∀ t, z.occurrence loc = some t → IsLeast {u | z.reading u = loc} t) ∧
      (z.occurrence loc = none → ∀ u, z.reading u ≠ loc) := by
  have hday := z.short z.initial List.mem_cons_self
  have hsorted : z.transitions.Pairwise fun p q => p.1 ≤ q.1 :=
    z.apart.imp fun h => by omega
  obtain ⟨hsome, hnone⟩ := occurrenceFrom_spec loc none z.initial z.transitions hsorted
    (by intro s hs; cases hs)
  constructor
  · intro t ht
    obtain ⟨⟨-, hread⟩, hleast⟩ := hsome t ht
    exact ⟨hread, fun u hu => hleast ⟨fun s hs => (by cases hs), hu⟩⟩
  · exact fun h u => hnone h u fun s hs => by cases hs

/-- **A time that the clock shows is first met where it is first shown.** -/
theorem Zone.First.occurrence {z : Zone tick day} {loc t : Int} (h : z.First loc t) :
    z.occurrence loc = some t ∨ z.occurrence loc = none ∧
      ∀ u, loc - day ≤ u → u < loc + day → (loc ≤ z.reading u ↔ t ≤ u) := by
  obtain ⟨hsome, hnone⟩ := z.occurrence_spec loc
  rcases h.onTime with hshown | ⟨hnever, hgap⟩
  · left
    cases hfound : z.occurrence loc with
    | none => exact absurd hshown (hnone hfound t)
    | some u =>
      obtain ⟨hread, hleast⟩ := hsome u hfound
      have hle : t ≤ u := h.isLeast.2 (le_of_eq (show z.reading u = loc from hread).symm)
      have hge : u ≤ t := hleast hshown
      rw [le_antisymm hge hle]
  · right
    refine ⟨?_, hgap⟩
    cases hfound : z.occurrence loc with
    | none => rfl
    | some u => exact absurd (hsome u hfound).1 (hnever u)

end Clock

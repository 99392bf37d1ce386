import Mathlib.Data.List.Infix

/- SQL's `LIKE` with an escape character.

   A pattern is read into items: `%` stands for any run of characters, `_` for one, and the
   escape character makes the next one stand for itself; with nothing after it the pattern
   matches no string. A letter of the pattern matches itself in either case, for the ASCII
   letters only.

   `escape` puts the escape character before each character that would mean something else.
   Over characters without ASCII capitals an escaped text matches itself and nothing else
   (`itemsMatch_lits`), and between two `%` it matches the strings it occurs in
   (`likeMatches_contains`). -/
namespace Like

inductive Item where
  | run
  | one
  | lit (c : Char)
  deriving DecidableEq, Repr

/-- The items of a pattern; `none` when its last character is an escape of nothing. -/
def readPattern (esc : Char) : List Char → Option (List Item)
  | [] => some []
  | [c] => if c = esc then none else some [if c = '%' then .run else if c = '_' then .one else .lit c]
  | c :: d :: p =>
    if c = esc then (readPattern esc p).map (.lit d :: ·)
    else (readPattern esc (d :: p)).map
      ((if c = '%' then .run else if c = '_' then .one else .lit c) :: ·)

/-- Whether the items match the whole string. -/
def itemsMatch : List Item → List Char → Bool
  | [], s => s.isEmpty
  | .run :: is, s => s.tails.any (itemsMatch is)
  | .one :: is, s => !s.isEmpty && itemsMatch is s.tail
  | .lit c :: is, s => s.head?.any (fun x => x.toLower = c.toLower) && itemsMatch is s.tail

def likeMatches (esc : Char) (pattern s : List Char) : Bool :=
  (readPattern esc pattern).any (fun is => itemsMatch is s)

/-- A character that means something else in a pattern. -/
def IsMeta (esc c : Char) : Prop := c = esc ∨ c = '%' ∨ c = '_'

instance (esc c : Char) : Decidable (IsMeta esc c) := inferInstanceAs (Decidable (_ ∨ _ ∨ _))

def escape (esc : Char) (w : List Char) : List Char :=
  w.flatMap (fun c => if IsMeta esc c then [esc, c] else [c])

/-- A string without ASCII capitals. -/
def Folded (s : List Char) : Prop := ∀ c ∈ s, c.toLower = c

section read
variable {esc c : Char} {p w : List Char}

/-- An unescaped character is read on its own. -/
theorem readPattern_cons (hc : c ≠ esc) : readPattern esc (c :: p) =
    (readPattern esc p).map
      ((if c = '%' then Item.run else if c = '_' then Item.one else Item.lit c) :: ·) := by
  cases p with
  | nil => simp [readPattern, hc]
  | cons d p => simp [readPattern, hc]

theorem readPattern_run (hesc : esc ≠ '%') :
    readPattern esc ('%' :: p) = (readPattern esc p).map (.run :: ·) := by
  rw [readPattern_cons hesc.symm]
  simp

theorem readPattern_plain (hc : ¬ IsMeta esc c) :
    readPattern esc (c :: p) = (readPattern esc p).map (.lit c :: ·) := by
  obtain ⟨hesc, hrun, hone⟩ : c ≠ esc ∧ c ≠ '%' ∧ c ≠ '_' := by
    simpa [IsMeta, not_or] using hc
  rw [readPattern_cons hesc]
  simp [hrun, hone]

theorem readPattern_escaped :
    readPattern esc (esc :: c :: p) = (readPattern esc p).map (.lit c :: ·) := by
  simp [readPattern]

/-- **An escaped text is read as its own characters.** -/
theorem readPattern_escape :
    readPattern esc (escape esc w ++ p) = (readPattern esc p).map (w.map .lit ++ ·) := by
  induction w with
  | nil => simp [escape]
  | cons c w ih =>
    have hsplit : escape esc (c :: w) ++ p =
        (if IsMeta esc c then [esc, c] else [c]) ++ (escape esc w ++ p) := by
      simp [escape]
    have hone : readPattern esc (escape esc (c :: w) ++ p) =
        (readPattern esc (escape esc w ++ p)).map (.lit c :: ·) := by
      rw [hsplit]
      split
      · exact readPattern_escaped
      · rename_i hc
        exact readPattern_plain hc
    rw [hone, ih, Option.map_map]
    rfl

end read

section items
variable {is : List Item} {s w : List Char}

theorem itemsMatch_run : itemsMatch (.run :: is) s = true ↔
    ∃ a b, s = a ++ b ∧ itemsMatch is b = true := by
  simp only [itemsMatch, List.any_eq_true, List.mem_tails]
  constructor
  · rintro ⟨b, ⟨a, rfl⟩, h⟩
    exact ⟨a, b, rfl, h⟩
  · rintro ⟨a, b, rfl, h⟩
    exact ⟨b, ⟨a, rfl⟩, h⟩

/-- Without capitals on either side a letter matches itself alone. -/
theorem itemsMatch_lit {c : Char} (hc : c.toLower = c) (hs : Folded s) :
    itemsMatch (.lit c :: is) s = true ↔ ∃ s', s = c :: s' ∧ itemsMatch is s' = true := by
  cases s with
  | nil => simp [itemsMatch]
  | cons x s =>
    have hx : x.toLower = x := hs x (List.mem_cons_self ..)
    simp [itemsMatch, hx, hc]

theorem itemsMatch_lits (hw : Folded w) (hs : Folded s) :
    itemsMatch (w.map .lit ++ is) s = true ↔ ∃ s', s = w ++ s' ∧ itemsMatch is s' = true := by
  induction w generalizing s with
  | nil => simp
  | cons c w ih =>
    obtain ⟨hc, hw⟩ : c.toLower = c ∧ Folded w := List.forall_mem_cons.mp hw
    rw [List.map_cons, List.cons_append, itemsMatch_lit hc hs]
    constructor
    · rintro ⟨s₁, rfl, h⟩
      obtain ⟨s₂, rfl, hrest⟩ := (ih hw (List.forall_mem_cons.mp hs).2).mp h
      exact ⟨s₂, rfl, hrest⟩
    · rintro ⟨s₂, rfl, h⟩
      exact ⟨w ++ s₂, rfl, (ih hw (List.forall_mem_cons.mp hs).2).mpr ⟨s₂, rfl, h⟩⟩

theorem itemsMatch_rest : itemsMatch [.run] s = true :=
  itemsMatch_run.mpr ⟨s, [], by simp, rfl⟩

/-- Letters before a run match the strings that start with them. -/
theorem itemsMatch_starts (hw : Folded w) (hs : Folded s) :
    itemsMatch (w.map .lit ++ [.run]) s = true ↔ w <+: s := by
  rw [itemsMatch_lits hw hs]
  constructor
  · rintro ⟨s', rfl, -⟩
    exact List.prefix_append _ _
  · rintro ⟨s', rfl⟩
    exact ⟨s', rfl, itemsMatch_rest⟩

/-- Letters between two runs match the strings they occur in. -/
theorem itemsMatch_occurs (hw : Folded w) (hs : Folded s) :
    itemsMatch (.run :: (w.map .lit ++ [.run])) s = true ↔ w <:+: s := by
  have hafter : ∀ {a b : List Char}, s = a ++ b → Folded b := fun h c hc =>
    hs c (h ▸ List.mem_append_right _ hc)
  rw [itemsMatch_run]
  constructor
  · rintro ⟨a, b, rfl, h⟩
    obtain ⟨r, rfl⟩ := (itemsMatch_starts hw (hafter rfl)).mp h
    exact ⟨a, r, by simp⟩
  · rintro ⟨a, r, rfl⟩
    have hsplit : a ++ w ++ r = a ++ (w ++ r) := List.append_assoc _ _ _
    exact ⟨a, w ++ r, hsplit, (itemsMatch_starts hw (hafter hsplit)).mpr (List.prefix_append _ _)⟩

end items

section patterns
variable {esc : Char} {s w : List Char}

/-- An escaped text before a `%` matches the strings that start with it. -/
theorem likeMatches_starts (hesc : esc ≠ '%') (hw : Folded w) (hs : Folded s) :
    likeMatches esc (escape esc w ++ ['%']) s = true ↔ w <+: s := by
  have hread : readPattern esc (escape esc w ++ ['%']) = some (w.map .lit ++ [.run]) := by
    rw [readPattern_escape, readPattern_run hesc]
    rfl
  rw [likeMatches, hread, Option.any_some, itemsMatch_starts hw hs]

/-- An escaped text between two `%` matches the strings it occurs in. -/
theorem likeMatches_contains (hesc : esc ≠ '%') (hw : Folded w) (hs : Folded s) :
    likeMatches esc ('%' :: (escape esc w ++ ['%'])) s = true ↔ w <:+: s := by
  have hread : readPattern esc ('%' :: (escape esc w ++ ['%'])) =
      some (.run :: (w.map .lit ++ [.run])) := by
    rw [readPattern_run hesc, readPattern_escape, readPattern_run hesc]
    rfl
  rw [likeMatches, hread, Option.any_some, itemsMatch_occurs hw hs]

end patterns

end Like

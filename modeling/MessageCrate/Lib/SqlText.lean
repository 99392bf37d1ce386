import Mathlib

/- SQL text under construction: raw text and bound values, written in order.

   A fragment is the list of its writes. Its text is what they write one after another,
   with a `?` for each bound value, and its parameters are the values bound.

   1. `shape` is a fragment without its values. It determines the text
      (`text_eq_of_shape`), so two fragments of one shape are the same SQL.
   2. `placeholders` gives each `?` of the text the value it was written for, or nothing
      when raw text wrote it. In a fragment whose raw text has no `?` they are the
      parameters, in order (`placeholders_eq`).
   3. `Moves f a b`: `f` read from `a` open parentheses leaves `b` open, outside quotes
      at both ends, and no raw text of it holds a `?`. A fragment that moves from 0 to 0
      is `Closed`: it stands in parentheses, between operators or in a list as one unit. -/
namespace SqlText

/-- One write: raw text, or a `?` with the value bound to it. -/
inductive Write (α : Type) where
  | raw (s : String)
  | bound (a : α)

/-- The writes of a fragment, in order. -/
abbrev Frag (α : Type) := List (Write α)

section fragments
variable {α : Type}

def Write.chars : Write α → List Char
  | .raw s => s.toList
  | .bound _ => ['?']

def chars (f : Frag α) : List Char := f.flatMap Write.chars

/-- What the writes of `f` make together. -/
def text (f : Frag α) : String := String.ofList (chars f)

def Write.param? : Write α → Option α
  | .raw _ => none
  | .bound a => some a

/-- The values bound, in the order of the text. -/
def params (f : Frag α) : List α := f.filterMap Write.param?

def Write.placeholders : Write α → List (Option α)
  | .raw s => List.replicate (s.toList.count '?') none
  | .bound a => [some a]

/-- For each `?` of the text, the value it was written for. -/
def placeholders (f : Frag α) : List (Option α) := f.flatMap Write.placeholders

def Write.hole : Write α → Option String
  | .raw s => some s
  | .bound _ => none

/-- The fragment without its values. -/
def shape (f : Frag α) : List (Option String) := f.map Write.hole

@[simp] theorem chars_append (f g : Frag α) : chars (f ++ g) = chars f ++ chars g :=
  List.flatMap_append

@[simp] theorem params_append (f g : Frag α) : params (f ++ g) = params f ++ params g :=
  List.filterMap_append

@[simp] theorem chars_nil : chars ([] : Frag α) = [] := rfl

@[simp] theorem chars_raw (s : String) (f : Frag α) :
    chars (.raw s :: f) = s.toList ++ chars f := List.flatMap_cons

@[simp] theorem chars_bound (a : α) (f : Frag α) : chars (.bound a :: f) = '?' :: chars f := rfl

@[simp] theorem params_nil : params ([] : Frag α) = [] := rfl

@[simp] theorem params_raw (s : String) (f : Frag α) : params (.raw s :: f) = params f := rfl

@[simp] theorem params_bound (a : α) (f : Frag α) :
    params (.bound a :: f) = a :: params f := rfl

@[simp] theorem shape_append (f g : Frag α) : shape (f ++ g) = shape f ++ shape g :=
  List.map_append

@[simp] theorem shape_nil : shape ([] : Frag α) = [] := rfl

@[simp] theorem shape_raw (s : String) (f : Frag α) :
    shape (.raw s :: f) = some s :: shape f := rfl

@[simp] theorem shape_bound (a : α) (f : Frag α) : shape (.bound a :: f) = none :: shape f := rfl

theorem toList_text (f : Frag α) : (text f).toList = chars f := String.toList_ofList

/-- The characters a write of this shape makes. -/
def holeChars : Option String → List Char
  | some s => s.toList
  | none => ['?']

theorem chars_eq_shape (f : Frag α) : chars f = (shape f).flatMap holeChars := by
  induction f with
  | nil => rfl
  | cons w f ih =>
    cases w with
    | raw s => simpa [chars, Write.chars, holeChars] using ih
    | bound a => simpa [chars, Write.chars, holeChars] using ih

/-- Fragments of one shape are the same SQL. -/
theorem text_eq_of_shape {f g : Frag α} (h : shape f = shape g) : text f = text g := by
  unfold text
  rw [chars_eq_shape, chars_eq_shape, h]

theorem count_chars (f : Frag α) : (chars f).count '?' = (placeholders f).length := by
  induction f with
  | nil => rfl
  | cons w f ih =>
    cases w with
    | raw s => simpa [chars, Write.chars, placeholders, Write.placeholders] using ih
    | bound a => simpa [chars, Write.chars, placeholders, Write.placeholders] using ih

/-- Raw text never writes a placeholder. -/
def Clean (f : Frag α) : Prop := ∀ s, Write.raw s ∈ f → '?' ∉ s.toList

theorem Clean.append {f g : Frag α} (hf : Clean f) (hg : Clean g) : Clean (f ++ g) := by
  intro s hs
  obtain hs | hs := List.mem_append.mp hs
  · exact hf s hs
  · exact hg s hs

theorem placeholders_eq {f : Frag α} (h : Clean f) : placeholders f = (params f).map some := by
  induction f with
  | nil => rfl
  | cons w f ih =>
    have hf : Clean f := fun s hs => h s (List.mem_cons_of_mem _ hs)
    cases w with
    | raw s =>
      have hs : s.toList.count '?' = 0 := List.count_eq_zero.mpr (h s List.mem_cons_self)
      simpa [placeholders, Write.placeholders, params, List.filterMap_cons, Write.param?, hs]
        using ih hf
    | bound a =>
      simpa [placeholders, Write.placeholders, params, List.filterMap_cons, Write.param?]
        using ih hf

/-- As many placeholders as parameters. -/
theorem count_eq_length {f : Frag α} (h : Clean f) :
    (text f).toList.count '?' = (params f).length := by
  rw [toList_text, count_chars, placeholders_eq h, List.length_map]

/-- A text with the value of each of its placeholders, in order. -/
def fill : List Char → List α → Frag α
  | [], _ => []
  | c :: cs, ps =>
    if c = '?' then
      match ps with
      | [] => .raw "?" :: fill cs []
      | p :: ps => .bound p :: fill cs ps
    else .raw (String.ofList [c]) :: fill cs ps

/-- A text with as many placeholders as values is a fragment that binds them. -/
theorem fill_spec : ∀ {cs : List Char} {ps : List α}, cs.count '?' = ps.length →
    chars (fill cs ps) = cs ∧ params (fill cs ps) = ps ∧ Clean (fill cs ps)
  | [], ps, h => by
    obtain rfl : ps = [] := List.eq_nil_of_length_eq_zero h.symm
    exact ⟨rfl, rfl, fun s hs => by cases hs⟩
  | c :: cs, ps, h => by
    by_cases hc : c = '?'
    · subst hc
      rw [List.count_cons_self] at h
      cases ps with
      | nil => cases h
      | cons p ps =>
        have hcount : cs.count '?' = ps.length := by simpa using h
        obtain ⟨hchars, hparams, hclean⟩ := fill_spec hcount
        have hfill : fill ('?' :: cs) (p :: ps) = .bound p :: fill cs ps := by simp [fill]
        rw [hfill]
        refine ⟨?_, ?_, ?_⟩
        · simpa [chars, Write.chars] using hchars
        · simpa [params, List.filterMap_cons, Write.param?] using hparams
        · intro s hs
          exact hclean s (by simpa using hs)
    · rw [List.count_cons_of_ne hc] at h
      obtain ⟨hchars, hparams, hclean⟩ := fill_spec h
      have hfill : fill (c :: cs) ps = .raw (String.ofList [c]) :: fill cs ps := by
        cases ps with
        | nil => simp [fill, hc]
        | cons p ps => simp [fill, hc]
      rw [hfill]
      refine ⟨?_, ?_, ?_⟩
      · simpa [chars, Write.chars] using hchars
      · simpa [params, List.filterMap_cons, Write.param?] using hparams
      · intro s hs
        obtain hs | hs := List.mem_cons.mp hs
        · cases hs
          simpa using fun h => hc h.symm
        · exact hclean s hs

end fragments

/-! Where a text leaves the parentheses and quotes it was read in. -/

/-- One character, read from a depth of open parentheses, inside quotes or not. Outside
quotes a `)` needs an open parenthesis; a raw `?` is read nowhere. -/
def scanChar (place : Nat × Bool) (c : Char) : Option (Nat × Bool) :=
  if c = '?' then none
  else if place.2 then some (place.1, c != '\'')
  else if c = '\'' then some (place.1, true)
  else if c = '(' then some (place.1 + 1, false)
  else if c = ')' then (if place.1 = 0 then none else some (place.1 - 1, false))
  else some place

def scan (place : Nat × Bool) (cs : List Char) : Option (Nat × Bool) := cs.foldlM scanChar place

theorem scanChar_add {d d' : Nat} {q q' : Bool} {c : Char} (k : Nat)
    (h : scanChar (d, q) c = some (d', q')) : scanChar (k + d, q) c = some (k + d', q') := by
  cases q with
  | true =>
    simp only [scanChar, if_true] at h ⊢
    split_ifs at h ⊢
    simp_all
  | false =>
    simp only [scanChar, Bool.false_eq_true, if_false] at h ⊢
    split_ifs at h ⊢
    all_goals
      simp only [Option.some.injEq, Prod.mk.injEq] at h ⊢
      first
        | exact ⟨by omega, h.2⟩
        | omega

/-- A text is read the same way from `k` more open parentheses. -/
theorem scan_add {cs : List Char} (k : Nat) : ∀ {d d' : Nat} {q q' : Bool},
    scan (d, q) cs = some (d', q') → scan (k + d, q) cs = some (k + d', q') := by
  induction cs with
  | nil =>
    intro d d' q q' h
    obtain ⟨rfl, rfl⟩ : d = d' ∧ q = q' := by simpa [scan] using h
    rfl
  | cons c cs ih =>
    intro d d' q q' h
    simp only [scan, List.foldlM_cons, Option.bind_eq_bind, Option.bind_eq_some_iff] at h ⊢
    obtain ⟨⟨d₁, q₁⟩, hc, hcs⟩ := h
    exact ⟨(k + d₁, q₁), scanChar_add k hc, ih hcs⟩

/-- `s`, read from `a` open parentheses, leaves `b` open. -/
def Shifts (s : String) (a b : Nat) : Prop := scan (a, false) s.toList = some (b, false)

namespace Shifts

/-- A literal, by reading its characters. -/
theorem literal {cs : List Char} {a b : Nat} (h : scan (a, false) cs = some (b, false)) :
    Shifts (String.ofList cs) a b := by
  unfold Shifts
  rw [String.toList_ofList]
  exact h

theorem append {s t : String} {a b c : Nat} (hs : Shifts s a b) (ht : Shifts t b c) :
    Shifts (s ++ t) a c := by
  unfold Shifts scan at hs ht ⊢
  rw [String.toList_append, List.foldlM_append, hs]
  exact ht

theorem add {s : String} {a b : Nat} (k : Nat) (h : Shifts s a b) :
    Shifts s (k + a) (k + b) := scan_add k h

/-- A text that moves nothing moves nothing at any depth. -/
theorem at_depth {s : String} (h : Shifts s 0 0) (k : Nat) : Shifts s k k := h.add k

end Shifts

section moves
variable {α : Type}

def scanWrite (place : Nat × Bool) : Write α → Option (Nat × Bool)
  | .raw s => scan place s.toList
  | .bound _ => if place.2 then none else some place

/-- `f`, read from `a` open parentheses, leaves `b` open. -/
def Moves (f : Frag α) (a b : Nat) : Prop := f.foldlM scanWrite (a, false) = some (b, false)

/-- A fragment that closes what it opens. -/
def Closed (f : Frag α) : Prop := Moves f 0 0

namespace Moves

theorem nil (a : Nat) : Moves ([] : Frag α) a a := rfl

theorem raw {s : String} {a b : Nat} (h : Shifts s a b) : Moves ([.raw s] : Frag α) a b := by
  unfold Moves
  rw [List.foldlM_cons, scanWrite, h]
  rfl

theorem bound (v : α) (a : Nat) : Moves [.bound v] a a := rfl

theorem append {f g : Frag α} {a b c : Nat} (hf : Moves f a b) (hg : Moves g b c) :
    Moves (f ++ g) a c := by
  unfold Moves at hf hg ⊢
  rw [List.foldlM_append, hf]
  exact hg

theorem add {f : Frag α} (k : Nat) {a b : Nat} (h : Moves f a b) : Moves f (k + a) (k + b) := by
  have hgen : ∀ (f : Frag α) {d d' : Nat} {q q' : Bool},
      f.foldlM scanWrite (d, q) = some (d', q') →
        f.foldlM scanWrite (k + d, q) = some (k + d', q') := by
    intro f
    induction f with
    | nil =>
      intro d d' q q' h
      obtain ⟨rfl, rfl⟩ : d = d' ∧ q = q' := by simpa using h
      rfl
    | cons w f ih =>
      intro d d' q q' h
      simp only [List.foldlM_cons, Option.bind_eq_bind, Option.bind_eq_some_iff] at h ⊢
      obtain ⟨⟨d₁, q₁⟩, hw, hf⟩ := h
      refine ⟨(k + d₁, q₁), ?_, ih hf⟩
      cases w with
      | raw s => exact scan_add k hw
      | bound v =>
        cases q with
        | true => cases hw
        | false =>
          obtain ⟨rfl, rfl⟩ : d = d₁ ∧ false = q₁ := by simpa [scanWrite] using hw
          rfl
  exact hgen f h

end Moves

/-- A closed fragment moves nothing at any depth. -/
theorem Closed.at_depth {f : Frag α} (h : Closed f) (k : Nat) : Moves f k k := Moves.add k h

theorem Closed.append {f g : Frag α} (hf : Closed f) (hg : Closed g) : Closed (f ++ g) :=
  Moves.append hf hg

/-- A closed fragment between texts that open and close the same parentheses. -/
theorem Closed.wrap {f : Frag α} {pre post : String} {k : Nat} (hpre : Shifts pre 0 k)
    (hf : Closed f) (hpost : Shifts post k 0) : Closed ([.raw pre] ++ f ++ [.raw post]) :=
  ((Moves.raw hpre).append (hf.at_depth k)).append (Moves.raw hpost)

/-- Lists with a separator between them. -/
def joined {β : Type} (sep : List β) : List (List β) → List β
  | [] => []
  | [l] => l
  | l :: l' :: ls => l ++ sep ++ joined sep (l' :: ls)

theorem joined_cons {β : Type} (sep l : List β) (ls : List (List β)) :
    joined sep (l :: ls) = l ++ ls.flatMap (sep ++ ·) := by
  induction ls generalizing l with
  | nil => simp [joined]
  | cons l' ls ih => rw [joined, ih, List.flatMap_cons, List.append_assoc, List.append_assoc]

theorem Closed.joined {sep : Frag α} {fs : List (Frag α)} (hsep : Closed sep)
    (h : ∀ f ∈ fs, Closed f) : Closed (joined sep fs) := by
  induction fs with
  | nil => exact rfl
  | cons f fs ih =>
    have hrest := ih (fun g hg => h g (List.mem_cons_of_mem _ hg))
    cases fs with
    | nil => exact h f List.mem_cons_self
    | cons g fs => exact ((h f List.mem_cons_self).append hsep).append hrest

theorem shape_joined (sep : Frag α) (fs : List (Frag α)) :
    shape (SqlText.joined sep fs) = SqlText.joined (shape sep) (fs.map shape) := by
  induction fs with
  | nil => rfl
  | cons f fs ih =>
    cases fs with
    | nil => rfl
    | cons g fs => simpa [SqlText.joined] using ih

/-- A fragment in parentheses. -/
def paren (f : Frag α) : Frag α := [.raw "("] ++ f ++ [.raw ")"]

/-- A fragment tested with `IS NOT TRUE`. -/
def notTrue (f : Frag α) : Frag α := [.raw "("] ++ f ++ [.raw ") IS NOT TRUE"]

theorem Closed.paren {f : Frag α} (h : Closed f) : Closed (paren f) :=
  Closed.wrap (k := 1) rfl h rfl

theorem Closed.notTrue {f : Frag α} (h : Closed f) : Closed (notTrue f) :=
  Closed.wrap (k := 1) rfl h rfl

theorem not_mem_of_scan {cs : List Char} : ∀ {place place' : Nat × Bool},
    scan place cs = some place' → '?' ∉ cs := by
  induction cs with
  | nil => simp
  | cons c cs ih =>
    intro place place' h
    simp only [scan, List.foldlM_cons, Option.bind_eq_bind, Option.bind_eq_some_iff] at h
    obtain ⟨place₁, hc, hcs⟩ := h
    have hne : '?' ≠ c := by
      intro hmark
      simp [scanChar, ← hmark] at hc
    simp [hne, ih hcs]

theorem Moves.clean {f : Frag α} {a b : Nat} (h : Moves f a b) : Clean f := by
  have hgen : ∀ (f : Frag α) {place place' : Nat × Bool},
      f.foldlM scanWrite place = some place' → Clean f := by
    intro f
    induction f with
    | nil =>
      intro _ _ _ s hs
      cases hs
    | cons w f ih =>
      intro place place' h s hs
      simp only [List.foldlM_cons, Option.bind_eq_bind, Option.bind_eq_some_iff] at h
      obtain ⟨place₁, hw, hf⟩ := h
      obtain hs | hs := List.mem_cons.mp hs
      · rw [← hs] at hw
        exact not_mem_of_scan hw
      · exact ih hf s hs
  exact hgen f h

end moves

/-! Fragments with no `AND` and no `OR` of their own. -/

/-- Characters of a word: a name, a number or a keyword. -/
def isWordChar (c : Char) : Bool := c.isAlphanum || c == '_'

/-- `AND` or `OR`, in any case. -/
def isJoiner (word : List Char) : Bool :=
  word.map Char.toUpper == ['A', 'N', 'D'] || word.map Char.toUpper == ['O', 'R']

/-- Where a text has been read to, with the word it is in outside parentheses and quotes. -/
structure Outer where
  depth : Nat
  quoted : Bool
  word : List Char

/-- The start of a text read from a depth of open parentheses. -/
def Outer.at (depth : Nat) : Outer := ⟨depth, false, []⟩

/-- One character; no word outside parentheses may be a joiner. -/
def guardChar (o : Outer) (c : Char) : Option Outer :=
  if o.depth = 0 ∧ o.quoted = false then
    if isWordChar c then some { o with word := o.word ++ [c] }
    else if isJoiner o.word then none
    else (scanChar (0, false) c).map (fun place => ⟨place.1, place.2, []⟩)
  else (scanChar (o.depth, o.quoted) c).map (fun place => ⟨place.1, place.2, []⟩)

def guard (o : Outer) (cs : List Char) : Option Outer := cs.foldlM guardChar o

/-- `s`, read from `a` open parentheses, leaves `b` open and ends no word. -/
def GuardsText (s : String) (a b : Nat) : Prop := guard (.at a) s.toList = some (.at b)

theorem scanChar_word {c : Char} (hc : isWordChar c = true) (d : Nat) :
    scanChar (d, false) c = some (d, false) := by
  have hne (x : Char) (hx : isWordChar x = false) : c ≠ x := by
    rintro rfl
    rw [hc] at hx
    cases hx
  simp [scanChar, hne '?' rfl, hne '\'' rfl, hne '(' rfl, hne ')' rfl]

/-- What is guarded is also scanned. -/
theorem scanChar_of_guardChar {o o' : Outer} {c : Char} (h : guardChar o c = some o') :
    scanChar (o.depth, o.quoted) c = some (o'.depth, o'.quoted) := by
  unfold guardChar at h
  split at h
  · next hplace =>
    rw [hplace.1, hplace.2]
    split at h
    · next hword =>
      cases h
      rw [scanChar_word hword, hplace.1, hplace.2]
    split at h
    · cases h
    · obtain ⟨place, hplace', rfl⟩ := Option.map_eq_some_iff.mp h
      exact hplace'
  · obtain ⟨place, hplace', rfl⟩ := Option.map_eq_some_iff.mp h
    exact hplace'

theorem scan_of_guard {cs : List Char} : ∀ {o o' : Outer}, guard o cs = some o' →
    scan (o.depth, o.quoted) cs = some (o'.depth, o'.quoted) := by
  induction cs with
  | nil =>
    intro o o' h
    obtain rfl : o = o' := by simpa [guard] using h
    rfl
  | cons c cs ih =>
    intro o o' h
    simp only [guard, List.foldlM_cons, Option.bind_eq_bind, Option.bind_eq_some_iff] at h
    obtain ⟨o₁, hc, hcs⟩ := h
    simp only [scan, List.foldlM_cons, scanChar_of_guardChar hc]
    exact ih hcs

/-- Inside parentheses every scanned text is guarded. -/
theorem guard_of_scan {cs : List Char} : ∀ {d d' : Nat} {q q' : Bool},
    scan (d, q) cs = some (d', q') →
      guard ⟨d + 1, q, []⟩ cs = some ⟨d' + 1, q', []⟩ := by
  induction cs with
  | nil =>
    intro d d' q q' h
    obtain ⟨rfl, rfl⟩ : d = d' ∧ q = q' := by simpa [scan] using h
    rfl
  | cons c cs ih =>
    intro d d' q q' h
    simp only [scan, List.foldlM_cons, Option.bind_eq_bind, Option.bind_eq_some_iff] at h
    obtain ⟨⟨d₁, q₁⟩, hc, hcs⟩ := h
    have hadd := scanChar_add 1 hc
    rw [Nat.add_comm 1 d, Nat.add_comm 1 d₁] at hadd
    simp only [guard, List.foldlM_cons, guardChar, Nat.add_one_ne_zero, false_and, if_false, hadd]
    exact ih hcs

namespace GuardsText

theorem literal {cs : List Char} {a b : Nat} (h : guard (.at a) cs = some (.at b)) :
    GuardsText (String.ofList cs) a b := by
  unfold GuardsText
  rw [String.toList_ofList]
  exact h

theorem append {s t : String} {a b c : Nat} (hs : GuardsText s a b) (ht : GuardsText t b c) :
    GuardsText (s ++ t) a c := by
  unfold GuardsText guard at hs ht ⊢
  rw [String.toList_append, List.foldlM_append, hs]
  exact ht

end GuardsText

theorem Shifts.guards {s : String} {a b : Nat} (h : Shifts s a b) :
    GuardsText s (a + 1) (b + 1) := guard_of_scan h

/-- `s` closes what it opens and has no joiner outside its parentheses; it may end in a
word. -/
def GuardedText (s : String) : Prop :=
  ∃ word, guard (.at 0) s.toList = some ⟨0, false, word⟩ ∧ isJoiner word = false

namespace GuardedText

theorem literal {cs : List Char} {word : List Char}
    (h : guard (.at 0) cs = some ⟨0, false, word⟩) (hword : isJoiner word = false) :
    GuardedText (String.ofList cs) := by
  refine ⟨word, ?_, hword⟩
  rw [String.toList_ofList]
  exact h

theorem shifts {s : String} (h : GuardedText s) : Shifts s 0 0 := by
  obtain ⟨word, hword, -⟩ := h
  exact scan_of_guard hword

/-- A literal that starts apart from the word before it is read as if it came first. -/
theorem guard_append {s : String} (h : GuardedText s) {c : Char} {cs : List Char}
    (hc : isWordChar c = false) :
    guard (.at 0) (s ++ String.ofList (c :: cs)).toList = guard (.at 0) (c :: cs) := by
  obtain ⟨word, hword, hjoiner⟩ := h
  have hstart : guardChar ⟨0, false, word⟩ c = guardChar (.at 0) c := by
    have hnil : isJoiner [] = false := rfl
    simp [guardChar, Outer.at, hc, hjoiner, hnil]
  unfold guard at *
  rw [String.toList_append, String.toList_ofList, List.foldlM_append, hword]
  simp only [List.foldlM_cons, ← hstart]
  rfl

theorem append {s : String} (h : GuardedText s) {c : Char} {cs : List Char} {b : Nat}
    (hc : isWordChar c = false) (ht : guard (.at 0) (c :: cs) = some (.at b)) :
    GuardsText (s ++ String.ofList (c :: cs)) 0 b := by
  unfold GuardsText
  rw [h.guard_append hc, ht]

theorem append_word {s : String} (h : GuardedText s) {c : Char} {cs word : List Char}
    (hc : isWordChar c = false) (ht : guard (.at 0) (c :: cs) = some ⟨0, false, word⟩)
    (hword : isJoiner word = false) : GuardedText (s ++ String.ofList (c :: cs)) :=
  ⟨word, by rw [h.guard_append hc, ht], hword⟩

end GuardedText

theorem GuardsText.guarded {s : String} (h : GuardsText s 0 0) : GuardedText s := ⟨[], h, rfl⟩

/-- A literal that ends in a word. -/
theorem GuardsText.append_word {s : String} {b : Nat} (h : GuardsText s 0 b)
    {cs word : List Char} (ht : guard (.at b) cs = some ⟨0, false, word⟩)
    (hword : isJoiner word = false) : GuardedText (s ++ String.ofList cs) := by
  refine ⟨word, ?_, hword⟩
  unfold GuardsText guard at *
  rw [String.toList_append, String.toList_ofList, List.foldlM_append, h]
  exact ht

section guards
variable {α : Type}

def guardWrite (o : Outer) : Write α → Option Outer
  | .raw s => guard o s.toList
  | .bound _ => if o.quoted || isJoiner o.word then none else some { o with word := [] }

/-- `f`, read from `a` open parentheses, leaves `b` open and ends no word. -/
def Guards (f : Frag α) (a b : Nat) : Prop := f.foldlM guardWrite (.at a) = some (.at b)

/-- A closed fragment with no `AND` and no `OR` outside its parentheses. -/
def Guarded (f : Frag α) : Prop :=
  ∃ word, f.foldlM guardWrite (.at 0) = some ⟨0, false, word⟩ ∧ isJoiner word = false

namespace Guards

theorem raw {s : String} {a b : Nat} (h : GuardsText s a b) : Guards ([.raw s] : Frag α) a b := by
  unfold Guards
  rw [List.foldlM_cons, guardWrite, h]
  rfl

theorem bound (v : α) (a : Nat) : Guards [.bound v] a a := rfl

theorem append {f g : Frag α} {a b c : Nat} (hf : Guards f a b) (hg : Guards g b c) :
    Guards (f ++ g) a c := by
  unfold Guards at hf hg ⊢
  rw [List.foldlM_append, hf]
  exact hg

theorem guarded {f : Frag α} (h : Guards f 0 0) : Guarded f := ⟨[], h, rfl⟩

theorem raw_guarded {s : String} (h : GuardedText s) : Guarded ([.raw s] : Frag α) := by
  obtain ⟨word, hword, hjoiner⟩ := h
  refine ⟨word, ?_, hjoiner⟩
  rw [List.foldlM_cons, guardWrite, hword]
  rfl

/-- A fragment that ends in a word, after one that does not. -/
theorem append_guarded {f g : Frag α} (hf : Guards f 0 0) (hg : Guarded g) : Guarded (f ++ g) := by
  obtain ⟨word, hword, hjoiner⟩ := hg
  refine ⟨word, ?_, hjoiner⟩
  rw [List.foldlM_append, hf]
  exact hword

end Guards

/-- Inside parentheses every fragment is guarded. -/
theorem Moves.guards {f : Frag α} {a b : Nat} (h : Moves f a b) : Guards f (a + 1) (b + 1) := by
  have hgen : ∀ (f : Frag α) {d d' : Nat} {q q' : Bool},
      f.foldlM scanWrite (d, q) = some (d', q') →
        f.foldlM guardWrite ⟨d + 1, q, []⟩ = some ⟨d' + 1, q', []⟩ := by
    intro f
    induction f with
    | nil =>
      intro d d' q q' h
      obtain ⟨rfl, rfl⟩ : d = d' ∧ q = q' := by simpa using h
      rfl
    | cons w f ih =>
      intro d d' q q' h
      simp only [List.foldlM_cons, Option.bind_eq_bind, Option.bind_eq_some_iff] at h ⊢
      obtain ⟨⟨d₁, q₁⟩, hw, hf⟩ := h
      refine ⟨⟨d₁ + 1, q₁, []⟩, ?_, ih hf⟩
      cases w with
      | raw s => exact guard_of_scan hw
      | bound v =>
        cases q with
        | true => cases hw
        | false =>
          obtain ⟨rfl, rfl⟩ : d = d₁ ∧ false = q₁ := by simpa [scanWrite] using hw
          rfl
  exact hgen f h

/-- A closed fragment inside `k + 1` parentheses. -/
theorem Closed.inside {f : Frag α} (h : Closed f) (k : Nat) : Guards f (k + 1) (k + 1) :=
  (h.at_depth k).guards

theorem Guarded.closed {f : Frag α} (h : Guarded f) : Closed f := by
  have hgen : ∀ (f : Frag α) {o o' : Outer}, f.foldlM guardWrite o = some o' →
      f.foldlM scanWrite (o.depth, o.quoted) = some (o'.depth, o'.quoted) := by
    intro f
    induction f with
    | nil =>
      intro o o' h
      obtain rfl : o = o' := by simpa using h
      rfl
    | cons w f ih =>
      intro o o' h
      simp only [List.foldlM_cons, Option.bind_eq_bind, Option.bind_eq_some_iff] at h ⊢
      obtain ⟨o₁, hw, hf⟩ := h
      refine ⟨(o₁.depth, o₁.quoted), ?_, ih hf⟩
      cases w with
      | raw s => exact scan_of_guard hw
      | bound v =>
        simp only [guardWrite] at hw
        split at hw
        · cases hw
        · next hquoted =>
          cases hw
          simp_all [scanWrite]
  obtain ⟨word, hword, -⟩ := h
  exact hgen f hword

/-- A closed fragment between texts that open and close the parentheses around it. -/
theorem Guarded.wrap {f : Frag α} {pre post : String} {k : Nat}
    (hpre : GuardsText pre 0 (k + 1)) (hf : Closed f) (hpost : GuardsText post (k + 1) 0) :
    Guarded ([.raw pre] ++ f ++ [.raw post]) :=
  (((Guards.raw hpre).append (hf.inside k)).append (Guards.raw hpost)).guarded

theorem Guarded.paren {f : Frag α} (h : Closed f) : Guarded (paren f) :=
  Guarded.wrap (k := 0) (GuardsText.literal rfl) h (GuardsText.literal rfl)

theorem Guarded.notTrue {f : Frag α} (h : Closed f) : Guarded (notTrue f) := by
  have hopen : Guards ([.raw "("] : Frag α) 0 1 := .raw (.literal rfl)
  have hclose : ([.raw ") IS NOT TRUE"] : Frag α).foldlM guardWrite (.at 1) =
      some ⟨0, false, ['T', 'R', 'U', 'E']⟩ := rfl
  refine ⟨['T', 'R', 'U', 'E'], ?_, rfl⟩
  rw [SqlText.notTrue, List.foldlM_append, hopen.append (h.inside 0)]
  exact hclose

end guards

end SqlText

import Mathlib

/- Text as Rust's standard library cuts it: Unicode white space, trimming, the
   split at white space, and pieces joined by a one-character delimiter.

   1. `trim` and `splitWhitespace` are `str::trim` and `str::split_whitespace`,
      over the Unicode `White_Space` property (`isWhitespace`); `sqlTrim` is SQLite's
      narrower `TRIM`.
   2. `sortedSet` is a `sort_unstable` followed by `dedup`: it lists the set of
      its argument's members, each once, in order (`sortedSet_eq_iff`).
   3. Pieces that do not hold the delimiter are read back from what
      `intercalate` makes of them (`intercalate_inj`), so text built by joining
      such pieces determines them. -/
namespace Text

/-- The Unicode `White_Space` property, which `char::is_whitespace` reads. -/
def isWhitespace (c : Char) : Bool :=
  let n := c.toNat
  (9 ≤ n && n ≤ 13) || n == 0x20 || n == 0x85 || n == 0xA0 || n == 0x1680 ||
    (0x2000 ≤ n && n ≤ 0x200A) || n == 0x2028 || n == 0x2029 || n == 0x202F ||
    n == 0x205F || n == 0x3000

/-- `cs` without the white space at either end. -/
def trimChars (cs : List Char) : List Char :=
  (cs.dropWhile isWhitespace).rdropWhile isWhitespace

/-- `str::trim`. -/
def trim (s : String) : String := String.ofList (trimChars s.toList)

/-- SQLite's `TRIM(s)`, which takes off spaces only. -/
def sqlTrim (s : String) : String :=
  String.ofList ((s.toList.dropWhile (· == ' ')).rdropWhile (· == ' '))

/-- `str::split_whitespace`: the non-empty runs between white space. -/
def splitWhitespace (s : String) : List String :=
  ((s.toList.splitOnP isWhitespace).filter (fun run => !run.isEmpty)).map String.ofList

/-- `str::to_ascii_lowercase`. -/
def toAsciiLower (s : String) : String := String.ofList (s.toList.map Char.toLower)

/-- `str::strip_prefix`. -/
def stripPrefix (p s : String) : Option String :=
  if p.toList.isPrefixOf s.toList then some (String.ofList (s.toList.drop p.length)) else none

/-- `str::strip_suffix`. -/
def stripSuffix (p s : String) : Option String :=
  if p.toList.isSuffixOf s.toList then
    some (String.ofList (s.toList.take (s.length - p.length)))
  else none

/-- The characters before and after the first `sep`. -/
def splitOnceChars (sep : List Char) : List Char → Option (List Char × List Char)
  | [] => if sep.isEmpty then some ([], []) else none
  | c :: cs =>
    if sep.isPrefixOf (c :: cs) then some ([], (c :: cs).drop sep.length)
    else (splitOnceChars sep cs).map (fun p => (c :: p.1, p.2))

/-- `str::split_once`. -/
def splitOnce (sep s : String) : Option (String × String) :=
  (splitOnceChars sep.toList s.toList).map (fun p => (String.ofList p.1, String.ofList p.2))

/-- A slice of text sorted with `sort_unstable` and cleared of repeats with `dedup`. -/
def sortedSet (l : List String) : List String :=
  (l.insertionSort (· ≤ ·)).destutter (· ≠ ·)

/-! The first delimiter. -/

/-- `split_once` cuts at the first place where the delimiter stands. -/
theorem splitOnceChars_first {sep : List Char} (hsep : sep ≠ []) : ∀ {cs x y : List Char},
    splitOnceChars sep cs = some (x, y) →
      cs = x ++ (sep ++ y) ∧ ∀ a b, x = a ++ b → b ≠ [] → ¬ sep <+: b ++ (sep ++ y)
  | [], x, y, h => by simp [splitOnceChars, hsep] at h
  | c :: cs, x, y, h => by
    rw [splitOnceChars] at h
    split at h
    · next hpre =>
      obtain ⟨rfl, rfl⟩ := by simpa using h
      have hcut := List.prefix_iff_eq_append.mp (List.isPrefixOf_iff_prefix.mp hpre)
      refine ⟨hcut.symm, ?_⟩
      intro a b hab hne
      exact absurd (List.append_eq_nil_iff.mp hab.symm).2 hne
    · next hpre =>
      cases hrest : splitOnceChars sep cs with
      | none => simp [hrest] at h
      | some p =>
        obtain ⟨x', y'⟩ := p
        obtain ⟨rfl, rfl⟩ := by simpa [hrest] using h
        obtain ⟨rfl, hfirst⟩ := splitOnceChars_first hsep hrest
        refine ⟨rfl, ?_⟩
        intro a b hab hne hb
        cases a with
        | nil =>
          rw [List.nil_append] at hab
          subst hab
          exact hpre (List.isPrefixOf_iff_prefix.mpr hb)
        | cons d a =>
          obtain ⟨-, rfl⟩ := List.cons.inj hab
          exact hfirst a b rfl hne hb

theorem splitOnceChars_none {sep : List Char} : ∀ {cs : List Char},
    splitOnceChars sep cs = none → ∀ a b, cs = a ++ b → b ≠ [] → ¬ sep <+: b
  | [], _, a, b, hab, hne, _ => hne (List.append_eq_nil_iff.mp hab.symm).2
  | c :: cs, h, a, b, hab, hne, hb => by
    rw [splitOnceChars] at h
    split at h
    · cases h
    · next hpre =>
      cases a with
      | nil =>
        rw [List.nil_append] at hab
        subst hab
        exact hpre (List.isPrefixOf_iff_prefix.mpr hb)
      | cons d a =>
        obtain ⟨-, rfl⟩ := List.cons.inj hab
        exact splitOnceChars_none (Option.map_eq_none_iff.mp h) a b rfl hne hb

theorem splitOnceChars_of_notMem {sep : List Char} {d : Char} (hd : d ∈ sep) {cs : List Char}
    (h : d ∉ cs) : splitOnceChars sep cs = none := by
  cases hsplit : splitOnceChars sep cs with
  | none => rfl
  | some p =>
    obtain ⟨x, y⟩ := p
    have hcs := (splitOnceChars_first (List.ne_nil_of_mem hd) hsplit).1
    exact absurd (by rw [hcs]; simp [hd]) h

/-- A character is the delimiter or in one of the parts. -/
theorem mem_part_of_splitOn {d : Char} : ∀ {cs : List Char}, ∀ c ∈ cs,
    c = d ∨ ∃ p ∈ cs.splitOn d, c ∈ p
  | x :: cs, c, hc => by
    have ih := @mem_part_of_splitOn d cs
    obtain ⟨p, ps, hps⟩ := List.exists_cons_of_ne_nil (List.splitOn_ne_nil d cs)
    rw [List.splitOn_cons_eq_if_modifyHead, hps]
    rw [hps] at ih
    split
    · next hx =>
      rcases List.mem_cons.mp hc with rfl | hc
      · exact .inl (eq_of_beq hx)
      · rcases ih c hc with hd | ⟨q, hq, hcq⟩
        · exact .inl hd
        · exact .inr ⟨q, List.mem_cons_of_mem _ hq, hcq⟩
    · rcases List.mem_cons.mp hc with rfl | hc
      · exact .inr ⟨c :: p, List.mem_cons_self, List.mem_cons_self⟩
      · rcases ih c hc with hd | ⟨q, hq, hcq⟩
        · exact .inl hd
        · rcases List.mem_cons.mp hq with rfl | hq
          · exact .inr ⟨x :: q, List.mem_cons_self, List.mem_cons_of_mem _ hcq⟩
          · exact .inr ⟨q, List.mem_cons_of_mem _ hq, hcq⟩

/-! Trimming. -/

theorem trimChars_eq_self {cs : List Char} (hhead : ∀ c ∈ cs.head?, isWhitespace c = false)
    (hlast : ∀ c ∈ cs.getLast?, isWhitespace c = false) : trimChars cs = cs := by
  have hdrop : cs.dropWhile isWhitespace = cs := by
    cases cs with
    | nil => rfl
    | cons c rest => rw [List.dropWhile_cons_of_neg]; simpa using hhead c rfl
  unfold trimChars
  rw [hdrop, List.rdropWhile_eq_self_iff]
  intro hne
  have := hlast (cs.getLast hne) (List.getLast?_eq_getLast_of_ne_nil hne)
  simp [this]

theorem head?_trimChars (cs : List Char) : ∀ c ∈ (trimChars cs).head?, isWhitespace c = false := by
  intro c hc
  have hpre : trimChars cs <+: cs.dropWhile isWhitespace := List.rdropWhile_prefix _ _
  obtain ⟨suffix, hsuffix⟩ := hpre
  cases htrim : trimChars cs with
  | nil => rw [htrim] at hc; cases hc
  | cons d rest =>
    rw [htrim] at hc hsuffix
    obtain rfl : d = c := by simpa using hc
    have hhead := List.head?_dropWhile_not isWhitespace cs
    rw [← hsuffix] at hhead
    simpa using hhead

theorem getLast?_trimChars (cs : List Char) :
    ∀ c ∈ (trimChars cs).getLast?, isWhitespace c = false := by
  intro c hc
  cases htrim : trimChars cs with
  | nil => rw [htrim] at hc; cases hc
  | cons d rest =>
    have hne : trimChars cs ≠ [] := by rw [htrim]; exact List.cons_ne_nil _ _
    rw [List.getLast?_eq_getLast_of_ne_nil hne] at hc
    obtain rfl : (trimChars cs).getLast hne = c := by simpa using hc
    have := List.rdropWhile_last_not isWhitespace (cs.dropWhile isWhitespace) hne
    simpa [trimChars] using this

theorem trimChars_trimChars (cs : List Char) : trimChars (trimChars cs) = trimChars cs :=
  trimChars_eq_self (head?_trimChars cs) (getLast?_trimChars cs)

theorem trim_trim (s : String) : trim (trim s) = trim s := by
  simp [trim, trimChars_trimChars]

/-- What `trim` takes off is white space, at both ends. -/
theorem trimChars_parts (cs : List Char) : ∃ a b, cs = a ++ (trimChars cs ++ b) ∧
    (∀ c ∈ a, isWhitespace c = true) ∧ ∀ c ∈ b, isWhitespace c = true := by
  refine ⟨cs.takeWhile isWhitespace, (cs.dropWhile isWhitespace).rtakeWhile isWhitespace, ?_, ?_, ?_⟩
  · rw [trimChars, List.rdropWhile_append_rtakeWhile, List.takeWhile_append_dropWhile]
  · exact fun c hc => List.mem_takeWhile_imp hc
  · exact fun c hc => List.mem_rtakeWhile_imp hc

theorem rdropWhile_append_of_all {p : Char → Bool} (cs : List Char) :
    ∀ {b : List Char}, (∀ c ∈ b, p c = true) → (cs ++ b).rdropWhile p = cs.rdropWhile p := by
  intro b
  induction b using List.reverseRecOn with
  | nil => simp
  | append_singleton b c ih =>
    intro hb
    rw [← List.append_assoc, List.rdropWhile_concat_pos _ _ _ (hb c (by simp))]
    exact ih fun x hx => hb x (by simp [hx])

/-- White space around a text is what `trim` takes off. -/
theorem trimChars_between {a b : List Char} (core : List Char) (ha : ∀ c ∈ a, isWhitespace c = true)
    (hb : ∀ c ∈ b, isWhitespace c = true) :
    trimChars (a ++ (core ++ b)) = trimChars core := by
  rw [trimChars, List.dropWhile_append_of_pos ha, List.dropWhile_append]
  split
  · next hnil =>
    have hnil' : core.dropWhile isWhitespace = [] := by simpa using hnil
    rw [trimChars, hnil', List.rdropWhile_nil, List.rdropWhile_eq_nil_iff]
    exact fun c hc => hb c ((List.dropWhile_suffix _).mem hc)
  · rw [rdropWhile_append_of_all _ hb, trimChars]

/-! Sorted sets. -/

theorem sortedSet_isChain (l : List String) : (sortedSet l).IsChain (· < ·) := by
  have hle : (sortedSet l).Pairwise (· ≤ ·) :=
    (List.pairwise_insertionSort (· ≤ ·) l).sublist (List.destutter_sublist _ _)
  have hne : (sortedSet l).IsChain (· ≠ ·) := List.isChain_destutter _ _
  have hchain := hle.isChain
  revert hchain hne
  generalize sortedSet l = m
  intro hne hle
  induction m with
  | nil => exact List.isChain_nil
  | cons a rest ih =>
    cases rest with
    | nil => exact List.isChain_singleton _
    | cons b rest =>
      rw [List.isChain_cons_cons] at hne hle ⊢
      exact ⟨lt_of_le_of_ne hle.1 hne.1, ih hne.2 hle.2⟩

theorem sortedSet_sortedLT (l : List String) : (sortedSet l).SortedLT :=
  List.sortedLT_iff_isChain.mpr (sortedSet_isChain l)

/-- Clearing neighbours that repeat loses no member. -/
theorem mem_destutter' {α : Type} [DecidableEq α] {x : α} : ∀ (l : List α) (a : α),
    x ∈ l.destutter' (· ≠ ·) a ↔ x = a ∨ x ∈ l
  | [], a => by simp
  | b :: l, a => by
    by_cases hab : a = b
    · subst hab
      rw [List.destutter'_cons_neg l (by simp), mem_destutter' l a]
      simp
    · rw [List.destutter'_cons_pos l hab, List.mem_cons, mem_destutter' l b, List.mem_cons]

theorem mem_sortedSet {l : List String} {x : String} : x ∈ sortedSet l ↔ x ∈ l := by
  unfold sortedSet
  rw [← List.mem_insertionSort (· ≤ ·) (l := l)]
  cases l.insertionSort (· ≤ ·) with
  | nil => simp
  | cons a rest => rw [List.destutter_cons', mem_destutter', List.mem_cons]

/-- Two lists have one sorted set when they have the same members. -/
theorem sortedSet_eq_iff {l m : List String} :
    sortedSet l = sortedSet m ↔ ∀ x, x ∈ l ↔ x ∈ m := by
  constructor
  · intro h x
    rw [← mem_sortedSet (l := l), h, mem_sortedSet]
  · intro h
    apply (sortedSet_sortedLT l).eq_of_mem_iff (sortedSet_sortedLT m)
    intro x
    rw [mem_sortedSet, mem_sortedSet, h x]

/-! Pieces joined by a delimiter. -/

/-- Pieces free of the delimiter are determined by their join. -/
theorem intercalate_inj {α : Type} [BEq α] [LawfulBEq α] {d : α} {ls ms : List (List α)}
    (hl : ∀ p ∈ ls, d ∉ p) (hm : ∀ p ∈ ms, d ∉ p) (hls : ls ≠ []) (hms : ms ≠ [])
    (h : [d].intercalate ls = [d].intercalate ms) : ls = ms := by
  rw [← List.splitOn_intercalate d hl hls, h, List.splitOn_intercalate d hm hms]

/-- Text free of the delimiter stays at the front of the first piece. -/
theorem splitOn_append_of_notMem {α : Type} [BEq α] [LawfulBEq α] {d : α} (y : List α) :
    ∀ {x : List α}, d ∉ x → (x ++ y).splitOn d = (y.splitOn d).modifyHead (x ++ ·)
  | [], _ => by
    obtain ⟨p, ps, hps⟩ := List.exists_cons_of_ne_nil (List.splitOn_ne_nil d y)
    simp [hps]
  | c :: x, h => by
    obtain ⟨p, ps, hps⟩ := List.exists_cons_of_ne_nil (List.splitOn_ne_nil d y)
    have hc : (c == d) = false := by
      rw [beq_eq_false_iff_ne]
      rintro rfl
      exact h List.mem_cons_self
    rw [List.cons_append, List.splitOn_cons_eq_if_modifyHead, hc,
      splitOn_append_of_notMem y (fun hx => h (List.mem_cons_of_mem _ hx)), hps]
    rfl

end Text

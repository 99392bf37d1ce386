import MessageCrate.Lib.Text

/- Text as lines.

   A text is its lines joined by line feeds: `List.splitOn '\n'` takes them apart and
   `joinLines` puts them together. Lines written with a line feed each (`written`) are read
   back with one empty line after them (`splitOn_written`). A line that ends in a carriage
   return ended in CRLF: `stripCr` is what is left of it, and line by line it does to a text
   what `crlfToLf` does (`crlfToLf_eq`). -/
namespace Lines

/-- `lines.join("\n")`. -/
def joinLines (ls : List (List Char)) : List Char := ['\n'].intercalate ls

/-- Lines written with `writeln!`. -/
def written (ls : List (List Char)) : List Char := ls.flatMap (· ++ ['\n'])

/-- `line.strip_suffix('\r').unwrap_or(line)`. -/
def stripCr (l : List Char) : List Char := if l.getLast? = some '\r' then l.dropLast else l

/-- Every CRLF turned into LF. -/
def crlfToLf : List Char → List Char
  | [] => []
  | '\r' :: '\n' :: cs => '\n' :: crlfToLf cs
  | c :: cs => c :: crlfToLf cs

/-- No line feed in the line. -/
def IsLine (l : List Char) : Prop := '\n' ∉ l

section lines
variable {l : List Char} {ls ms : List (List Char)}

theorem isLine_of_mem_splitOn : ∀ {cs l : List Char}, l ∈ cs.splitOn '\n' → IsLine l
  | [], l, h => by
    obtain rfl : l = [] := by simpa using h
    exact List.not_mem_nil
  | c :: cs, l, h => by
    rw [List.splitOn_cons_eq_if_modifyHead] at h
    split at h
    · rcases List.mem_cons.mp h with rfl | hmem
      · exact List.not_mem_nil
      · exact isLine_of_mem_splitOn hmem
    · next hc =>
      obtain ⟨p, ps, hps⟩ := List.exists_cons_of_ne_nil (List.splitOn_ne_nil '\n' cs)
      rw [hps, List.modifyHead_cons] at h
      rcases List.mem_cons.mp h with rfl | hmem
      · have hp : IsLine p := isLine_of_mem_splitOn (hps ▸ List.mem_cons_self)
        intro hmem
        rcases List.mem_cons.mp hmem with hcr | hmem
        · exact hc (by simp [← hcr])
        · exact hp hmem
      · exact isLine_of_mem_splitOn (hps ▸ List.mem_cons_of_mem _ hmem)

theorem joinLines_splitOn (cs : List Char) : joinLines (cs.splitOn '\n') = cs :=
  List.intercalate_splitOn '\n'

theorem splitOn_written (h : ∀ l ∈ ls, IsLine l) : (written ls).splitOn '\n' = ls ++ [[]] := by
  induction ls with
  | nil => rfl
  | cons l ls ih =>
    have hl : IsLine l := h l List.mem_cons_self
    have hls := ih (fun l' hmem => h l' (List.mem_cons_of_mem _ hmem))
    rw [written, List.flatMap_cons, List.append_assoc, List.singleton_append,
      Text.splitOn_append_of_notMem _ hl, List.splitOn_cons_eq_if_modifyHead]
    rw [written] at hls
    simp [hls]

theorem joinLines_inj (hl : ∀ l ∈ ls, IsLine l) (hm : ∀ l ∈ ms, IsLine l) (hls : ls ≠ [])
    (hms : ms ≠ []) (h : joinLines ls = joinLines ms) : ls = ms :=
  Text.intercalate_inj hl hm hls hms h

theorem stripCr_start (l : List Char) : stripCr l <+: l := by
  rw [stripCr]
  split
  · exact List.dropLast_prefix l
  · exact List.prefix_rfl

theorem IsLine.stripCr (h : IsLine l) : IsLine (stripCr l) :=
  fun hmem => h ((stripCr_start l).mem hmem)

theorem stripCr_concat_cr (l : List Char) : stripCr (l ++ ['\r']) = l := by
  simp [stripCr]

theorem stripCr_cons {c : Char} (h : l ≠ [] ∨ c ≠ '\r') : stripCr (c :: l) = c :: stripCr l := by
  cases l with
  | nil =>
    have hc : c ≠ '\r' := h.resolve_left fun hne => hne rfl
    simp [stripCr, hc]
  | cons d l =>
    rw [stripCr, stripCr, List.getLast?_cons_cons]
    split
    · rfl
    · rfl

theorem joinLines_cons (h : ls ≠ []) : joinLines (l :: ls) = l ++ '\n' :: joinLines ls := by
  obtain ⟨m, ls, rfl⟩ := List.exists_cons_of_ne_nil h
  simp [joinLines, List.intercalate]

theorem stripCr_of_ne (h : l.getLast? ≠ some '\r') : stripCr l = l := if_neg h

/-- **Line by line, CRLF becomes LF.** A text whose last line ends in no carriage return is
the one case, since that one would have to stay. -/
theorem crlfToLf_eq {cs : List Char} (h : cs.getLast? ≠ some '\r') :
    crlfToLf cs = joinLines ((cs.splitOn '\n').map stripCr) := by
  fun_induction crlfToLf cs with
  | case1 => rfl
  | case2 cs ih =>
    have hcs : cs.getLast? ≠ some '\r' := by
      cases cs with
      | nil => simp
      | cons d cs => simpa [List.getLast?_cons_cons] using h
    have hsplit : ('\r' :: '\n' :: cs).splitOn '\n' = ['\r'] :: cs.splitOn '\n' := by
      simp [List.splitOn_cons_eq_if_modifyHead]
    rw [hsplit, List.map_cons, joinLines_cons (by simp), ← ih hcs]
    rfl
  | case3 c cs hcrlf ih =>
    have hcs : cs.getLast? ≠ some '\r' := by
      cases cs with
      | nil => simp
      | cons d cs => simpa [List.getLast?_cons_cons] using h
    obtain ⟨p, ps, hps⟩ := List.exists_cons_of_ne_nil (List.splitOn_ne_nil '\n' cs)
    rw [ih hcs, List.splitOn_cons_eq_if_modifyHead]
    by_cases hc : c = '\n'
    · subst hc
      rw [if_pos (by simp), List.map_cons, joinLines_cons (by simp)]
      rfl
    · have hhead : p ≠ [] ∨ c ≠ '\r' := by
        rw [or_iff_not_imp_left, not_not]
        rintro rfl rfl
        cases cs with
        | nil => simp at h
        | cons d cs =>
          by_cases hd : d = '\n'
          · exact hcrlf cs rfl (by rw [hd])
          · rw [List.splitOn_cons_eq_if_modifyHead, if_neg (by simpa using hd)] at hps
            obtain ⟨q, qs, hqs⟩ := List.exists_cons_of_ne_nil (List.splitOn_ne_nil '\n' cs)
            rw [hqs, List.modifyHead_cons] at hps
            cases hps
      rw [if_neg (by simpa using hc), hps, List.modifyHead_cons, List.map_cons, List.map_cons,
        stripCr_cons hhead]
      cases ps with
      | nil => simp [joinLines]
      | cons q ps => rw [joinLines_cons (by simp), joinLines_cons (by simp), List.cons_append]

theorem joinLines_concat (h : ls ≠ []) : joinLines (ls ++ [l]) = joinLines ls ++ '\n' :: l := by
  induction ls with
  | nil => exact absurd rfl h
  | cons m ls ih =>
    cases ls with
    | nil => simp [joinLines, List.intercalate]
    | cons m' ls =>
      have ih := ih (by simp)
      rw [List.cons_append, joinLines_cons (List.append_ne_nil_of_left_ne_nil (by simp) _), ih,
        joinLines_cons (List.cons_ne_nil m' ls), List.append_assoc, List.cons_append]

/-- Line feeds popped off the end are empty lines taken off it. -/
theorem rdropWhile_joinLines (h : ∀ l ∈ ls, IsLine l) :
    (joinLines ls).rdropWhile (· == '\n') = joinLines (ls.rdropWhile List.isEmpty) := by
  induction ls using List.reverseRecOn with
  | nil => rfl
  | append_singleton ls l ih =>
    have ih := ih (fun m hm => h m (List.mem_append_left _ hm))
    rcases eq_or_ne l [] with rfl | hl
    · rw [List.rdropWhile_concat_pos _ _ _ (by simp), ← ih]
      rcases eq_or_ne ls [] with rfl | hls
      · rfl
      · rw [joinLines_concat hls, List.rdropWhile_concat_pos _ _ _ (by simp)]
    · obtain ⟨cs, c, rfl⟩ := (List.eq_nil_or_concat' l).resolve_left hl
      have hc : ¬ ((c == '\n') = true) := by
        intro hc
        obtain rfl := beq_iff_eq.mp hc
        exact h (cs ++ ['\n']) (by simp) (by simp)
      obtain ⟨before, hjoin⟩ : ∃ before, joinLines (ls ++ [cs ++ [c]]) = before ++ [c] := by
        rcases eq_or_ne ls [] with rfl | hls
        · exact ⟨cs, by simp [joinLines, List.intercalate]⟩
        · exact ⟨joinLines ls ++ '\n' :: cs, by rw [joinLines_concat hls]; simp⟩
      rw [List.rdropWhile_concat_neg _ _ _ (by simp), hjoin]
      exact List.rdropWhile_concat_neg _ _ _ hc

end lines

end Lines

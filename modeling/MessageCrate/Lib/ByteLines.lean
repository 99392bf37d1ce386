import Mathlib.Data.List.Basic

/- Lines of bytes.

   A reader of a file takes its bytes up to each newline, and what is left after the last
   (`bodyLines`). Of whole lines laid end to end it takes the lines (`bodyLines_flatten`), and
   what follows them as one more line (`bodyLines_rest`). -/
namespace ByteLines

/-- One line of NDJSON: a text without a newline, and the newline. -/
def IsBodyLine (line : List UInt8) : Prop := ∃ text, (10 : UInt8) ∉ text ∧ line = text ++ [10]

/-- The lines of a body, each with its newline. -/
def bodyLines : List UInt8 → List (List UInt8)
  | [] => []
  | b :: bs =>
    if b = 10 then [b] :: bodyLines bs
    else match bodyLines bs with
      | [] => [[b]]
      | line :: lines => (b :: line) :: lines

theorem bodyLines_append {line rest : List UInt8} (h : IsBodyLine line) :
    bodyLines (line ++ rest) = line :: bodyLines rest := by
  obtain ⟨text, hnew, rfl⟩ := h
  induction text with
  | nil => simp [bodyLines]
  | cons b text ih =>
    have hb : b ≠ 10 := fun heq => hnew (by rw [heq]; exact List.mem_cons_self)
    have hrest := ih fun hin => hnew (List.mem_cons_of_mem b hin)
    simp only [List.append_assoc, List.cons_append, List.nil_append] at hrest ⊢
    rw [bodyLines, if_neg hb, hrest]

theorem bodyLines_flatten_append {lines : List (List UInt8)} (h : ∀ line ∈ lines, IsBodyLine line)
    (rest : List UInt8) : bodyLines (lines.flatten ++ rest) = lines ++ bodyLines rest := by
  induction lines with
  | nil => rfl
  | cons line lines ih =>
    rw [List.flatten_cons, List.append_assoc, bodyLines_append (h line List.mem_cons_self),
      ih fun l hl => h l (List.mem_cons_of_mem line hl), List.cons_append]

theorem bodyLines_flatten {lines : List (List UInt8)} (h : ∀ line ∈ lines, IsBodyLine line) :
    bodyLines lines.flatten = lines := by
  have happend := bodyLines_flatten_append h []
  simpa only [List.append_nil, bodyLines] using happend

/-- What is left after the last newline. -/
theorem bodyLines_rest {text : List UInt8} (hnew : (10 : UInt8) ∉ text) (hne : text ≠ []) :
    bodyLines text = [text] := by
  induction text with
  | nil => exact absurd rfl hne
  | cons b text ih =>
    have hb : b ≠ 10 := fun heq => hnew (by rw [heq]; exact List.mem_cons_self)
    rw [bodyLines, if_neg hb]
    by_cases htext : text = []
    · subst htext
      rfl
    · rw [ih (fun hin => hnew (List.mem_cons_of_mem b hin)) htext]

end ByteLines

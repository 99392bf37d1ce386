import Mathlib.Data.List.Basic

/- The cells of an exported address book (db/address_book.rs).

   A cell that a spreadsheet would run as a formula is written with a text mark in front, and so is
   one that such a cell is written as, however many marks it starts with. The reader takes one
   mark off.

     `FORMULA_STARTS`, `TEXT_MARK` ↔ `formulaStarts`, `textMark`
     `written_cell`                ↔ `writtenCell`
     `read_cell`                   ↔ `readCell`

   1. `readCell_writtenCell`, `not_formula_writtenCell`: a written cell reads back and is no formula.
   2. `cell_iff`: it also reads back once a spreadsheet has dropped the mark exactly when the cell
      did not start with a mark of its own. -/
namespace MessageCrate.AddressBook

def formulaStarts : List Char := ['=', '+', '-', '@', '\t', '\r']

def textMark : Char := '\''

/-- The cell starts with a character that a spreadsheet reads as a formula. -/
def startsFormula (cell : List Char) : Bool := cell.head?.any (formulaStarts.contains ·)

/-- `trim_start_matches` of the text mark. -/
def unmarked (cell : List Char) : List Char := cell.dropWhile (· == textMark)

/-- A cell as it is written. -/
def writtenCell (cell : List Char) : List Char :=
  if startsFormula (unmarked cell) then textMark :: cell else cell

/-- A cell as it is read. -/
def readCell (cell : List Char) : List Char :=
  match cell with
  | c :: rest => if c = textMark ∧ startsFormula (unmarked rest) then rest else cell
  | [] => cell

variable {cell rest : List Char}

theorem unmarked_cons_mark (rest : List Char) : unmarked (textMark :: rest) = unmarked rest :=
  List.dropWhile_cons_of_pos (beq_self_eq_true textMark)

/-- A text mark is no formula, and what starts a formula starts with no mark. -/
theorem unmarked_of_startsFormula (h : startsFormula cell = true) : unmarked cell = cell := by
  cases cell with
  | nil => rfl
  | cons c rest =>
    have hc : c ∈ formulaStarts := List.contains_iff_mem.mp h
    have hmark : textMark ∉ formulaStarts := by decide
    have hne : c ≠ textMark := fun heq => hmark (heq ▸ hc)
    exact List.dropWhile_cons_of_neg (by simpa using hne)

theorem readCell_mark (h : startsFormula (unmarked rest) = true) :
    readCell (textMark :: rest) = rest := if_pos ⟨rfl, h⟩

/-- A cell that no formula follows is read as it is. -/
theorem readCell_plain (h : startsFormula (unmarked cell) = false) : readCell cell = cell := by
  cases cell with
  | nil => rfl
  | cons c rest =>
    refine if_neg fun hread => ?_
    obtain ⟨rfl, hrest⟩ := hread
    rw [unmarked_cons_mark, hrest] at h
    cases h

/-- **A written cell reads back.** -/
theorem readCell_writtenCell (cell : List Char) : readCell (writtenCell cell) = cell := by
  rw [writtenCell]
  split
  · next h => exact readCell_mark h
  · next h => exact readCell_plain (Bool.eq_false_iff.mpr h)

/-- **A written cell is no formula.** -/
theorem not_formula_writtenCell (cell : List Char) : startsFormula (writtenCell cell) = false := by
  rw [writtenCell]
  split
  · show formulaStarts.contains textMark = false
    decide
  · next h =>
    rw [Bool.eq_false_iff]
    intro hformula
    rw [unmarked_of_startsFormula hformula] at h
    exact h hformula

/-- A cell is written with a mark exactly when a formula follows its own marks. -/
theorem writtenCell_ne_iff : writtenCell cell ≠ cell ↔ startsFormula (unmarked cell) = true := by
  rw [writtenCell]
  split
  · next h => exact ⟨fun _ => h, fun _ => List.cons_ne_self textMark cell⟩
  · next h => exact ⟨fun hne => absurd rfl hne, fun hformula => absurd hformula h⟩

/-- A cell that a formula follows is read as it is exactly when it has no mark of its own. -/
theorem readCell_eq_iff (h : startsFormula (unmarked cell) = true) :
    readCell cell = cell ↔ cell.head? ≠ some textMark := by
  cases cell with
  | nil => cases h
  | cons c rest =>
    by_cases hc : c = textMark
    · subst hc
      rw [unmarked_cons_mark] at h
      rw [readCell_mark h]
      exact ⟨fun heq => absurd heq.symm (List.cons_ne_self textMark rest), fun hne => absurd rfl hne⟩
    · exact ⟨fun _ hhead => hc (Option.some.inj hhead), fun _ => if_neg fun hread => hc hread.1⟩

/-- **The guard is undone**, by the reader and by a spreadsheet that drops the mark, exactly for
    the cells that do not start with marks which a formula follows. -/
theorem cell_iff (cell : List Char) :
    (readCell (writtenCell cell) = cell ∧ startsFormula (writtenCell cell) = false ∧
        (writtenCell cell ≠ cell → readCell cell = cell)) ↔
      ¬ (cell.head? = some textMark ∧ startsFormula (unmarked cell) = true) := by
  rw [and_iff_right (readCell_writtenCell cell), and_iff_right (not_formula_writtenCell cell),
    writtenCell_ne_iff]
  constructor
  · intro h ⟨hmark, hformula⟩
    exact (readCell_eq_iff hformula).mp (h hformula) hmark
  · intro h hformula
    exact (readCell_eq_iff hformula).mpr fun hmark => h ⟨hmark, hformula⟩

/-- The name `'=1+1` is written `''=1+1`; without the added mark it is read `=1+1`. -/
theorem marked_formula_is_lost :
    ¬ ∀ cell : List Char, readCell (writtenCell cell) = cell ∧
      startsFormula (writtenCell cell) = false ∧ (writtenCell cell ≠ cell → readCell cell = cell) := by
  intro h
  have hread : readCell "'=1+1".toList = "'=1+1".toList := (h "'=1+1".toList).2.2 (by decide)
  exact absurd hread (by decide)

end MessageCrate.AddressBook

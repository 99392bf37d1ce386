import MessageCrate.Lib.Like
import MessageCrate.Search.Negation

/- A typed text is found where it occurs, and never as a pattern
   (`like_contains` and `like_escape` of `crates/server/server/src/search/emit.rs`, with the
   `lower()` of `crates/server/server/src/db/sqlite_functions.rs`).

   The text is escaped, then SQL lowers the pattern. Lowering leaves the escapes where they
   are and makes no new metacharacter, so the lowered pattern is the lowered text escaped
   (`lower_likeEscape`), which matches as the library says.

   SQLite's `LIKE` is a parameter: a row on which the column holds `s` is a valuation that
   makes each `like column pattern` TRUE when the lowered pattern matches the lowered `s`
   (`HoldsText`). -/
namespace MessageCrate
open SqlText

/-- Unicode's lower-case mapping, as `char::to_lowercase` has it: what it says of the
metacharacters, and that no ASCII capital is left. -/
structure LowerTable where
  toLowercase : Char → List Char
  fixed : ∀ c ∈ ['%', '_', '\\', ' '], toLowercase c = [c]
  only : ∀ c, ∀ d ∈ toLowercase c, d ∈ ['%', '_', '\\'] → c = d
  small : ∀ c, Like.Folded (toLowercase c)

namespace LowerTable
variable (table : LowerTable)

/-- One letter lowered on its own. -/
def lowerLetter (c : Char) : List Char := if c = 'İ' then ['i'] else table.toLowercase c

/-- Each letter lowered on its own, never by its neighbours. -/
def lowerEachLetter (text : String) : List Char := text.toList.flatMap table.lowerLetter

variable {table}

theorem lowerLetter_fixed {c : Char} (h : c ∈ ['%', '_', '\\', ' ']) :
    table.lowerLetter c = [c] := by
  have hc : c ≠ 'İ' := by
    rintro rfl
    exact absurd h (by decide)
  rw [lowerLetter, if_neg hc, table.fixed c h]

/-- A letter that is no metacharacter lowers to none. -/
theorem lowerLetter_only {c d : Char} (hd : d ∈ table.lowerLetter c)
    (h : Like.IsMeta '\\' d) : c = d := by
  unfold lowerLetter at hd
  split at hd
  · rw [List.mem_singleton.mp hd] at h
    exact absurd h (by decide)
  · refine table.only c d hd ?_
    rcases h with rfl | rfl | rfl <;> simp

theorem folded_lowerLetter (c : Char) : Like.Folded (table.lowerLetter c) := by
  unfold lowerLetter
  split
  · intro d hd
    rw [List.mem_singleton.mp hd]
    rfl
  · exact table.small c

theorem folded_lowerEachLetter (text : String) : Like.Folded (table.lowerEachLetter text) := by
  intro d hd
  obtain ⟨c, -, hdc⟩ := List.mem_flatMap.mp hd
  exact folded_lowerLetter c d hdc

theorem lowerEachLetter_append (a b : String) :
    table.lowerEachLetter (a ++ b) = table.lowerEachLetter a ++ table.lowerEachLetter b := by
  simp [lowerEachLetter]

theorem lowerEachLetter_percent : table.lowerEachLetter "%" = ['%'] := by
  simp [lowerEachLetter, lowerLetter_fixed]

end LowerTable

section escape
variable {table : LowerTable}

/-- Letters that are no metacharacters are not escaped. -/
theorem escape_plain {w : List Char} (h : ∀ c ∈ w, ¬ Like.IsMeta '\\' c) :
    Like.escape '\\' w = w := by
  induction w with
  | nil => rfl
  | cons c w ih =>
    obtain ⟨hc, hw⟩ := List.forall_mem_cons.mp h
    calc Like.escape '\\' (c :: w) = [c] ++ Like.escape '\\' w := by simp [Like.escape, hc]
      _ = c :: w := by rw [ih hw, List.singleton_append]

/-- One letter, escaped and lowered or lowered and escaped. -/
theorem lower_escape_letter (c : Char) :
    (if Like.IsMeta '\\' c then ['\\', c] else [c]).flatMap table.lowerLetter =
      Like.escape '\\' (table.lowerLetter c) := by
  by_cases hc : Like.IsMeta '\\' c
  · have hmeta : c ∈ ['%', '_', '\\', ' '] := by
      rcases hc with rfl | rfl | rfl <;> simp
    have hback : table.lowerLetter '\\' = ['\\'] := LowerTable.lowerLetter_fixed (by simp)
    simp [hc, hback, LowerTable.lowerLetter_fixed hmeta, Like.escape]
  · have hplain : ∀ d ∈ table.lowerLetter c, ¬ Like.IsMeta '\\' d := by
      intro d hd hmeta
      exact hc (LowerTable.lowerLetter_only hd hmeta ▸ hmeta)
    simp [hc, escape_plain hplain]

/-- **Escaping commutes with lowering.** -/
theorem lower_likeEscape (t : String) :
    table.lowerEachLetter (likeEscape t) = Like.escape '\\' (table.lowerEachLetter t) := by
  have hescape : (likeEscape t).toList =
      t.toList.flatMap (fun c => if Like.IsMeta '\\' c then ['\\', c] else [c]) := by
    rw [likeEscape, String.toList_ofList]
    exact List.flatMap_congr (fun c _ => if_congr Iff.rfl rfl rfl)
  rw [LowerTable.lowerEachLetter, hescape, LowerTable.lowerEachLetter, Like.escape,
    List.flatMap_assoc, List.flatMap_assoc]
  exact List.flatMap_congr (fun c _ => lower_escape_letter c)

end escape

/-- On the row the valuation speaks of, the column holds `s`, and SQLite's `LIKE` compares
the lowered pattern with it. -/
def HoldsText (table : LowerTable) (v : Valuation) (column s : String) : Prop :=
  ∀ pattern, IsTrue v (like column pattern) ↔
    Like.likeMatches '\\' (table.lowerEachLetter pattern) (table.lowerEachLetter s) = true

section finds
variable {table : LowerTable} {column s : String} {v : Valuation}

theorem HoldsText.contains (h : HoldsText table v column s) (t : String) :
    IsTrue v (like column ("%" ++ likeEscape t ++ "%")) ↔
      table.lowerEachLetter t <:+: table.lowerEachLetter s := by
  have hpattern : table.lowerEachLetter ("%" ++ likeEscape t ++ "%") =
      '%' :: (Like.escape '\\' (table.lowerEachLetter t) ++ ['%']) := by
    simp only [LowerTable.lowerEachLetter_append, LowerTable.lowerEachLetter_percent,
      lower_likeEscape, List.cons_append, List.nil_append]
  rw [h, hpattern]
  exact Like.likeMatches_contains (by decide) (LowerTable.folded_lowerEachLetter t)
    (LowerTable.folded_lowerEachLetter s)

theorem HoldsText.starts (h : HoldsText table v column s) (t : String) :
    IsTrue v (like column (likeEscape t ++ "%")) ↔
      table.lowerEachLetter t <+: table.lowerEachLetter s := by
  rw [h, LowerTable.lowerEachLetter_append, LowerTable.lowerEachLetter_percent, lower_likeEscape]
  exact Like.likeMatches_starts (by decide) (LowerTable.folded_lowerEachLetter t)
    (LowerTable.folded_lowerEachLetter s)

/-- A space is its own text, and its own lower case. -/
theorem HoldsText.afterSpace (h : HoldsText table v column s) (t : String) :
    IsTrue v (like column ("% " ++ likeEscape t ++ "%")) ↔
      ' ' :: table.lowerEachLetter t <:+: table.lowerEachLetter s := by
  have hescaped : "% " ++ likeEscape t = "%" ++ likeEscape (" " ++ t) := by
    apply String.toList_injective
    simp [likeEscape]
  have hlower : table.lowerEachLetter (" " ++ t) = ' ' :: table.lowerEachLetter t := by
    have hspace : table.lowerLetter ' ' = [' '] := LowerTable.lowerLetter_fixed (by simp)
    simp [LowerTable.lowerEachLetter, hspace]
  rw [hescaped, h.contains, hlower]

/-- **A `LIKE` of a typed text means contains.** -/
theorem likeContains_finds (table : LowerTable) {column : String} (hcolumn : Shifts column 0 0)
    {v : Valuation} {s : String} (hrow : HoldsText table v column s) (t : String) :
    (IsTrue v (likeContains column t false) ↔
      table.lowerEachLetter t <:+: table.lowerEachLetter s) ∧
    (IsTrue v (likeContains column t true) ↔
      table.lowerEachLetter t <+: table.lowerEachLetter s ∨
      ' ' :: table.lowerEachLetter t <:+: table.lowerEachLetter s) := by
  refine ⟨hrow.contains t, ?_⟩
  have hshape : likeContains column t true = paren (joined (push " OR ")
      [like column (likeEscape t ++ "%"), like column ("% " ++ likeEscape t ++ "%")]) := by
    simp [likeContains, paren, push, joined]
  have hguarded : ∀ f ∈ [like column (likeEscape t ++ "%"),
      like column ("% " ++ likeEscape t ++ "%")], Guarded f := by
    simp only [List.mem_cons, List.not_mem_nil, or_false]
    rintro f (rfl | rfl) <;> exact guarded_like hcolumn _
  rw [hshape, isTrue_paren_or hguarded (by simp)]
  simp only [List.mem_cons, List.not_mem_nil, or_false, exists_eq_or_imp, exists_eq_left,
    hrow.starts t, hrow.afterSpace t]

end finds

/-- The letters lowered as ASCII lowers them. -/
def asciiTable : LowerTable where
  toLowercase c := [c.toLower]
  fixed := by
    intro c hc
    simp only [List.mem_cons, List.not_mem_nil, or_false] at hc
    rcases hc with rfl | rfl | rfl | rfl <;> rfl
  only c d hd hmeta := by
    obtain rfl : d = c.toLower := List.mem_singleton.mp hd
    by_cases hupper : c.isUpper
    · have hlower : c.toLower.isLower = true := by simp [Char.isAlpha, hupper]
      simp only [List.mem_cons, List.not_mem_nil, or_false] at hmeta
      rcases hmeta with h | h | h <;> simp [h] at hlower
    · exact (Char.toLower_eq_of_not_isUpper hupper).symm
  small c d hd := by
    obtain rfl : d = c.toLower := List.mem_singleton.mp hd
    exact Char.toLower_eq_of_not_isUpper (by simp)

/-- The valuation of a row whose column holds `s`: it reads the pattern bound in the tree. -/
def rowHolding (table : LowerTable) (s : String) : Valuation
  | [_, _, _, _, .group [.tok (.bound (.text pattern))], _, _] =>
    some (Like.likeMatches '\\' (table.lowerEachLetter pattern) (table.lowerEachLetter s))
  | _ => none

theorem trees_like_raw (pattern : String) : trees (like "h.raw" pattern) =
    [.tok (.word "lower".toList),
      .group [.tok (.word "h".toList), .tok (.mark '.'), .tok (.word "raw".toList)],
      .tok (.word "LIKE".toList), .tok (.word "lower".toList),
      .group [.tok (.bound (.text pattern))], .tok (.word "ESCAPE".toList),
      .tok (.quoted ['\\'])] := rfl

theorem rowHolding_raw (table : LowerTable) (s : String) :
    HoldsText table (rowHolding table s) "h.raw" s := by
  intro pattern
  have hclosed : Closed (like "h.raw" pattern) := (guarded_like (.literal rfl) pattern).closed
  have heval : eval (rowHolding table s) (trees (like "h.raw" pattern)) =
      some (Like.likeMatches '\\' (table.lowerEachLetter pattern) (table.lowerEachLetter s)) := by
    rw [trees_like_raw, Operand.eval (by simp [Operand, isKeyword, Tree.keyword?])]
    rfl
  rw [isTrue_iff hclosed, heval, Option.some_inj]

/-- A `%` typed is a `%` of the column, and a word's start is looked for after a space. -/
theorem likeContains_finds_percent :
    IsTrue (rowHolding asciiTable "Now 50% OFF") (likeContains "h.raw" "0% o" false) ∧
    ¬ IsTrue (rowHolding asciiTable "Now 50% OFF") (likeContains "h.raw" "5%o" false) ∧
    IsTrue (rowHolding asciiTable "Now 50% OFF") (likeContains "h.raw" "of" true) ∧
    ¬ IsTrue (rowHolding asciiTable "Now 50% OFF") (likeContains "h.raw" "0%" true) := by
  have hrow := rowHolding_raw asciiTable "Now 50% OFF"
  have hcolumn : Shifts "h.raw" 0 0 := .literal rfl
  refine ⟨(likeContains_finds asciiTable hcolumn hrow "0% o").1.mpr ?_,
    fun h => absurd ((likeContains_finds asciiTable hcolumn hrow "5%o").1.mp h) ?_,
    (likeContains_finds asciiTable hcolumn hrow "of").2.mpr ?_,
    fun h => absurd ((likeContains_finds asciiTable hcolumn hrow "0%").2.mp h) ?_⟩ <;> decide

end MessageCrate

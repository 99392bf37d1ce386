import MessageCrate.Lib.Text

/- Lower case, as `str::to_lowercase` has it.

   Each letter is lowered by Unicode's table, except that a capital sigma looks at its
   neighbours: at the end of a word it is `ς`, elsewhere `σ`. The table and the test for a
   word's end are parameters; what is used of the table is that it settles (a lowered letter
   lowers to itself) and makes no white space. So lowering twice is lowering once
   (`toLowercase_toLowercase`), and a trimmed text stays trimmed (`trim_toLowercase`). -/
namespace Casing
open Text

/-- Unicode's lower-case mapping, letter by letter. -/
structure Table where
  lower : Char → List Char
  ne_nil : ∀ c, lower c ≠ []
  settled : ∀ c, ∀ d ∈ lower c, lower d = [d]
  small : ∀ c, c.toNat < 128 → c.isUpper = false → lower c = [c]
  sigma : lower 'Σ' = ['σ'] ∧ lower 'ς' = ['ς']
  space : ∀ c, isWhitespace c = false → ∀ d ∈ lower c, isWhitespace d = false

section
variable (table : Table) (wordFinal : List Char → List Char → Bool)

/-- One letter, between the text before it and the text after it. -/
def lowerLetter (before : List Char) (c : Char) (rest : List Char) : List Char :=
  if c = 'Σ' then [if wordFinal before rest then 'ς' else 'σ'] else table.lower c

def lowerFrom : List Char → List Char → List Char
  | _, [] => []
  | before, c :: rest =>
    lowerLetter table wordFinal before c rest ++ lowerFrom (before ++ [c]) rest

/-- `str::to_lowercase`. -/
def toLowercase (s : String) : String := String.ofList (lowerFrom table wordFinal [] s.toList)

variable {table wordFinal} {before rest cs : List Char} {c d : Char}

theorem lowerLetter_ne_nil (before : List Char) (c : Char) (rest : List Char) :
    lowerLetter table wordFinal before c rest ≠ [] := by
  unfold lowerLetter
  split
  · exact List.cons_ne_nil _ _
  · exact table.ne_nil c

/-- A lowered letter is no capital sigma, and lowers to itself. -/
theorem lowerLetter_settled (hd : d ∈ lowerLetter table wordFinal before c rest) :
    d ≠ 'Σ' ∧ table.lower d = [d] := by
  obtain ⟨hsigma, hfinal⟩ := table.sigma
  unfold lowerLetter at hd
  split at hd
  · split at hd
    · obtain rfl := List.mem_singleton.mp hd
      exact ⟨by decide, hfinal⟩
    · obtain rfl := List.mem_singleton.mp hd
      exact ⟨by decide, table.settled 'Σ' 'σ' (by rw [hsigma]; exact List.mem_singleton.mpr rfl)⟩
  · have hsettled := table.settled c d hd
    refine ⟨?_, hsettled⟩
    rintro rfl
    rw [hsigma] at hsettled
    exact absurd hsettled (by decide)

theorem lowerLetter_space (hc : isWhitespace c = false)
    (hd : d ∈ lowerLetter table wordFinal before c rest) : isWhitespace d = false := by
  unfold lowerLetter at hd
  split at hd
  · split at hd <;> (obtain rfl := List.mem_singleton.mp hd; decide)
  · exact table.space c hc d hd

theorem mem_lowerFrom (hd : d ∈ lowerFrom table wordFinal before cs) :
    ∃ before' c rest, c ∈ cs ∧ d ∈ lowerLetter table wordFinal before' c rest := by
  induction cs generalizing before with
  | nil => exact absurd hd List.not_mem_nil
  | cons c cs ih =>
    rcases List.mem_append.mp hd with hd | hd
    · exact ⟨before, c, cs, List.mem_cons_self, hd⟩
    · obtain ⟨before', c', rest, hc', hd'⟩ := ih hd
      exact ⟨before', c', rest, List.mem_cons_of_mem _ hc', hd'⟩

/-- Lowered letters lower to themselves, whatever stands around them. -/
theorem lowerFrom_eq_self (h : ∀ c ∈ cs, c ≠ 'Σ' ∧ table.lower c = [c]) :
    lowerFrom table wordFinal before cs = cs := by
  induction cs generalizing before with
  | nil => rfl
  | cons c cs ih =>
    obtain ⟨⟨hsigma, hc⟩, hcs⟩ := List.forall_mem_cons.mp h
    rw [lowerFrom, lowerLetter, if_neg hsigma, hc, ih hcs, List.singleton_append]

theorem toLowercase_toLowercase (s : String) :
    toLowercase table wordFinal (toLowercase table wordFinal s) =
      toLowercase table wordFinal s := by
  have hsettled : ∀ c ∈ lowerFrom table wordFinal [] s.toList, c ≠ 'Σ' ∧ table.lower c = [c] := by
    intro c hc
    obtain ⟨_, _, _, -, hletter⟩ := mem_lowerFrom hc
    exact lowerLetter_settled hletter
  rw [toLowercase, toLowercase, String.toList_ofList, lowerFrom_eq_self hsettled]

theorem mem_lowerFrom_of (hc : c ∈ cs)
    (hd : ∀ before rest, d ∈ lowerLetter table wordFinal before c rest) :
    d ∈ lowerFrom table wordFinal before cs := by
  induction cs generalizing before with
  | nil => exact absurd hc List.not_mem_nil
  | cons e cs ih =>
    rcases List.mem_cons.mp hc with rfl | hc
    · exact List.mem_append_left _ (hd before cs)
    · exact List.mem_append_right _ (ih hc)

/-- An ASCII character that is no capital is still there in lower case. -/
theorem mem_toLowercase {s : String} (hascii : c.toNat < 128) (hsmall : c.isUpper = false)
    (hc : c ∈ s.toList) : c ∈ (toLowercase table wordFinal s).toList := by
  have hsigma : c ≠ 'Σ' := by
    rintro rfl
    exact absurd hascii (by decide)
  rw [toLowercase, String.toList_ofList]
  refine mem_lowerFrom_of hc (fun before rest => ?_)
  rw [lowerLetter, if_neg hsigma, table.small c hascii hsmall]
  exact List.mem_singleton.mpr rfl

/-- What stands after a text is lowered after it. -/
theorem lowerFrom_append (cs ds : List Char) :
    ∃ front, lowerFrom table wordFinal before (cs ++ ds) =
      front ++ lowerFrom table wordFinal (before ++ cs) ds := by
  induction cs generalizing before with
  | nil => exact ⟨[], by rw [List.append_nil, List.nil_append, List.nil_append]⟩
  | cons c cs ih =>
    obtain ⟨front, hfront⟩ : ∃ front, lowerFrom table wordFinal (before ++ [c]) (cs ++ ds) =
        front ++ lowerFrom table wordFinal (before ++ [c] ++ cs) ds := ih
    refine ⟨lowerLetter table wordFinal before c (cs ++ ds) ++ front, ?_⟩
    rw [List.cons_append, lowerFrom, hfront, List.append_assoc before, List.singleton_append,
      List.append_assoc]

theorem head?_lowerFrom (h : ∀ c ∈ cs.head?, isWhitespace c = false) :
    ∀ c ∈ (lowerFrom table wordFinal before cs).head?, isWhitespace c = false := by
  cases cs with
  | nil => exact h
  | cons c cs =>
    have hne : lowerLetter table wordFinal before c cs ≠ [] := lowerLetter_ne_nil before c cs
    obtain ⟨d, ds, hds⟩ := List.exists_cons_of_ne_nil hne
    intro e he
    rw [lowerFrom, hds, List.cons_append, List.head?_cons] at he
    obtain rfl : d = e := by simpa using he
    exact lowerLetter_space (h c rfl) (hds ▸ List.mem_cons_self)

theorem getLast?_lowerFrom (h : ∀ c ∈ cs.getLast?, isWhitespace c = false) :
    ∀ c ∈ (lowerFrom table wordFinal before cs).getLast?, isWhitespace c = false := by
  induction cs generalizing before with
  | nil => exact h
  | cons c cs ih =>
    rw [lowerFrom]
    cases cs with
    | nil =>
      intro d hd
      rw [lowerFrom, List.append_nil] at hd
      exact lowerLetter_space (h c rfl) (List.mem_of_getLast? hd)
    | cons d cs =>
      have hne : lowerFrom table wordFinal (before ++ [c]) (d :: cs) ≠ [] := by
        rw [lowerFrom]
        exact List.append_ne_nil_of_left_ne_nil (lowerLetter_ne_nil _ _ _) _
      rw [List.getLast?_append_of_ne_nil _ hne]
      exact ih (by rwa [List.getLast?_cons_cons] at h)

theorem trim_toLowercase (s : String) :
    trim (toLowercase table wordFinal (trim s)) = toLowercase table wordFinal (trim s) := by
  have htrim : (trim s).toList = trimChars s.toList := String.toList_ofList
  rw [toLowercase, trim, String.toList_ofList, htrim, trimChars_eq_self
    (head?_lowerFrom (head?_trimChars s.toList)) (getLast?_lowerFrom (getLast?_trimChars s.toList))]

end

end Casing

import MessageCrate.Lib.SqlText

/- What a SQL condition says of a row, read from its text.

   A text with its parameters is read into trees: words, quoted texts, other marks and
   bound values, and a group for each pair of parentheses. A condition is then `OR` of
   `AND`s of operands, where an operand is a group, any other run of trees (an atom), one
   of these `IS NOT TRUE`, or `NOT` an operand. A valuation gives each atom its truth
   value on a row, in SQL's three-valued logic; `none` is NULL. Keywords are read in any
   case. There are no comments, and no `BETWEEN` or `CASE` outside parentheses.

   1. `readSql_text`: the text and the parameters of a closed fragment are read as its
      writes are.
   2. `Closed.reads`: a closed fragment reads as the same trees wherever it stands.
   3. `eval_and`, `eval_or`, `eval_group` and `eval_isNotTrue`: the truth value of operands
      joined, put in parentheses, or tested with `IS NOT TRUE`. -/
namespace SqlText

/-! Three-valued logic. -/

def not3 (k : Option Bool) : Option Bool := k.map (fun b => !b)

def isNotTrue (k : Option Bool) : Option Bool := some (k != some true)

def and3 : Option Bool → Option Bool → Option Bool
  | some false, _ => some false
  | _, some false => some false
  | some true, some true => some true
  | _, _ => none

def or3 : Option Bool → Option Bool → Option Bool
  | some true, _ => some true
  | _, some true => some true
  | some false, some false => some false
  | _, _ => none

def all3 (ks : List (Option Bool)) : Option Bool := ks.foldr and3 (some true)

def any3 (ks : List (Option Bool)) : Option Bool := ks.foldr or3 (some false)

theorem and3_eq_true {j k : Option Bool} : and3 j k = some true ↔ j = some true ∧ k = some true := by
  revert j k
  decide

theorem or3_eq_true {j k : Option Bool} : or3 j k = some true ↔ j = some true ∨ k = some true := by
  revert j k
  decide

/-- A conjunction is TRUE when every part is. -/
theorem all3_eq_true {ks : List (Option Bool)} :
    all3 ks = some true ↔ ∀ k ∈ ks, k = some true := by
  induction ks with
  | nil => simp [all3]
  | cons k ks ih =>
    have hcons : all3 (k :: ks) = and3 k (all3 ks) := rfl
    rw [hcons, and3_eq_true, ih, List.forall_mem_cons]

/-- A disjunction is TRUE when some part is. -/
theorem any3_eq_true {ks : List (Option Bool)} :
    any3 ks = some true ↔ ∃ k ∈ ks, k = some true := by
  induction ks with
  | nil => simp [any3]
  | cons k ks ih =>
    have hcons : any3 (k :: ks) = or3 k (any3 ks) := rfl
    rw [hcons, or3_eq_true, ih, List.exists_mem_cons_iff]

theorem isNotTrue_eq_true {k : Option Bool} : isNotTrue k = some true ↔ k ≠ some true := by
  simp [isNotTrue]

theorem all3_singleton (k : Option Bool) : all3 [k] = k := by
  revert k
  decide

theorem any3_singleton (k : Option Bool) : any3 [k] = k := by
  revert k
  decide

/-! Reading. -/

inductive Tok (α : Type) where
  | word (cs : List Char)
  | quoted (cs : List Char)
  | mark (c : Char)
  | bound (a : α)

inductive Tree (α : Type) where
  | tok (t : Tok α)
  | group (ts : List (Tree α))

/-- A character of the text, or the value bound to a placeholder. -/
inductive Sym (α : Type) where
  | char (c : Char)
  | bound (a : α)

section reading
variable {α : Type}

/-- The text with each placeholder outside quotes replaced by its parameter. -/
def bindSyms : Bool → List Char → List α → Option (List (Sym α))
  | _, [], [] => some []
  | _, [], _ :: _ => none
  | quoted, c :: cs, ps =>
    if c = '?' ∧ quoted = false then
      match ps with
      | [] => none
      | p :: ps => (bindSyms quoted cs ps).map (.bound p :: ·)
    else (bindSyms (if c = '\'' then !quoted else quoted) cs ps).map (.char c :: ·)

/-- What has been read so far: a word and a quoted text not yet ended, and the trees of
each open parenthesis, the innermost first. -/
structure Reading (α : Type) where
  word : List Char
  quote : Option (List Char)
  levels : List (List (Tree α))

def put (t : Tree α) : List (List (Tree α)) → List (List (Tree α))
  | [] => [[t]]
  | l :: ls => (l ++ [t]) :: ls

/-- The reading with its word ended. -/
def Reading.flush (r : Reading α) : Reading α :=
  if r.word.isEmpty then r else ⟨[], r.quote, put (.tok (.word r.word)) r.levels⟩

def isSpace (c : Char) : Bool := c == ' ' || c == '\n' || c == '\t' || c == '\r'

def Sym.isWordChar : Sym α → Bool
  | .char c => SqlText.isWordChar c
  | .bound _ => false

/-- A character outside quotes that ends any word before it. -/
def Reading.delimit (r : Reading α) (c : Char) : Option (Reading α) :=
  if isSpace c then some r
  else if c = '\'' then some { r with quote := some [] }
  else if c = '(' then some { r with levels := [] :: r.levels }
  else if c = ')' then
    match r.levels with
    | l :: outer :: ls => some { r with levels := (outer ++ [.group l]) :: ls }
    | _ => none
  else some { r with levels := put (.tok (.mark c)) r.levels }

def Reading.step (r : Reading α) (s : Sym α) : Option (Reading α) :=
  match r.quote, s with
  | some q, .char c =>
    if c = '\'' then some { r with quote := none, levels := put (.tok (.quoted q)) r.levels }
    else some { r with quote := some (q ++ [c]) }
  | some _, .bound _ => none
  | none, .char c =>
    if isWordChar c then some { r with word := r.word ++ [c] } else r.flush.delimit c
  | none, .bound a => some { r.flush with levels := put (.tok (.bound a)) r.flush.levels }

def Reading.run (r : Reading α) (ss : List (Sym α)) : Option (Reading α) :=
  ss.foldlM Reading.step r

/-- Nothing pending, and these open parentheses. -/
def Reading.at (levels : List (List (Tree α))) : Reading α := ⟨[], none, levels⟩

/-- The trees of a whole text, where every quote and parenthesis closes. -/
def read (ss : List (Sym α)) : Option (List (Tree α)) :=
  match (Reading.at [[]]).run ss with
  | none => none
  | some r =>
    match r.quote, r.flush.levels with
    | none, [l] => some l
    | _, _ => none

def readSql (text : String) (params : List α) : Option (List (Tree α)) :=
  (bindSyms false text.toList params).bind read

def Write.syms : Write α → List (Sym α)
  | .raw s => s.toList.map .char
  | .bound a => [.bound a]

def syms (f : Frag α) : List (Sym α) := f.flatMap Write.syms

theorem syms_append (f g : Frag α) : syms (f ++ g) = syms f ++ syms g := List.flatMap_append

/-! Binding the parameters of a fragment's text gives back its writes. -/

theorem bindSyms_char {quoted : Bool} {c : Char} (hc : c ≠ '?') (cs : List Char) (ps : List α) :
    bindSyms quoted (c :: cs) ps =
      (bindSyms (if c = '\'' then !quoted else quoted) cs ps).map (.char c :: ·) := by
  rw [bindSyms.eq_def]
  simp [hc]

theorem bindSyms_mark (cs : List Char) (p : α) (ps : List α) :
    bindSyms false ('?' :: cs) (p :: ps) = (bindSyms false cs ps).map (.bound p :: ·) := by
  rw [bindSyms.eq_def]
  simp

theorem bindSyms_raw {cs : List Char} : ∀ {d d' : Nat} {q q' : Bool} (rest : List Char)
    (ps : List α), scan (d, q) cs = some (d', q') →
      bindSyms q (cs ++ rest) ps = (bindSyms q' rest ps).map (cs.map .char ++ ·) := by
  induction cs with
  | nil =>
    intro d d' q q' rest ps h
    obtain ⟨rfl, rfl⟩ : d = d' ∧ q = q' := by simpa [scan] using h
    simp
  | cons c cs ih =>
    intro d d' q q' rest ps h
    simp only [scan, List.foldlM_cons, Option.bind_eq_bind, Option.bind_eq_some_iff] at h
    obtain ⟨⟨d₁, q₁⟩, hc, hcs⟩ := h
    have hmark : c ≠ '?' := by
      intro hmark
      simp [scanChar, hmark] at hc
    have hquote : (if c = '\'' then !q else q) = q₁ := by
      cases q with
      | true =>
        simp only [scanChar, if_neg hmark, if_true] at hc
        grind
      | false =>
        simp only [scanChar, if_neg hmark] at hc
        grind
    rw [List.cons_append, bindSyms_char hmark, hquote, ih rest ps hcs, Option.map_map]
    rfl

theorem bindSyms_chars {f : Frag α} : ∀ {d d' : Nat} {q q' : Bool},
    f.foldlM scanWrite (d, q) = some (d', q') →
      bindSyms q (chars f) (params f) = some (syms f) := by
  induction f with
  | nil =>
    intro d d' q q' _
    rfl
  | cons w f ih =>
    intro d d' q q' h
    simp only [List.foldlM_cons, Option.bind_eq_bind, Option.bind_eq_some_iff] at h
    obtain ⟨⟨d₁, q₁⟩, hw, hf⟩ := h
    have hrest := ih hf
    cases w with
    | raw s =>
      have hraw := bindSyms_raw (chars f) (params f) hw
      rw [hrest] at hraw
      exact hraw
    | bound a =>
      cases q with
      | true => cases hw
      | false =>
        obtain ⟨rfl, rfl⟩ : d = d₁ ∧ false = q₁ := by simpa [scanWrite] using hw
        have hchars : chars (.bound a :: f) = '?' :: chars f := rfl
        have hparams : params (.bound a :: f) = a :: params f := rfl
        rw [hchars, hparams, bindSyms_mark, hrest]
        rfl

/-- The text and parameters of a closed fragment are read as its writes are. -/
theorem readSql_text {f : Frag α} (h : Closed f) : readSql (text f) (params f) = read (syms f) := by
  unfold readSql
  rw [toList_text, bindSyms_chars h]
  rfl

/-! A closed fragment reads as the same trees wherever it stands. -/

/-- Levels read inside others: `cur` stands before the outermost one's trees, `outer`
around it. -/
def inside (cur : List (Tree α)) (outer : List (List (Tree α))) :
    List (List (Tree α)) → List (List (Tree α))
  | [] => cur :: outer
  | [l] => (cur ++ l) :: outer
  | l :: l' :: ls => l :: inside cur outer (l' :: ls)

def Reading.inside (r : Reading α) (cur : List (Tree α)) (outer : List (List (Tree α))) :
    Reading α :=
  { r with levels := SqlText.inside cur outer r.levels }

theorem put_ne_nil (t : Tree α) (ls : List (List (Tree α))) : put t ls ≠ [] := by
  cases ls with
  | nil => simp [put]
  | cons l ls => simp [put]

theorem put_inside (t : Tree α) (cur : List (Tree α)) (outer : List (List (Tree α))) :
    ∀ {ls : List (List (Tree α))}, ls ≠ [] →
      put t (inside cur outer ls) = inside cur outer (put t ls)
  | [], h => absurd rfl h
  | [l], _ => by simp [put, inside]
  | _ :: _ :: _, _ => rfl

section place
variable {r r' : Reading α} (cur : List (Tree α)) (outer : List (List (Tree α)))

theorem Reading.flush_ne_nil (h : r.levels ≠ []) : r.flush.levels ≠ [] := by
  unfold Reading.flush
  split
  · exact h
  · exact put_ne_nil _ _

theorem Reading.flush_inside (h : r.levels ≠ []) :
    (r.inside cur outer).flush = r.flush.inside cur outer := by
  unfold Reading.flush Reading.inside
  cases hword : r.word.isEmpty with
  | true => simp
  | false => simp [put_inside _ cur outer h]

theorem Reading.delimit_inside {c : Char} (h : r.levels ≠ []) (hstep : r.delimit c = some r') :
    (r.inside cur outer).delimit c = some (r'.inside cur outer) ∧ r'.levels ≠ [] := by
  unfold Reading.delimit at hstep ⊢
  split at hstep
  · next hspace =>
    cases hstep
    rw [if_pos hspace]
    exact ⟨rfl, h⟩
  next hspace =>
  rw [if_neg hspace]
  split at hstep
  · next hquote =>
    cases hstep
    rw [if_pos hquote]
    exact ⟨rfl, h⟩
  next hquote =>
  rw [if_neg hquote]
  split at hstep
  · next hopen =>
    cases hstep
    rw [if_pos hopen]
    refine ⟨?_, List.cons_ne_nil _ _⟩
    obtain ⟨l, ls, hls⟩ := List.exists_cons_of_ne_nil h
    simp [Reading.inside, hls, SqlText.inside]
  next hopen =>
  rw [if_neg hopen]
  split at hstep
  · next hclose =>
    rw [if_pos hclose]
    split at hstep
    · next l l' ls hls =>
      cases hstep
      refine ⟨?_, List.cons_ne_nil _ _⟩
      cases ls with
      | nil => simp [Reading.inside, hls, SqlText.inside]
      | cons m ms => simp [Reading.inside, hls, SqlText.inside]
    · cases hstep
  · next hclose =>
    cases hstep
    rw [if_neg hclose]
    refine ⟨?_, put_ne_nil _ _⟩
    simp only [Reading.inside, put_inside _ cur outer h]

theorem Reading.step_inside {s : Sym α} (h : r.levels ≠ []) (hstep : r.step s = some r') :
    (r.inside cur outer).step s = some (r'.inside cur outer) ∧ r'.levels ≠ [] := by
  have hquote : (r.inside cur outer).quote = r.quote := rfl
  unfold Reading.step at hstep ⊢
  rw [hquote]
  split at hstep
  · next q c _ =>
    split at hstep
    · next hc =>
      cases hstep
      refine ⟨?_, put_ne_nil _ _⟩
      simp only [if_pos hc, Reading.inside, put_inside _ cur outer h]
    · next hc =>
      cases hstep
      simp only [if_neg hc]
      exact ⟨rfl, h⟩
  · cases hstep
  · next c _ =>
    split at hstep
    · next hc =>
      cases hstep
      simp only [if_pos hc]
      exact ⟨rfl, h⟩
    · next hc =>
      simp only [if_neg hc]
      rw [Reading.flush_inside cur outer h]
      exact Reading.delimit_inside cur outer (Reading.flush_ne_nil h) hstep
  · next a _ =>
    cases hstep
    refine ⟨?_, put_ne_nil _ _⟩
    have hflush := Reading.flush_ne_nil h
    simp only [Reading.flush_inside cur outer h]
    simp only [Reading.inside, put_inside _ cur outer hflush]

/-- A reading runs the same inside any other. -/
theorem Reading.run_inside {ss : List (Sym α)} : ∀ {r r' : Reading α}, r.levels ≠ [] →
    r.run ss = some r' → (r.inside cur outer).run ss = some (r'.inside cur outer) := by
  induction ss with
  | nil =>
    intro r r' _ hrun
    obtain rfl : r = r' := by simpa [Reading.run] using hrun
    rfl
  | cons s ss ih =>
    intro r r' h hrun
    simp only [Reading.run, List.foldlM_cons, Option.bind_eq_bind,
      Option.bind_eq_some_iff] at hrun ⊢
    obtain ⟨r₁, hstep, hrest⟩ := hrun
    obtain ⟨hstep', h'⟩ := Reading.step_inside cur outer h hstep
    exact ⟨r₁.inside cur outer, hstep', ih h' hrest⟩

end place

/-- Where the reader stands, as the scan counts it. -/
def Reading.At (r : Reading α) (place : Nat × Bool) : Prop :=
  r.levels.length = place.1 + 1 ∧ r.quote.isSome = place.2

theorem length_put (t : Tree α) {ls : List (List (Tree α))} {d : Nat} (h : ls.length = d + 1) :
    (put t ls).length = d + 1 := by
  cases ls with
  | nil => cases h
  | cons l ls => exact h

theorem Reading.At.flush {r : Reading α} {place : Nat × Bool} (h : r.At place) :
    r.flush.At place := by
  unfold Reading.flush
  split
  · exact h
  · exact ⟨length_put _ h.1, h.2⟩

/-- The reader follows the scan. -/
theorem Reading.At.step {r : Reading α} {place place' : Nat × Bool} {c : Char}
    (h : r.At place) (hc : scanChar place c = some place') :
    ∃ r', r.step (.char c) = some r' ∧ r'.At place' := by
  obtain ⟨d, q⟩ := place
  unfold scanChar at hc
  split at hc
  · cases hc
  cases hquote : r.quote with
  | some text =>
    obtain rfl : true = q := by simpa [hquote] using h.2
    simp only [if_true, Option.some.injEq] at hc
    subst hc
    simp only [Reading.step, hquote]
    by_cases hend : c = '\''
    · exact ⟨_, if_pos hend, length_put _ h.1, by simp [hend]⟩
    · exact ⟨_, if_neg hend, h.1, by simp [hend]⟩
  | none =>
    obtain rfl : false = q := by simpa [hquote] using h.2
    simp only [Bool.false_eq_true, if_false] at hc
    simp only [Reading.step, hquote]
    by_cases hword : isWordChar c = true
    · have hne : c ≠ '\'' ∧ c ≠ '(' ∧ c ≠ ')' := by
        refine ⟨?_, ?_, ?_⟩ <;> rintro rfl <;> revert hword <;> decide
      rw [if_neg hne.1, if_neg hne.2.1, if_neg hne.2.2] at hc
      cases hc
      exact ⟨_, if_pos hword, h.1, by simp⟩
    · rw [if_neg hword]
      have hf := h.flush
      have hnone : r.flush.quote = none := by simpa using hf.2
      unfold Reading.delimit
      by_cases hspace : isSpace c = true
      · have hne : c ≠ '\'' ∧ c ≠ '(' ∧ c ≠ ')' := by
          refine ⟨?_, ?_, ?_⟩ <;> rintro rfl <;> revert hspace <;> decide
        rw [if_neg hne.1, if_neg hne.2.1, if_neg hne.2.2] at hc
        cases hc
        exact ⟨_, if_pos hspace, hf⟩
      rw [if_neg hspace]
      split at hc
      · next hstart =>
        cases hc
        exact ⟨_, if_pos hstart, hf.1, rfl⟩
      next hstart =>
      rw [if_neg hstart]
      split at hc
      · next hopen =>
        cases hc
        refine ⟨_, if_pos hopen, ?_, by simp [hnone]⟩
        simpa using hf.1
      next hopen =>
      rw [if_neg hopen]
      split at hc
      · next hclose =>
        rw [if_pos hclose]
        split at hc
        · cases hc
        next hd =>
        cases hc
        obtain ⟨n, rfl⟩ : ∃ n, d = n + 1 := Nat.exists_eq_succ_of_ne_zero hd
        obtain ⟨l, l', ls, hls⟩ : ∃ l l' ls, r.flush.levels = l :: l' :: ls := by
          match hls : r.flush.levels with
          | [] => simp [Reading.At, hls] at hf
          | [l] => simp [Reading.At, hls] at hf
          | l :: l' :: ls => exact ⟨l, l', ls, rfl⟩
        rw [hls]
        refine ⟨_, rfl, ?_, by simp [hnone]⟩
        simpa [hls] using hf.1
      · next hclose =>
        cases hc
        exact ⟨_, if_neg hclose, length_put _ hf.1, by simp [hnone]⟩

theorem Reading.At.run_chars {cs : List Char} : ∀ {r : Reading α} {place place' : Nat × Bool},
    r.At place → scan place cs = some place' →
      ∃ r', r.run (cs.map .char) = some r' ∧ r'.At place' := by
  induction cs with
  | nil =>
    intro r place place' h hscan
    obtain rfl : place = place' := by simpa [scan] using hscan
    exact ⟨r, rfl, h⟩
  | cons c cs ih =>
    intro r place place' h hscan
    simp only [scan, List.foldlM_cons, Option.bind_eq_bind, Option.bind_eq_some_iff] at hscan
    obtain ⟨place₁, hc, hcs⟩ := hscan
    obtain ⟨r₁, hr₁, h₁⟩ := h.step hc
    obtain ⟨r', hr', h'⟩ := ih h₁ hcs
    refine ⟨r', ?_, h'⟩
    simp only [Reading.run, List.map_cons, List.foldlM_cons, hr₁]
    exact hr'

theorem Reading.run_append (r : Reading α) (ss ss' : List (Sym α)) :
    r.run (ss ++ ss') = (r.run ss).bind (fun r' => r'.run ss') := List.foldlM_append

theorem Reading.At.run {f : Frag α} : ∀ {r : Reading α} {place place' : Nat × Bool},
    r.At place → f.foldlM scanWrite place = some place' →
      ∃ r', r.run (syms f) = some r' ∧ r'.At place' := by
  induction f with
  | nil =>
    intro r place place' h hscan
    obtain rfl : place = place' := by simpa using hscan
    exact ⟨r, rfl, h⟩
  | cons w f ih =>
    intro r place place' h hscan
    simp only [List.foldlM_cons, Option.bind_eq_bind, Option.bind_eq_some_iff] at hscan
    obtain ⟨place₁, hw, hf⟩ := hscan
    have hsyms : syms (w :: f) = w.syms ++ syms f := rfl
    have hfirst : ∃ r₁, r.run w.syms = some r₁ ∧ r₁.At place₁ := by
      cases w with
      | raw s => exact h.run_chars hw
      | bound a =>
        obtain ⟨d, q⟩ := place
        cases q with
        | true => cases hw
        | false =>
          obtain rfl : (d, false) = place₁ := by simpa [scanWrite] using hw
          have hquote : r.quote = none := by simpa using h.2
          have hstep : r.step (.bound a) =
              some { r.flush with levels := put (.tok (.bound a)) r.flush.levels } := by
            simp [Reading.step, hquote]
          refine ⟨{ r.flush with levels := put (.tok (.bound a)) r.flush.levels }, ?_,
            length_put _ h.flush.1, h.flush.2⟩
          simp [Reading.run, Write.syms, hstep]
    obtain ⟨r₁, hr₁, h₁⟩ := hfirst
    obtain ⟨r', hr', h'⟩ := ih h₁ hf
    refine ⟨r', ?_, h'⟩
    rw [hsyms, Reading.run_append, hr₁]
    exact hr'

theorem Reading.flush_quote (r : Reading α) : r.flush.quote = r.quote := by
  unfold Reading.flush
  split
  · rfl
  · rfl

theorem Reading.flush_word (r : Reading α) : r.flush.word = [] := by
  unfold Reading.flush
  split
  · next hempty => exact List.isEmpty_iff.mp hempty
  · rfl

theorem Reading.flush_flush (r : Reading α) : r.flush.flush = r.flush := by
  cases hword : r.word.isEmpty with
  | true => simp [Reading.flush, hword]
  | false => simp [Reading.flush, hword]

/-- A delimiter ends the word before it. -/
theorem Reading.step_flush {r : Reading α} {s : Sym α} (hquote : r.quote = none)
    (h : s.isWordChar = false) : r.step s = r.flush.step s := by
  have hflush : r.flush.quote = none := by rw [Reading.flush_quote, hquote]
  cases s with
  | char c =>
    have hc : ¬ SqlText.isWordChar c = true := by simpa [Sym.isWordChar] using h
    simp only [Reading.step, hquote, hflush, if_neg hc, Reading.flush_flush]
  | bound a => simp only [Reading.step, hquote, hflush, Reading.flush_flush]

/-- `f`, read where the levels are `ls`, leaves `ls'`, up to a word it may end in. -/
def Reads (f : Frag α) (ls ls' : List (List (Tree α))) : Prop :=
  ∃ r, (Reading.at ls).run (syms f) = some r ∧ r.flush = Reading.at ls'

/-- `f`, read where the levels are `ls`, leaves exactly `ls'`. -/
def ReadsOn (f : Frag α) (ls ls' : List (List (Tree α))) : Prop :=
  (Reading.at ls).run (syms f) = some (Reading.at ls')

/-- No word goes on in `f`. -/
def StartsApart (f : Frag α) : Prop := ∀ s ∈ (syms f).head?, s.isWordChar = false

section compose
variable {f g : Frag α} {ls ls' ls'' : List (List (Tree α))}

theorem ReadsOn.reads (h : ReadsOn f ls ls') : Reads f ls ls' := ⟨_, h, rfl⟩

theorem ReadsOn.append (hf : ReadsOn f ls ls') (hg : Reads g ls' ls'') :
    Reads (f ++ g) ls ls'' := by
  obtain ⟨r, hr, hflush⟩ := hg
  refine ⟨r, ?_, hflush⟩
  rw [syms_append, Reading.run_append, hf]
  exact hr

theorem Reads.append (hf : Reads f ls ls') (hapart : StartsApart g) (hg : Reads g ls' ls'') :
    Reads (f ++ g) ls ls'' := by
  obtain ⟨r, hr, hflush⟩ := hf
  obtain ⟨r', hr', hflush'⟩ := hg
  have hquote : r.quote = none := by rw [← Reading.flush_quote, hflush]; rfl
  cases hsyms : syms g with
  | nil =>
    rw [hsyms] at hr'
    obtain rfl : Reading.at ls' = r' := by simpa [Reading.run] using hr'
    refine ⟨r, ?_, ?_⟩
    · rw [syms_append, hsyms, List.append_nil, hr]
    · rw [hflush, ← hflush', ← hflush, Reading.flush_flush]
  | cons s ss =>
    have hs : s.isWordChar = false := hapart s (by rw [hsyms]; rfl)
    refine ⟨r', ?_, hflush'⟩
    rw [syms_append, Reading.run_append, hr]
    rw [hsyms] at hr' ⊢
    simp only [Option.bind_some, Reading.run, List.foldlM_cons] at hr' ⊢
    rw [Reading.step_flush hquote hs, hflush]
    exact hr'

end compose

/-- The trees of a closed fragment. -/
def trees (f : Frag α) : List (Tree α) := (read (syms f)).getD []

theorem read_of_reads {f : Frag α} {ts : List (Tree α)} (h : Reads f [[]] [ts]) :
    read (syms f) = some ts := by
  obtain ⟨r, hr, hflush⟩ := h
  have hquote : r.quote = none := by rw [← Reading.flush_quote, hflush]; rfl
  unfold read
  rw [hr]
  simp only [hquote, hflush]
  rfl

theorem trees_of_reads {f : Frag α} {ts : List (Tree α)} (h : Reads f [[]] [ts]) :
    trees f = ts := by
  rw [trees, read_of_reads h]
  rfl

/-- **A closed fragment reads as its own trees** wherever it stands. -/
theorem Closed.reads {f : Frag α} (h : Closed f) (cur : List (Tree α))
    (outer : List (List (Tree α))) : Reads f (cur :: outer) ((cur ++ trees f) :: outer) := by
  have hstart : (Reading.at ([[]] : List (List (Tree α)))).At (0, false) := ⟨rfl, rfl⟩
  obtain ⟨r, hr, hat⟩ := hstart.run h
  have hfl := hat.flush
  have hlevels : r.flush.levels.length = 1 := hfl.1
  obtain ⟨ts, hts⟩ := List.length_eq_one_iff.mp hlevels
  have hnone : r.flush.quote = none := by simpa using hfl.2
  have hword : r.flush.word = [] := r.flush_word
  have hflush : r.flush = Reading.at [ts] := by
    cases hr' : r.flush with
    | mk word quote levels =>
      rw [hr'] at hts hnone hword
      simp only at hts hnone hword
      rw [hts, hnone, hword]
      rfl
  have htrees : trees f = ts := trees_of_reads ⟨r, hr, hflush⟩
  have hrun := Reading.run_inside cur outer (by simp [Reading.at]) hr
  have hne : r.levels ≠ [] := by
    intro hnil
    have hlength := hat.1
    simp [hnil] at hlength
  refine ⟨r.inside cur outer, ?_, ?_⟩
  · have hin : (Reading.at [[]]).inside cur outer = Reading.at (cur :: outer) := by
      simp [Reading.inside, Reading.at, SqlText.inside]
    rw [hin] at hrun
    exact hrun
  · rw [Reading.flush_inside cur outer hne, hflush, htrees]
    rfl

/-! The truth value of a condition. -/

def Tree.keyword? : Tree α → Option (List Char)
  | .tok (.word cs) => some (cs.map Char.toUpper)
  | _ => none

def isKeyword (kw : String) (t : Tree α) : Bool := t.keyword? == some kw.toList

/-- A tree with the truth value of its content, if it is a group. -/
abbrev Marked (α : Type) := Tree α × Option Bool

section eval
variable (v : List (Tree α) → Option Bool)

/-- A group, or an atom, from its last tree to its first. -/
def base : List (Marked α) → Option Bool
  | [(.group _, k)] => k
  | rev => v (rev.reverse.map Prod.fst)

/-- An operand with no `NOT` before it, from its last tree to its first. -/
def test : List (Marked α) → Option Bool
  | a :: b :: c :: rev =>
    if isKeyword "TRUE" a.1 && isKeyword "NOT" b.1 && isKeyword "IS" c.1 then
      isNotTrue (test rev)
    else base v (a :: b :: c :: rev)
  | rev => base v rev

def operand : List (Marked α) → Option Bool
  | [] => base v []
  | a :: rest => if isKeyword "NOT" a.1 then not3 (operand rest) else test v (a :: rest).reverse

/-- The `AND` of the operands. -/
def conjunction (items : List (Marked α)) : Option Bool :=
  all3 ((items.splitOnP (fun i => isKeyword "AND" i.1)).map (operand v))

/-- The `OR` of the `AND`s of the operands. -/
def junction (items : List (Marked α)) : Option Bool :=
  any3 ((items.splitOnP (fun i => isKeyword "OR" i.1)).map (conjunction v))

mutual
def Tree.marked : Tree α → Marked α
  | .tok t => (.tok t, none)
  | .group ts => (.group ts, junction v (allMarked ts))

def allMarked : List (Tree α) → List (Marked α)
  | [] => []
  | t :: ts => t.marked :: allMarked ts
end

/-- The truth value of a condition, where `v` gives each atom its own. -/
def eval (ts : List (Tree α)) : Option Bool := junction v (allMarked v ts)

/-- The condition is TRUE. -/
def Holds (text : String) (params : List α) : Prop :=
  (readSql text params).map (eval v) = some (some true)

instance (text : String) (params : List α) : Decidable (Holds v text params) :=
  inferInstanceAs (Decidable (_ = _))

end eval

/-- Trees with no `AND` and no `OR` among them. -/
def Operand (ts : List (Tree α)) : Prop :=
  ∀ t ∈ ts, isKeyword "OR" t = false ∧ isKeyword "AND" t = false

def andTree : Tree α := .tok (.word ['A', 'N', 'D'])
def orTree : Tree α := .tok (.word ['O', 'R'])

theorem operand_group (ts : List (Tree α)) : Operand [Tree.group ts] := by
  intro t ht
  obtain rfl : t = .group ts := by simpa using ht
  exact ⟨rfl, rfl⟩

section eval
variable {v : List (Tree α) → Option Bool} {ts : List (Tree α)} {tss : List (List (Tree α))}

theorem fst_marked (t : Tree α) : (t.marked v).1 = t := by
  cases t with
  | tok t => rfl
  | group ts => rfl

theorem allMarked_append (ts us : List (Tree α)) :
    allMarked v (ts ++ us) = allMarked v ts ++ allMarked v us := by
  induction ts with
  | nil => rfl
  | cons t ts ih => simp [allMarked, ih]

theorem mem_allMarked {i : Marked α} (h : i ∈ allMarked v ts) : i.1 ∈ ts := by
  induction ts with
  | nil => cases h
  | cons t ts ih =>
    obtain rfl | h := List.mem_cons.mp h
    · rw [fst_marked]
      exact List.mem_cons_self
    · exact List.mem_cons_of_mem _ (ih h)

theorem Operand.not_or (h : Operand ts) :
    ∀ i ∈ allMarked v ts, isKeyword "OR" i.1 = false :=
  fun i hi => (h i.1 (mem_allMarked hi)).1

theorem Operand.not_and (h : Operand ts) :
    ∀ i ∈ allMarked v ts, isKeyword "AND" i.1 = false :=
  fun i hi => (h i.1 (mem_allMarked hi)).2

theorem eval_of_not_or (h : ∀ i ∈ allMarked v ts, isKeyword "OR" i.1 = false) :
    eval v ts = conjunction v (allMarked v ts) := by
  unfold eval junction
  rw [List.splitOnP_eq_singleton h, List.map_singleton, any3_singleton]

theorem Operand.conjunction (h : Operand ts) :
    conjunction v (allMarked v ts) = operand v (allMarked v ts) := by
  unfold SqlText.conjunction
  rw [List.splitOnP_eq_singleton h.not_and, List.map_singleton, all3_singleton]

theorem Operand.eval (h : Operand ts) : eval v ts = operand v (allMarked v ts) := by
  rw [eval_of_not_or h.not_or, h.conjunction]

/-- Parentheses change no truth value. -/
theorem eval_group (ts : List (Tree α)) : eval v [.group ts] = eval v ts := by
  rw [(operand_group ts).eval]
  rfl

/-- A group tested with `IS NOT TRUE`. -/
def notTrueTrees (ts : List (Tree α)) : List (Tree α) :=
  [.group ts, .tok (.word ['I', 'S']), .tok (.word ['N', 'O', 'T']),
    .tok (.word ['T', 'R', 'U', 'E'])]

theorem operand_notTrue (ts : List (Tree α)) : Operand (notTrueTrees ts) := by
  intro t ht
  simp only [notTrueTrees, List.mem_cons, List.not_mem_nil, or_false] at ht
  obtain rfl | rfl | rfl | rfl := ht
  · exact ⟨rfl, rfl⟩
  · exact ⟨rfl, rfl⟩
  · exact ⟨rfl, rfl⟩
  · exact ⟨rfl, rfl⟩

theorem eval_isNotTrue (ts : List (Tree α)) :
    eval v (notTrueTrees ts) = isNotTrue (eval v ts) := by
  rw [(operand_notTrue ts).eval]
  rfl

/-- Lists joined by a separator are split back at it. -/
theorem splitOnP_joined (p : Tree α → Bool) (sep : Tok α) (hsep : p (.tok sep) = true)
    (h : ∀ ts ∈ tss, ∀ t ∈ ts, p t = false) (hne : tss ≠ []) :
    (allMarked v (joined [.tok sep] tss)).splitOnP (fun i => p i.1) = tss.map (allMarked v) := by
  induction tss with
  | nil => exact absurd rfl hne
  | cons ts tss ih =>
    have hts : ∀ i ∈ allMarked v ts, p i.1 = false :=
      fun i hi => h ts List.mem_cons_self i.1 (mem_allMarked hi)
    cases tss with
    | nil => exact List.splitOnP_eq_singleton hts
    | cons us tss =>
      have hmarked : allMarked v (joined [.tok sep] (ts :: us :: tss)) =
          allMarked v ts ++ (.tok sep, none) :: allMarked v (joined [.tok sep] (us :: tss)) := by
        rw [joined, allMarked_append, allMarked_append, List.append_assoc]
        rfl
      have hrest := ih (fun ts' h' => h ts' (List.mem_cons_of_mem _ h')) (List.cons_ne_nil _ _)
      rw [hmarked, List.splitOnP_append_cons_of_forall_mem hts _ hsep, hrest]
      rfl

theorem mem_joined {sep : List (Tree α)} {t : Tree α} (h : t ∈ joined sep tss) :
    t ∈ sep ∨ ∃ ts ∈ tss, t ∈ ts := by
  induction tss with
  | nil => cases h
  | cons ts tss ih =>
    cases tss with
    | nil => exact Or.inr ⟨ts, List.mem_cons_self, h⟩
    | cons us tss =>
      rw [joined, List.mem_append, List.mem_append] at h
      obtain (h | h) | h := h
      · exact Or.inr ⟨ts, List.mem_cons_self, h⟩
      · exact Or.inl h
      · obtain h | ⟨ts', hts', h⟩ := ih h
        · exact Or.inl h
        · exact Or.inr ⟨ts', List.mem_cons_of_mem _ hts', h⟩

/-- Operands joined by `AND`. -/
theorem eval_and (h : ∀ ts ∈ tss, Operand ts) (hne : tss ≠ []) :
    eval v (joined [andTree] tss) = all3 (tss.map (eval v)) := by
  have hor : ∀ i ∈ allMarked v (joined [andTree] tss), isKeyword "OR" i.1 = false := by
    intro i hi
    obtain hsep | ⟨ts, hts, ht⟩ := mem_joined (mem_allMarked hi)
    · rw [List.mem_singleton.mp hsep]
      rfl
    · exact (h ts hts i.1 ht).1
  have hand := splitOnP_joined (v := v) (isKeyword "AND") (.word ['A', 'N', 'D']) rfl
    (fun ts hts t ht => (h ts hts t ht).2) hne
  rw [eval_of_not_or hor, conjunction, andTree, hand, List.map_map]
  congr 1
  apply List.map_congr_left
  intro ts hts
  exact (h ts hts).eval.symm

/-- Operands joined by `OR`. -/
theorem eval_or (h : ∀ ts ∈ tss, Operand ts) (hne : tss ≠ []) :
    eval v (joined [orTree] tss) = any3 (tss.map (eval v)) := by
  have hor := splitOnP_joined (v := v) (isKeyword "OR") (.word ['O', 'R']) rfl
    (fun ts hts t ht => (h ts hts t ht).1) hne
  rw [eval, junction, orTree, hor, List.map_map]
  congr 1
  apply List.map_congr_left
  intro ts hts
  rw [Function.comp_apply, (h ts hts).conjunction, (h ts hts).eval]

end eval

/-! A guarded fragment reads as an operand. -/

section guarded

def isJoinerTree (t : Tree α) : Bool := isKeyword "OR" t || isKeyword "AND" t

theorem operand_iff {ts : List (Tree α)} : Operand ts ↔ ∀ t ∈ ts, isJoinerTree t = false := by
  simp [Operand, isJoinerTree]

theorem isJoinerTree_word {word : List Char} (h : isJoiner word = false) :
    isJoinerTree (.tok (.word word) : Tree α) = false := by
  have hor : "OR".toList = ['O', 'R'] := rfl
  have hand : "AND".toList = ['A', 'N', 'D'] := rfl
  simp only [isJoiner, Bool.or_eq_false_iff, beq_eq_false_iff_ne] at h
  simp [isJoinerTree, isKeyword, Tree.keyword?, hor, hand, h.1, h.2]

/-- The outermost level is an operand so far. -/
def OuterOperand (ls : List (List (Tree α))) : Prop := ∀ l ∈ ls.getLast?, Operand l

theorem OuterOperand.put {ls : List (List (Tree α))} {t : Tree α} (h : OuterOperand ls)
    (ht : ls.length ≤ 1 → isJoinerTree t = false) : OuterOperand (put t ls) := by
  match ls with
  | [] =>
    intro l hl
    obtain rfl : [t] = l := by simpa [SqlText.put] using hl
    rw [operand_iff]
    intro t' ht'
    rw [List.mem_singleton.mp ht']
    exact ht (Nat.zero_le 1)
  | [l] =>
    intro l' hl'
    obtain rfl : l ++ [t] = l' := by simpa [SqlText.put] using hl'
    have hl : Operand l := h l rfl
    rw [operand_iff] at hl ⊢
    intro t' ht'
    obtain ht' | ht' := List.mem_append.mp ht'
    · exact hl t' ht'
    · rw [List.mem_singleton.mp ht']
      exact ht (Nat.le_refl 1)
  | l :: l' :: ls => exact fun m hm => h m (by simpa [SqlText.put] using hm)

/-- The reader follows the guard. -/
structure Reading.AtOuter (r : Reading α) (o : Outer) : Prop where
  at_place : r.At (o.depth, o.quoted)
  word_eq : o.depth = 0 → r.word = o.word
  quoted_word : o.quoted = true → r.word = []
  outer : OuterOperand r.levels

theorem Reading.AtOuter.flush {r : Reading α} {o : Outer} (h : r.AtOuter o)
    (hword : o.depth = 0 → isJoiner o.word = false) : OuterOperand r.flush.levels := by
  unfold Reading.flush
  split
  · exact h.outer
  · apply h.outer.put
    intro hlength
    have hdepth : o.depth = 0 := by
      have := h.at_place.1
      simp only at this
      omega
    rw [h.word_eq hdepth]
    exact isJoinerTree_word (hword hdepth)

/-- One character outside quotes that ends the word before it. -/
theorem OuterOperand.delimit {r r' : Reading α} {c : Char}
    (houter : OuterOperand r.levels) (h : r.delimit c = some r') : OuterOperand r'.levels := by
  unfold Reading.delimit at h
  split at h
  · cases h
    exact houter
  split at h
  · cases h
    exact houter
  split at h
  · cases h
    cases hls : r.levels with
    | nil =>
      intro l hl
      obtain rfl : [] = l := by simpa [hls] using hl
      exact fun t ht => by cases ht
    | cons l ls =>
      intro m hm
      exact houter m (by simpa [hls] using hm)
  split at h
  · split at h
    · next l outer ls hls =>
      cases h
      cases ls with
      | nil =>
        have hlast : Operand outer := houter outer (by simp [hls])
        rw [operand_iff] at hlast
        intro m hm
        obtain rfl : outer ++ [.group l] = m := by simpa using hm
        rw [operand_iff]
        intro t ht
        obtain ht | ht := List.mem_append.mp ht
        · exact hlast t ht
        · rw [List.mem_singleton.mp ht]
          rfl
      | cons m ms =>
        intro k hk
        exact houter k (by simpa [hls] using hk)
    · cases h
  · cases h
    exact houter.put (fun _ => rfl)

theorem Reading.delimit_word {r r' : Reading α} {c : Char} (h : r.delimit c = some r') :
    r'.word = r.word := by
  unfold Reading.delimit at h
  split_ifs at h
  · cases h
    rfl
  · cases h
    rfl
  · cases h
    rfl
  · split at h
    · cases h
      rfl
    · cases h
  · cases h
    rfl

theorem guardChar_word {o o' : Outer} {c : Char} (h : guardChar o c = some o')
    (hword : o.depth ≠ 0 ∨ o.quoted = true ∨ isWordChar c = false) : o'.word = [] := by
  unfold guardChar at h
  split_ifs at h with hplace hc
  · grind
  all_goals
    obtain ⟨place, _, rfl⟩ := Option.map_eq_some_iff.mp h
    rfl

theorem Reading.AtOuter.step {r : Reading α} {o o' : Outer} {c : Char} (h : r.AtOuter o)
    (hc : guardChar o c = some o') :
    ∃ r', r.step (.char c) = some r' ∧ r'.AtOuter o' := by
  obtain ⟨r', hr', hat⟩ := h.at_place.step (scanChar_of_guardChar hc)
  refine ⟨r', hr', ?_⟩
  cases hquote : r.quote with
  | some text =>
    have hquoted : o.quoted = true := by simpa [hquote] using h.at_place.2.symm
    have hnil : r.word = [] := h.quoted_word hquoted
    have hword : o'.word = [] := guardChar_word hc (.inr (.inl hquoted))
    simp only [Reading.step, hquote] at hr'
    split at hr'
    · cases hr'
      exact ⟨hat, fun _ => by simp [hnil, hword], fun _ => hnil, h.outer.put (fun _ => rfl)⟩
    · cases hr'
      exact ⟨hat, fun _ => by simp [hnil, hword], fun _ => hnil, h.outer⟩
  | none =>
    have hquoted : o.quoted = false := by simpa [hquote] using h.at_place.2.symm
    simp only [Reading.step, hquote] at hr'
    by_cases hchar : isWordChar c = true
    · rw [if_pos hchar] at hr'
      cases hr'
      -- The scan does not move at a character of a word.
      have hscan := scanChar_of_guardChar hc
      rw [hquoted, scanChar_word hchar] at hscan
      obtain ⟨hdepth, hquoted'⟩ : o.depth = o'.depth ∧ false = o'.quoted := by simpa using hscan
      refine ⟨hat, ?_, ?_, h.outer⟩
      · intro hzero
        have hplace : o.depth = 0 ∧ o.quoted = false := ⟨hdepth.trans hzero, hquoted⟩
        rw [guardChar, if_pos hplace, if_pos hchar] at hc
        cases hc
        simp [h.word_eq hplace.1]
      · intro htrue
        rw [← hquoted'] at htrue
        cases htrue
    · rw [if_neg hchar] at hr'
      have hword : o'.word = [] := guardChar_word hc (.inr (.inr (by simpa using hchar)))
      have hguard : o.depth = 0 → isJoiner o.word = false := by
        intro hzero
        rw [guardChar, if_pos ⟨hzero, hquoted⟩, if_neg hchar] at hc
        split at hc
        · cases hc
        · next hjoiner => simpa using hjoiner
      have hr'word : r'.word = [] := by rw [Reading.delimit_word hr', Reading.flush_word]
      exact ⟨hat, fun _ => by rw [hr'word, hword], fun _ => hr'word,
        (h.flush hguard).delimit hr'⟩

theorem Reading.AtOuter.run_chars {cs : List Char} : ∀ {r : Reading α} {o o' : Outer},
    r.AtOuter o → guard o cs = some o' →
      ∃ r', r.run (cs.map .char) = some r' ∧ r'.AtOuter o' := by
  induction cs with
  | nil =>
    intro r o o' h hguard
    obtain rfl : o = o' := by simpa [guard] using hguard
    exact ⟨r, rfl, h⟩
  | cons c cs ih =>
    intro r o o' h hguard
    simp only [guard, List.foldlM_cons, Option.bind_eq_bind, Option.bind_eq_some_iff] at hguard
    obtain ⟨o₁, hc, hcs⟩ := hguard
    obtain ⟨r₁, hr₁, h₁⟩ := h.step hc
    obtain ⟨r', hr', h'⟩ := ih h₁ hcs
    refine ⟨r', ?_, h'⟩
    simp only [Reading.run, List.map_cons, List.foldlM_cons, hr₁]
    exact hr'

theorem Reading.AtOuter.bound {r : Reading α} {o o' : Outer} {a : α} (h : r.AtOuter o)
    (hw : guardWrite o (.bound a) = some o') :
    ∃ r', r.step (.bound a) = some r' ∧ r'.AtOuter o' := by
  simp only [guardWrite] at hw
  split at hw
  · cases hw
  next hfree =>
  cases hw
  obtain ⟨hquoted, hjoiner⟩ : o.quoted = false ∧ isJoiner o.word = false := by
    simpa using hfree
  have hquote : r.quote = none := by simpa [hquoted] using h.at_place.2
  have hflush := h.at_place.flush
  refine ⟨{ r.flush with levels := SqlText.put (.tok (.bound a)) r.flush.levels }, ?_, ?_, ?_, ?_, ?_⟩
  · simp [Reading.step, hquote]
  · exact ⟨length_put _ hflush.1, hflush.2⟩
  · exact fun _ => r.flush_word
  · exact fun _ => r.flush_word
  · exact (h.flush (fun _ => hjoiner)).put (fun _ => rfl)

theorem Reading.AtOuter.run {f : Frag α} : ∀ {r : Reading α} {o o' : Outer},
    r.AtOuter o → f.foldlM guardWrite o = some o' →
      ∃ r', r.run (syms f) = some r' ∧ r'.AtOuter o' := by
  induction f with
  | nil =>
    intro r o o' h hguard
    obtain rfl : o = o' := by simpa using hguard
    exact ⟨r, rfl, h⟩
  | cons w f ih =>
    intro r o o' h hguard
    simp only [List.foldlM_cons, Option.bind_eq_bind, Option.bind_eq_some_iff] at hguard
    obtain ⟨o₁, hw, hf⟩ := hguard
    have hfirst : ∃ r₁, r.run w.syms = some r₁ ∧ r₁.AtOuter o₁ := by
      cases w with
      | raw s => exact h.run_chars hw
      | bound a =>
        obtain ⟨r₁, hr₁, h₁⟩ := h.bound hw
        exact ⟨r₁, by simp [Reading.run, Write.syms, hr₁], h₁⟩
    obtain ⟨r₁, hr₁, h₁⟩ := hfirst
    obtain ⟨r', hr', h'⟩ := ih h₁ hf
    have hsyms : syms (w :: f) = w.syms ++ syms f := rfl
    refine ⟨r', ?_, h'⟩
    rw [hsyms, Reading.run_append, hr₁]
    exact hr'

/-- **A guarded fragment is an operand** of `AND`, `OR` and `IS NOT TRUE`. -/
theorem Guarded.operand {f : Frag α} (h : Guarded f) : Operand (trees f) := by
  obtain ⟨word, hword, hjoiner⟩ := h
  have hstart : (Reading.at ([[]] : List (List (Tree α)))).AtOuter (.at 0) := by
    refine ⟨⟨rfl, rfl⟩, fun _ => rfl, fun _ => rfl, ?_⟩
    intro l hl
    obtain rfl : [] = l := by simpa [Reading.at] using hl
    exact fun t ht => by cases ht
  obtain ⟨r, hr, hat⟩ := hstart.run hword
  have hlevels := hat.flush (fun _ => hjoiner)
  have hlength : r.flush.levels.length = 1 := hat.at_place.flush.1
  obtain ⟨ts, hts⟩ := List.length_eq_one_iff.mp hlength
  have hnone : r.quote = none := by simpa using hat.at_place.2
  have htrees : trees f = ts := by
    rw [trees, read, hr]
    simp only [hnone, hts]
    rfl
  rw [htrees]
  exact hlevels ts (by rw [hts]; rfl)

end guarded

/-! The trees of fragments put together. -/

section build
variable {f : Frag α} {fs : List (Frag α)}

theorem readsOn_open (ls : List (List (Tree α))) : ReadsOn [.raw "("] ls ([] :: ls) := rfl

theorem readsOn_close (l outer : List (Tree α)) (ls : List (List (Tree α))) :
    ReadsOn [.raw ")"] (l :: outer :: ls) ((outer ++ [.group l]) :: ls) := rfl

theorem startsApart_raw {s : String} {c : Char} (h : s.toList.head? = some c)
    (hc : isWordChar c = false) (rest : Frag α) : StartsApart (.raw s :: rest) := by
  intro x hx
  obtain ⟨cs, hcs⟩ : ∃ cs, s.toList = c :: cs := by
    cases hs : s.toList with
    | nil => simp [hs] at h
    | cons d cs => exact ⟨cs, by rw [hs] at h; simpa using h⟩
  have hsyms : syms (.raw s :: rest) = .char c :: (cs.map .char ++ syms rest) := by
    simp [syms, Write.syms, hcs]
  rw [hsyms] at hx
  obtain rfl : Sym.char c = x := by simpa using hx
  exact hc

theorem trees_paren (h : Closed f) : trees (paren f) = [.group (trees f)] := by
  apply trees_of_reads
  have hopen := (readsOn_open ([[]] : List (List (Tree α)))).append (h.reads [] [[]])
  exact hopen.append (startsApart_raw rfl rfl []) (readsOn_close _ _ _).reads

theorem trees_notTrue (h : Closed f) : trees (notTrue f) = notTrueTrees (trees f) := by
  apply trees_of_reads
  have hopen := (readsOn_open ([[]] : List (List (Tree α)))).append (h.reads [] [[]])
  have hclose : Reads [.raw ") IS NOT TRUE"] [trees f, []] [notTrueTrees (trees f)] :=
    ⟨_, rfl, rfl⟩
  exact hopen.append (startsApart_raw rfl rfl []) hclose

/-- A separator that reads as one tree. -/
structure Separates (sep : String) (t : Tree α) : Prop where
  apart : ∀ rest : Frag α, StartsApart (.raw sep :: rest)
  reads : ∀ cur outer, ReadsOn [.raw sep] (cur :: outer) ((cur ++ [t]) :: outer)

theorem separates_and : Separates " AND " (andTree : Tree α) :=
  ⟨startsApart_raw rfl rfl, fun _ _ => rfl⟩

theorem separates_or : Separates " OR " (orTree : Tree α) :=
  ⟨startsApart_raw rfl rfl, fun _ _ => rfl⟩

variable {sep : String} {t : Tree α}

theorem Separates.reads_joined (hsep : Separates sep t) (h : ∀ f ∈ fs, Closed f)
    (cur : List (Tree α)) (outer : List (List (Tree α))) :
    Reads (joined [.raw sep] fs) (cur :: outer) ((cur ++ joined [t] (fs.map trees)) :: outer) := by
  induction fs generalizing cur with
  | nil => exact ⟨_, rfl, by simp [joined]; rfl⟩
  | cons f fs ih =>
    have hf := (h f List.mem_cons_self).reads cur outer
    cases fs with
    | nil => exact hf
    | cons g fs =>
      have hrest := ih (fun g hg => h g (List.mem_cons_of_mem _ hg)) (cur ++ trees f ++ [t])
      have htail := (hsep.reads (cur ++ trees f) outer).append hrest
      have hall := hf.append (hsep.apart _) htail
      simpa [joined, List.append_assoc] using hall

theorem Separates.trees_joined (hsep : Separates sep t) (h : ∀ f ∈ fs, Closed f) :
    trees (joined [.raw sep] fs) = joined [t] (fs.map trees) :=
  trees_of_reads (hsep.reads_joined h [] [])

/-- A closed fragment is TRUE when its trees are. -/
theorem holds_iff {v : List (Tree α) → Option Bool} (h : Closed f) :
    Holds v (text f) (params f) ↔ eval v (trees f) = some true := by
  unfold Holds
  rw [readSql_text h, read_of_reads (h.reads [] [])]
  simp

end build

end reading

end SqlText

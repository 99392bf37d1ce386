import MessageCrate.Search.Respan
import MessageCrate.Search.WebTerms

/- Text behind text (`crates/server/server/src/search/lex.rs`).

   Where white space or a parenthesis follows a text, the lexer reads the text as it reads it
   alone, `k` bytes further on: nothing after it changes where a token ends.

   1. `Beside`: a cursor in the text alone, and one at the same character of the text behind
      `k` bytes and in front of `tail`.
   2. `lexAll_beside`: the tokens of the two are the same, with their spans moved, and then those
      of the tail. A quote that never closes does not close in a tail without quotes. -/
namespace MessageCrate

/-- The tokens from a cursor on. -/
def lexAll (cur : Cursor) : Except QueryError (List Token) :=
  readTokens (cur.rest.length + 1) cur

/-- A span, `k` bytes further on. -/
def shift (k : Nat) (span : Nat × Nat) : Nat × Nat := (span.1 + k, span.2 + k)

/-- What follows a text ends its last token: white space or a `)`. A `(` would not, behind a
`-`. -/
def Stops (tail : List Char) : Prop := ∀ c ∈ tail.head?, isAsciiWhitespace c = true ∨ c = ')'

theorem Stops.bare {tail : List Char} (h : Stops tail) : ∀ c ∈ tail.head?, isBareEnd c = true := by
  intro c hc
  obtain hspace | rfl := h c hc
  · simp [isBareEnd, hspace]
  · rfl

structure Beside (k : Nat) (tail : List Char) (cur cur' : Cursor) : Prop where
  pos : cur'.pos = cur.pos + k
  rest : cur'.rest = cur.rest ++ tail

/-- What a reader answers at the two cursors. -/
def Alike (k : Nat) (tail : List Char) :
    Except QueryError (Token × Cursor) → Except QueryError (Token × Cursor) → Prop
  | .ok (tok, next), r => ∃ next', r = .ok (tok.respan (shift k), next') ∧ Beside k tail next next'
  | .error _, r => '"' ∉ tail → ∃ err, r = .error err

section beside
variable {k : Nat} {tail : List Char} {cur cur' : Cursor} {start : Nat} {negated : Bool}

theorem Beside.step (h : Beside k tail cur cur') {c : Char} {cs : List Char}
    (hrest : cur.rest = c :: cs) :
    cur'.rest = c :: (cs ++ tail) ∧
      Beside k tail ⟨cur.pos + 1, cs⟩ ⟨cur'.pos + 1, cs ++ tail⟩ := by
  refine ⟨by rw [h.rest, hrest]; rfl, ?_, rfl⟩
  show cur'.pos + 1 = cur.pos + 1 + k
  rw [h.pos]
  omega

/-- A scan ends in the text, or at the tail. -/
theorem Beside.scan (h : Beside k tail cur cur') (keep : Char → Bool)
    (hstop : cur.rest.dropWhile keep ≠ [] ∨ ∀ c ∈ tail.head?, keep c = false) :
    (cur'.scan keep).1 = (cur.scan keep).1 ∧
      Beside k tail (cur.scan keep).2 (cur'.scan keep).2 := by
  have hrun : (cur.rest ++ tail).takeWhile keep = cur.rest.takeWhile keep ∧
      (cur.rest ++ tail).dropWhile keep = cur.rest.dropWhile keep ++ tail := by
    by_cases hall : ∀ c ∈ cur.rest, keep c = true
    · have hdrop : cur.rest.dropWhile keep = [] := List.dropWhile_eq_nil_iff.mpr hall
      have htail : ∀ c ∈ tail.head?, keep c = false := hstop.resolve_left (absurd hdrop)
      rw [List.takeWhile_append_of_pos hall, List.dropWhile_append_of_pos hall, hdrop,
        List.takeWhile_eq_self_iff.mpr hall]
      cases tail with
      | nil => exact ⟨by simp, by simp⟩
      | cons c cs =>
        have hc : keep c = false := htail c rfl
        simp [hc]
    · have hne : cur.rest.dropWhile keep ≠ [] := by
        rw [Ne, List.dropWhile_eq_nil_iff]
        exact hall
      rw [List.dropWhile_append, if_neg (by simpa using hne)]
      refine ⟨?_, rfl⟩
      rw [List.takeWhile_append, if_neg]
      intro hlength
      have hself : cur.rest.takeWhile keep = cur.rest :=
        (List.takeWhile_prefix keep).eq_of_length hlength
      exact hall (List.takeWhile_eq_self_iff.mp hself)
  unfold Cursor.scan
  rw [h.rest, hrun.1, hrun.2]
  refine ⟨rfl, ?_, rfl⟩
  show cur'.pos + byteLength _ = cur.pos + byteLength _ + k
  rw [h.pos]
  omega

theorem Beside.scan_bare (h : Beside k tail cur cur') (hstop : Stops tail) :
    (cur'.scan (fun c => !isBareEnd c)).1 = (cur.scan (fun c => !isBareEnd c)).1 ∧
      Beside k tail (cur.scan (fun c => !isBareEnd c)).2 (cur'.scan (fun c => !isBareEnd c)).2 := by
  refine h.scan _ (.inr ?_)
  intro c hc
  rw [hstop.bare c hc]
  rfl

/-- A character that ends no word is not the tail's first. -/
theorem Beside.ne_cons (h : Beside k tail cur cur') (hstop : Stops tail) {d : Char}
    (hd : isBareEnd d = false) (hrest : ∀ cs, cur.rest ≠ d :: cs) : ∀ cs, cur'.rest ≠ d :: cs := by
  intro cs heq
  rw [h.rest] at heq
  cases hcur : cur.rest with
  | nil =>
    rw [hcur, List.nil_append] at heq
    have hbare : isBareEnd d = true := hstop.bare d (by rw [heq]; rfl)
    rw [hd] at hbare
    cases hbare
  | cons e es =>
    rw [hcur, List.cons_append] at heq
    obtain ⟨rfl, -⟩ := List.cons.inj heq
    exact hrest es hcur

theorem readQuoted_beside (hstop : Stops tail) : ∀ (cs : List Char) (pos : Nat),
    (∀ text next, readQuoted cs pos = some (text, next) → ∃ next',
      readQuoted (cs ++ tail) (pos + k) = some (text, next') ∧ Beside k tail next next') ∧
    (readQuoted cs pos = none → '"' ∉ tail → readQuoted (cs ++ tail) (pos + k) = none) := by
  have hquote : ∀ cs, tail ≠ '"' :: cs := by
    intro cs heq
    have hbare : isBareEnd '"' = true := hstop.bare '"' (by rw [heq]; rfl)
    exact absurd hbare (by decide)
  have hplain : ∀ (cs : List Char) (pos : Nat), '"' ∉ cs → readQuoted cs pos = none := by
    intro cs
    induction cs with
    | nil =>
      intro pos _
      rfl
    | cons c cs ih =>
      intro pos hmem
      rw [List.mem_cons, not_or] at hmem
      rw [Web.readQuoted_other (Ne.symm hmem.1), ih _ hmem.2]
      rfl
  intro cs pos
  fun_induction readQuoted cs pos with
  | case1 pos =>
    constructor
    · intro text next h
      cases h
    · intro _ hmem
      exact hplain _ _ hmem
  | case2 cs pos ih =>
    obtain ⟨hsome, hnone⟩ := ih
    have hread : readQuoted ('"' :: '"' :: cs ++ tail) (pos + k) =
        (readQuoted (cs ++ tail) (pos + 2 + k)).map (fun r => ('"' :: r.1, r.2)) := by
      rw [List.cons_append, List.cons_append, readQuoted, Nat.add_right_comm]
    rw [hread]
    constructor
    · intro text next h
      obtain ⟨r, hr, heq⟩ := Option.map_eq_some_iff.mp h
      cases heq
      obtain ⟨next', hnext, hbeside⟩ := hsome r.1 r.2 hr
      exact ⟨next', by rw [hnext]; rfl, hbeside⟩
    · intro h hmem
      rw [hnone (Option.map_eq_none_iff.mp h) hmem]
      rfl
  | case3 cs pos hcs =>
    have hopen : ∀ cs', cs ++ tail ≠ '"' :: cs' := by
      intro cs' heq
      cases cs with
      | nil => exact hquote cs' heq
      | cons d ds =>
        obtain ⟨rfl, -⟩ := List.cons.inj heq
        exact hcs ds rfl
    rw [List.cons_append, Web.readQuoted_close hopen]
    constructor
    · intro text next h
      cases h
      exact ⟨_, rfl, Nat.add_right_comm _ _ _, rfl⟩
    · intro h
      cases h
  | case4 c cs pos hc hc' ih =>
    obtain ⟨hsome, hnone⟩ := ih
    have hother : c ≠ '"' := hc'
    rw [List.cons_append, Web.readQuoted_other hother, Nat.add_right_comm]
    constructor
    · intro text next h
      obtain ⟨r, hr, heq⟩ := Option.map_eq_some_iff.mp h
      cases heq
      obtain ⟨next', hnext, hbeside⟩ := hsome r.1 r.2 hr
      exact ⟨next', by rw [hnext]; rfl, hbeside⟩
    · intro h hmem
      rw [hnone (Option.map_eq_none_iff.mp h) hmem]
      rfl

/-- A quote and the text in it. -/
theorem alike_quoted (kind : String → TokenKind) (cs : List Char) (hstop : Stops tail)
    (h : Beside k tail cur cur') :
    Alike k tail
      (do
        let (text, next) ← quotedAfter cur.pos cs
        return (⟨kind (String.ofList text), (start, next.pos), negated⟩, next))
      (do
        let (text, next) ← quotedAfter cur'.pos (cs ++ tail)
        return (⟨kind (String.ofList text), (start + k, next.pos), negated⟩, next)) := by
  obtain ⟨hsome, hnone⟩ := readQuoted_beside (k := k) hstop cs (cur.pos + 1)
  have hpos : cur'.pos + 1 = cur.pos + 1 + k := by
    rw [h.pos]
    omega
  unfold quotedAfter
  rw [hpos]
  cases hread : readQuoted cs (cur.pos + 1) with
  | none =>
    intro hmem
    rw [hnone hread hmem]
    exact ⟨_, rfl⟩
  | some r =>
    obtain ⟨next', hnext, hbeside⟩ := hsome r.1 r.2 hread
    rw [hnext]
    refine ⟨next', ?_, hbeside⟩
    show Except.ok (_, _) = Except.ok (_, _)
    rw [hbeside.pos]
    rfl

theorem readField_quoted {word : String} {value : Cursor} {cs : List Char}
    (h : value.rest = '"' :: cs) :
    readField start negated word value = (do
      let (text, next) ← quotedAfter value.pos cs
      return (⟨.field word (String.ofList text) true, (start, next.pos), negated⟩, next)) := by
  unfold readField
  rw [h]
  rfl

theorem readField_plain {word : String} {value : Cursor} (h : ∀ cs, value.rest ≠ '"' :: cs) :
    readField start negated word value =
      .ok (⟨.field word (String.ofList (value.scan (fun c => !isBareEnd c)).1) false,
        (start, (value.scan (fun c => !isBareEnd c)).2.pos), negated⟩,
        (value.scan (fun c => !isBareEnd c)).2) := by
  unfold readField
  split
  · next cs hcs => exact absurd hcs (h cs)
  · rfl

theorem alike_readField {word : String} (hstop : Stops tail) (h : Beside k tail cur cur') :
    Alike k tail (readField start negated word cur) (readField (start + k) negated word cur') := by
  by_cases hquote : ∃ cs, cur.rest = '"' :: cs
  · obtain ⟨cs, hcs⟩ := hquote
    rw [readField_quoted hcs, readField_quoted (h.step hcs).1]
    exact alike_quoted (fun text => .field word text true) cs hstop h
  · have hplain : ∀ cs, cur.rest ≠ '"' :: cs := not_exists.mp hquote
    rw [readField_plain hplain, readField_plain (h.ne_cons hstop (by decide) hplain)]
    obtain ⟨hrun, hbeside⟩ := h.scan_bare hstop
    refine ⟨_, ?_, hbeside⟩
    rw [hrun, hbeside.pos]
    rfl

theorem alike_bare (hstop : Stops tail) (h : Beside k tail cur cur') :
    Alike k tail
      (.ok (⟨wordOrOperator (String.ofList (cur.scan (fun c => !isBareEnd c)).1) negated,
        (start, (cur.scan (fun c => !isBareEnd c)).2.pos), negated⟩,
        (cur.scan (fun c => !isBareEnd c)).2))
      (.ok (⟨wordOrOperator (String.ofList (cur'.scan (fun c => !isBareEnd c)).1) negated,
        (start + k, (cur'.scan (fun c => !isBareEnd c)).2.pos), negated⟩,
        (cur'.scan (fun c => !isBareEnd c)).2)) := by
  obtain ⟨hrun, hbeside⟩ := h.scan_bare hstop
  refine ⟨_, ?_, hbeside⟩
  rw [hrun, hbeside.pos]
  rfl

/-- The run up to a colon is a field word, a colon follows it, and no `/` after that. -/
def FieldAhead (cur : Cursor) (cs : List Char) : Prop :=
  (cur.scan (fun c => !isBareEnd c && c != ':')).2.rest = ':' :: cs ∧ (∀ cs', cs ≠ '/' :: cs') ∧
    isFieldWord (cur.scan (fun c => !isBareEnd c && c != ':')).1 = true

theorem readBare_field {cs : List Char} (h : FieldAhead cur cs) :
    readBare start negated cur = readField start negated
      (Text.toAsciiLower (String.ofList (cur.scan (fun c => !isBareEnd c && c != ':')).1))
      ⟨(cur.scan (fun c => !isBareEnd c && c != ':')).2.pos + 1, cs⟩ := by
  obtain ⟨hcolon, hslash, hword⟩ := h
  unfold readBare
  simp only
  split
  · next heq =>
    obtain ⟨-, heq⟩ := List.cons.inj (hcolon.symm.trans heq)
    exact absurd heq (hslash _)
  · next heq =>
    obtain ⟨-, rfl⟩ := List.cons.inj (hcolon.symm.trans heq)
    rw [if_pos hword]
  · next hnone => exact absurd hcolon (hnone cs)

theorem readBare_bare (h : ∀ cs, ¬ FieldAhead cur cs) :
    readBare start negated cur =
      .ok (⟨wordOrOperator (String.ofList (cur.scan (fun c => !isBareEnd c)).1) negated,
        (start, (cur.scan (fun c => !isBareEnd c)).2.pos), negated⟩,
        (cur.scan (fun c => !isBareEnd c)).2) := by
  unfold readBare
  simp only
  split
  · rfl
  · next cs hslash hcolon =>
    refine if_neg ?_
    intro hword
    exact h cs ⟨hcolon, fun cs' heq => hslash cs' heq, hword⟩
  · rfl

theorem alike_readBare (hstop : Stops tail) (h : Beside k tail cur cur') :
    Alike k tail (readBare start negated cur) (readBare (start + k) negated cur') := by
  have hkeep : ∀ c ∈ tail.head?, (!isBareEnd c && c != ':') = false := by
    intro c hc
    rw [hstop.bare c hc]
    rfl
  obtain ⟨hhead, hcolon⟩ := h.scan (fun c => !isBareEnd c && c != ':') (.inr hkeep)
  by_cases hfield : ∃ cs, FieldAhead cur cs
  · obtain ⟨cs, hahead⟩ := hfield
    obtain ⟨hcs, hvalue⟩ := hcolon.step hahead.1
    have hahead' : FieldAhead cur' (cs ++ tail) := by
      refine ⟨hcs, hvalue.ne_cons hstop (by decide) hahead.2.1, ?_⟩
      rw [hhead]
      exact hahead.2.2
    rw [readBare_field hahead, readBare_field hahead', hhead]
    exact alike_readField hstop hvalue
  · have hnone : ∀ cs, ¬ FieldAhead cur cs := not_exists.mp hfield
    have hnone' : ∀ cs, ¬ FieldAhead cur' cs := by
      rintro cs' ⟨hcs', hslash', hword'⟩
      have hplain : ∃ cs, (cur.scan (fun c => !isBareEnd c && c != ':')).2.rest = ':' :: cs := by
        by_contra hnot
        exact hcolon.ne_cons hstop (by decide) (not_exists.mp hnot) cs' hcs'
      obtain ⟨cs, hcs⟩ := hplain
      refine hnone cs ⟨hcs, ?_, by rwa [hhead] at hword'⟩
      rintro ds rfl
      have heq := (hcolon.step hcs).1.symm.trans hcs'
      obtain ⟨-, rfl⟩ := List.cons.inj heq
      exact hslash' _ rfl
    rw [readBare_bare hnone, readBare_bare hnone']
    exact alike_bare hstop h

theorem alike_readOperand (hstop : Stops tail) (h : Beside k tail cur cur') (hne : cur.rest ≠ []) :
    Alike k tail (readOperand start negated cur) (readOperand (start + k) negated cur') := by
  obtain ⟨c, cs, hcs⟩ := List.exists_cons_of_ne_nil hne
  obtain ⟨hcs', hstep⟩ := h.step hcs
  by_cases hopen : c = '('
  · subst hopen
    have hread : readOperand start negated cur =
        .ok (⟨.lparen, (start, cur.pos + 1), negated⟩, ⟨cur.pos + 1, cs⟩) := by
      unfold readOperand
      rw [hcs]
      rfl
    have hread' : readOperand (start + k) negated cur' =
        .ok (⟨.lparen, (start + k, cur'.pos + 1), negated⟩, ⟨cur'.pos + 1, cs ++ tail⟩) := by
      unfold readOperand
      rw [hcs']
      rfl
    rw [hread, hread']
    refine ⟨_, ?_, hstep⟩
    rw [show cur'.pos + 1 = cur.pos + 1 + k from hstep.pos]
    rfl
  by_cases hquote : c = '"'
  · subst hquote
    have hread : readOperand start negated cur = (do
        let (text, next) ← quotedAfter cur.pos cs
        return (⟨.phrase (String.ofList text), (start, next.pos), negated⟩, next)) := by
      unfold readOperand
      rw [hcs]
      rfl
    have hread' : readOperand (start + k) negated cur' = (do
        let (text, next) ← quotedAfter cur'.pos (cs ++ tail)
        return (⟨.phrase (String.ofList text), (start + k, next.pos), negated⟩, next)) := by
      unfold readOperand
      rw [hcs']
      rfl
    rw [hread, hread']
    exact alike_quoted .phrase cs hstop h
  · have hbare : ∀ {cur : Cursor} {start : Nat} {ds : List Char}, cur.rest = c :: ds →
        readOperand start negated cur = readBare start negated cur := by
      intro cur start ds hds
      unfold readOperand
      rw [hds]
      split
      · next heq => exact absurd (List.cons.inj heq).1 hopen
      · next heq => exact absurd (List.cons.inj heq).1 hquote
      · rfl
    rw [hbare hcs, hbare hcs']
    exact alike_readBare hstop h

theorem isNegated_beside (hstop : Stops tail) (h : Beside k tail cur cur') (hne : cur.rest ≠ []) :
    isNegated cur'.rest = isNegated cur.rest := by
  obtain ⟨c, cs, hcs⟩ := List.exists_cons_of_ne_nil hne
  rw [h.rest, hcs]
  cases cs with
  | cons d ds =>
    by_cases hminus : c = '-'
    · rw [hminus]
      rfl
    · have hnot : ∀ es, isNegated (c :: es) = false := by
        intro es
        unfold isNegated
        split
        · next heq => exact absurd (List.cons.inj heq).1 hminus
        · rfl
      rw [List.cons_append, hnot, hnot]
  | nil =>
    have halone : isNegated [c] = false := by
      unfold isNegated
      split
      · next heq => cases heq
      · rfl
    rw [halone]
    unfold isNegated
    split
    · next d ds heq =>
      have hd : isAsciiWhitespace d = true ∨ d = ')' := by
        obtain ⟨-, heq⟩ := List.cons.inj heq
        have htail : tail = d :: ds := heq
        exact hstop d (by rw [htail]; rfl)
      obtain hd | rfl := hd
      · rw [hd]
        rfl
      · simp
    · rfl

/-- **One token.** -/
theorem alike_nextToken (hstop : Stops tail) (h : Beside k tail cur cur') (hne : cur.rest ≠ []) :
    Alike k tail (nextToken cur) (nextToken cur') := by
  by_cases hclose : ∃ cs, cur.rest = ')' :: cs
  · obtain ⟨cs, hcs⟩ := hclose
    obtain ⟨hcs', hstep⟩ := h.step hcs
    rw [nextToken_close hcs, nextToken_close hcs']
    refine ⟨_, ?_, hstep⟩
    rw [show cur'.pos + 1 = cur.pos + 1 + k from hstep.pos, h.pos]
    rfl
  have hclose' : ∀ cs, cur'.rest ≠ ')' :: cs := by
    intro cs heq
    obtain ⟨c, ds, hds⟩ := List.exists_cons_of_ne_nil hne
    rw [(h.step hds).1] at heq
    obtain ⟨rfl, -⟩ := List.cons.inj heq
    exact hclose ⟨ds, hds⟩
  rw [nextToken_operand (not_exists.mp hclose), nextToken_operand hclose',
    isNegated_beside hstop h hne]
  cases hneg : isNegated cur.rest with
  | false =>
    rw [if_neg Bool.false_ne_true, if_neg Bool.false_ne_true, h.pos]
    exact alike_readOperand hstop h hne
  | true =>
    obtain ⟨c, ds, hcs, -⟩ := isNegated_cons hneg
    obtain ⟨hcs', hstep⟩ := h.step hcs
    rw [if_pos rfl, if_pos rfl, hcs, hcs', h.pos]
    rw [h.pos] at hstep
    exact alike_readOperand hstop hstep (List.cons_ne_nil _ _)

end beside

/-! A whole text. -/

/-- The tokens from a cursor on, past its white space. -/
theorem lexAll_eq (cur : Cursor) : lexAll cur =
    if (cur.scan isAsciiWhitespace).2.rest.isEmpty then .ok []
    else do
      let (tok, next) ← nextToken (cur.scan isAsciiWhitespace).2
      let rest ← lexAll next
      return tok :: rest := by
  have hscan := cur.reads_scan isAsciiWhitespace
  have hspace := cur.head_scan isAsciiWhitespace
  rw [lexAll, readTokens]
  simp only
  generalize (cur.scan isAsciiWhitespace).2 = word at hscan hspace
  split
  · rfl
  · next hne =>
    have hwithin := within_nextToken (by simpa using hne) hspace
    cases hnext : nextToken word with
    | error err => rfl
    | ok r =>
      obtain ⟨tok, next⟩ := r
      rw [hnext] at hwithin
      obtain ⟨⟨used, hused⟩, -, hpos⟩ := hwithin
      have hshorter := hused.shorter hpos
      have hsub : word.rest.length ≤ cur.rest.length := by
        rw [hscan.1, List.length_append]
        omega
      have hfuel : readTokens cur.rest.length next = lexAll next := by
        obtain ⟨more, hmore⟩ : ∃ more, cur.rest.length = next.rest.length + 1 + more :=
          ⟨cur.rest.length - (next.rest.length + 1), by omega⟩
        rw [hmore]
        exact readTokens_fuel (Nat.lt_succ_self _)
      simp only [bind, Except.bind, hfuel]

/-- Only white space, and then more text. -/
theorem lexAll_space {ws cs : List Char} (h : ∀ c ∈ ws, isAsciiWhitespace c = true) (pos : Nat) :
    lexAll ⟨pos, ws ++ cs⟩ = lexAll ⟨pos + byteLength ws, cs⟩ := by
  have hscan : ((⟨pos, ws ++ cs⟩ : Cursor).scan isAsciiWhitespace).2 =
      ((⟨pos + byteLength ws, cs⟩ : Cursor).scan isAsciiWhitespace).2 := by
    unfold Cursor.scan Cursor.past
    rw [List.takeWhile_append_of_pos h, List.dropWhile_append_of_pos h]
    simp only [byteLength_append, Nat.add_assoc]
  rw [lexAll_eq, lexAll_eq, hscan]

/-- **Text in front of a tail.** -/
theorem lexAll_beside {k : Nat} {tail : List Char} (hstop : Stops tail) :
    ∀ {n : Nat} {cur cur' : Cursor}, cur.rest.length < n → Beside k tail cur cur' →
      (∀ ts, lexAll cur = .ok ts → lexAll cur' =
        (lexAll ⟨cur'.pos + byteLength cur.rest, tail⟩).map (ts.map (Token.respan (shift k)) ++ ·)) ∧
      (∀ err, lexAll cur = .error err → '"' ∉ tail → ∃ err', lexAll cur' = .error err')
  | n + 1, cur, cur', hlength, h => by
    have hreads := cur.reads_scan isAsciiWhitespace
    by_cases hempty : (cur.scan isAsciiWhitespace).2.rest = []
    · -- Nothing but white space before the tail.
      have hspace : ∀ c ∈ cur.rest, isAsciiWhitespace c = true :=
        List.dropWhile_eq_nil_iff.mp hempty
      have hcur : lexAll cur = .ok [] := by
        rw [lexAll_eq, hempty]
        rfl
      have hcur' : lexAll cur' = lexAll ⟨cur'.pos + byteLength cur.rest, tail⟩ := by
        obtain ⟨pos, rest⟩ := cur'
        obtain rfl : rest = cur.rest ++ tail := h.rest
        exact lexAll_space hspace pos
      rw [hcur]
      constructor
      · intro ts hts
        cases hts
        rw [hcur']
        cases lexAll ⟨cur'.pos + byteLength cur.rest, tail⟩ with
        | error err => rfl
        | ok ts => rfl
      · intro err herr
        cases herr
    obtain ⟨-, hbeside⟩ := h.scan isAsciiWhitespace (.inl hempty)
    have hspace := cur.head_scan isAsciiWhitespace
    have hbytes := hreads.bytes
    have hempty' : (cur'.scan isAsciiWhitespace).2.rest ≠ [] := by
      rw [hbeside.rest]
      exact List.append_ne_nil_of_left_ne_nil hempty _
    have hsub : (cur.scan isAsciiWhitespace).2.rest.length ≤ cur.rest.length := by
      rw [hreads.1, List.length_append]
      omega
    rw [lexAll_eq cur, lexAll_eq cur', if_neg (by simpa using hempty), if_neg (by simpa using hempty')]
    have htoken := alike_nextToken hstop hbeside hempty
    have hwithin := within_nextToken hempty hspace
    cases hnext : nextToken (cur.scan isAsciiWhitespace).2 with
    | error err =>
      rw [hnext] at htoken
      constructor
      · intro ts hts
        cases hts
      · intro err' _ hmem
        obtain ⟨err'', herr⟩ := htoken hmem
        rw [herr]
        exact ⟨err'', rfl⟩
    | ok r =>
      obtain ⟨tok, next⟩ := r
      rw [hnext] at htoken hwithin
      obtain ⟨next', hnext', hafter⟩ := htoken
      obtain ⟨⟨used, hused⟩, -, hlt⟩ := hwithin
      have hshorter := hused.shorter hlt
      have hend := hused.bytes
      obtain ⟨hok, herror⟩ := lexAll_beside hstop (n := n) (by omega) hafter
      rw [hnext']
      simp only [bind, Except.bind]
      constructor
      · intro ts hts
        cases hlex : lexAll next with
        | error err =>
          rw [hlex] at hts
          cases hts
        | ok rest =>
          rw [hlex] at hts
          cases hts
          have hpos : next'.pos + byteLength next.rest = cur'.pos + byteLength cur.rest := by
            rw [hafter.pos, h.pos]
            omega
          rw [hok rest hlex, hpos]
          cases lexAll ⟨cur'.pos + byteLength cur.rest, tail⟩ with
          | error err => rfl
          | ok ts => rfl
      · intro err hts hmem
        cases hlex : lexAll next with
        | ok rest =>
          rw [hlex] at hts
          cases hts
        | error err' =>
          obtain ⟨err'', herr⟩ := herror err' hlex hmem
          rw [herr]
          exact ⟨err'', rfl⟩

end MessageCrate

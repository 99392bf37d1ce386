import MessageCrate.Search.Parse

/- Query text to tokens (`crates/server/server/src/search/lex.rs`).

   Every token carries the byte range it came from. All the bytes the lexer tests are
   ASCII, so it reads characters here and counts the bytes each one takes.

   Correspondence (Rust ↔ Lean):
     `self.pos`, `self.bytes[self.pos..]` ↔ `Cursor.pos`, `Cursor.rest`
     `self.scan(keep)`                  ↔ `Cursor.scan`, the run kept and the cursor past it
     the loop of `tokenize`             ↔ `readTokens`, on fuel: a token takes at least one
                                          character -/
namespace MessageCrate
open Text

def maxQueryBytes : Nat := 2048

/-- The bytes a text takes in UTF-8. -/
def byteLength (cs : List Char) : Nat := (cs.map (fun c => c.utf8Size)).sum

/-- Where the lexer stands: the bytes before it and the characters after it. -/
structure Cursor where
  pos : Nat
  rest : List Char

def Cursor.past (cur : Cursor) (cs rest : List Char) : Cursor := ⟨cur.pos + byteLength cs, rest⟩

/-- The run of characters `keep` accepts, and the cursor past it. -/
def Cursor.scan (cur : Cursor) (keep : Char → Bool) : List Char × Cursor :=
  let run := cur.rest.takeWhile keep
  (run, cur.past run (cur.rest.dropWhile keep))

def isAsciiWhitespace (c : Char) : Bool :=
  c == ' ' || c == '\t' || c == '\n' || c == '\x0c' || c == '\r'

def isAsciiAlphabetic (c : Char) : Bool := c.isAlpha

/-- A character that ends a bare word. -/
def isBareEnd (c : Char) : Bool := isAsciiWhitespace c || c == '(' || c == ')'

/-- Letters and hyphens, starting with a letter. -/
def isFieldWord : List Char → Bool
  | [] => false
  | c :: cs => isAsciiAlphabetic c && cs.all (fun d => isAsciiAlphabetic d || d == '-')

/-- The quoted text just after an opening quote, where `""` is one quote, and the cursor
past its closing quote. -/
def readQuoted : List Char → Nat → Option (List Char × Cursor)
  | [], _ => none
  | '"' :: '"' :: cs, pos => (readQuoted cs (pos + 2)).map (fun r => ('"' :: r.1, r.2))
  | '"' :: cs, pos => some ([], ⟨pos + 1, cs⟩)
  | c :: cs, pos => (readQuoted cs (pos + c.utf8Size)).map (fun r => (c :: r.1, r.2))

/-- The quoted value whose opening quote is at `quote`. -/
def quotedAfter (quote : Nat) (cs : List Char) : Except QueryError (List Char × Cursor) :=
  match readQuoted cs (quote + 1) with
  | some r => .ok r
  | none => .error (.new .unbalanced (quote, quote + 1 + byteLength cs) "A quote never closes.")

/-- An operator, unless negated, or a word, with a trailing `*` marking a prefix. -/
def wordOrOperator (text : String) (negated : Bool) : TokenKind :=
  let word :=
    match stripSuffix "*" text with
    | some stem => if !stem.isEmpty then TokenKind.word stem true else .word text false
    | none => .word text false
  if negated then word
  else
    match toAsciiLower text with
    | "or" => .or
    | "and" => .and
    | "not" => .not
    | _ => word

/-- `word:value`, where the value is quoted or runs to white space. -/
def readField (start : Nat) (negated : Bool) (word : String) (value : Cursor) :
    Except QueryError (Token × Cursor) :=
  match value.rest with
  | '"' :: cs => do
    let (text, next) ← quotedAfter value.pos cs
    return (⟨.field word (String.ofList text) true, (start, next.pos), negated⟩, next)
  | _ =>
    let (text, next) := value.scan (fun c => !isBareEnd c)
    .ok (⟨.field word (String.ofList text) false, (start, next.pos), negated⟩, next)

/-- A bare run up to white space or a parenthesis: a field where a field word and a colon
start it and no `/` follows, else an operator or a word. -/
def readBare (start : Nat) (negated : Bool) (cursor : Cursor) :
    Except QueryError (Token × Cursor) :=
  let (head, colon) := cursor.scan (fun c => !isBareEnd c && c != ':')
  let bare :=
    let (text, next) := cursor.scan (fun c => !isBareEnd c)
    (⟨wordOrOperator (String.ofList text) negated, (start, next.pos), negated⟩, next)
  match colon.rest with
  | ':' :: '/' :: _ => .ok bare
  | ':' :: cs =>
    if isFieldWord head then
      readField start negated (toAsciiLower (String.ofList head)) ⟨colon.pos + 1, cs⟩
    else .ok bare
  | _ => .ok bare

/-- A leading `-` negates the token after it. With nothing, a space or `)` after it, it is
a word. -/
def isNegated : List Char → Bool
  | '-' :: c :: _ => !isAsciiWhitespace c && c != ')'
  | _ => false

/-- A group's opening, a phrase or a bare run, past any `-`. -/
def readOperand (start : Nat) (negated : Bool) (cursor : Cursor) :
    Except QueryError (Token × Cursor) :=
  match cursor.rest with
  | '(' :: cs => .ok (⟨.lparen, (start, cursor.pos + 1), negated⟩, ⟨cursor.pos + 1, cs⟩)
  | '"' :: cs => do
    let (text, next) ← quotedAfter cursor.pos cs
    return (⟨.phrase (String.ofList text), (start, next.pos), negated⟩, next)
  | _ => readBare start negated cursor

/-- One token; the cursor is not on white space. -/
def nextToken (cursor : Cursor) : Except QueryError (Token × Cursor) :=
  let start := cursor.pos
  match cursor.rest with
  | ')' :: cs => .ok (⟨.rparen, (start, start + 1), false⟩, ⟨start + 1, cs⟩)
  | rest =>
    if isNegated rest then readOperand start true ⟨start + 1, rest.tail⟩
    else readOperand start false cursor

def readTokens : Nat → Cursor → Except QueryError (List Token)
  | 0, _ => .ok []
  | fuel + 1, cursor =>
    let (_, cursor) := cursor.scan isAsciiWhitespace
    if cursor.rest.isEmpty then .ok []
    else do
      let (tok, next) ← nextToken cursor
      let rest ← readTokens fuel next
      return tok :: rest

/-- The tokens of a query. A NUL separates words like a space. -/
def tokenize (input : String) : Except QueryError (List Token) :=
  let bytes := byteLength input.toList
  if maxQueryBytes < bytes then
    .error (.new .tooLong (0, bytes)
      ("The search is longer than " ++ toString maxQueryBytes ++ " bytes."))
  else
    let cs := input.toList.map (fun c => if c = '\x00' then ' ' else c)
    readTokens (cs.length + 1) ⟨0, cs⟩

/-! What a token takes. -/

/-- Past `used` the cursor is `next`. -/
def Cursor.Reads (cur : Cursor) (used : List Char) (next : Cursor) : Prop :=
  cur.rest = used ++ next.rest ∧ next.pos = cur.pos + byteLength used

section reads
variable {cur cur' next : Cursor} {used more : List Char}

theorem byteLength_append (cs ds : List Char) :
    byteLength (cs ++ ds) = byteLength cs + byteLength ds := by
  simp [byteLength]

theorem byteLength_cons (c : Char) (cs : List Char) :
    byteLength (c :: cs) = c.utf8Size + byteLength cs := by
  simp [byteLength]

theorem Cursor.Reads.refl (cur : Cursor) : cur.Reads [] cur := ⟨rfl, rfl⟩

theorem Cursor.Reads.one {c : Char} {cs : List Char} (h : cur.rest = c :: cs) :
    cur.Reads [c] ⟨cur.pos + c.utf8Size, cs⟩ := by
  refine ⟨by rw [h]; rfl, ?_⟩
  simp [byteLength]

theorem Cursor.Reads.quote {pos : Nat} {cs : List Char} :
    (⟨pos, '"' :: cs⟩ : Cursor).Reads ['"'] ⟨pos + 1, cs⟩ := Cursor.Reads.one rfl

theorem Cursor.Reads.trans (h : cur.Reads used cur') (h' : cur'.Reads more next) :
    cur.Reads (used ++ more) next := by
  refine ⟨by rw [h.1, h'.1, List.append_assoc], ?_⟩
  rw [h'.2, h.2, byteLength_append, Nat.add_assoc]

/-- The bytes after the cursor count down as it moves. -/
theorem Cursor.Reads.bytes (h : cur.Reads used next) :
    next.pos + byteLength next.rest = cur.pos + byteLength cur.rest := by
  rw [h.1, h.2, byteLength_append]
  omega

theorem Cursor.Reads.shorter (h : cur.Reads used next) (hpos : cur.pos < next.pos) :
    next.rest.length < cur.rest.length := by
  have hused : used ≠ [] := by
    rintro rfl
    exact absurd h.2 (by simp [byteLength]; omega)
  have hlength := List.length_pos_of_ne_nil hused
  rw [h.1, List.length_append]
  omega

theorem Cursor.reads_scan (cur : Cursor) (keep : Char → Bool) :
    cur.Reads (cur.scan keep).1 (cur.scan keep).2 :=
  ⟨List.takeWhile_append_dropWhile.symm, rfl⟩

/-- A scan that keeps the first character advances. -/
theorem Cursor.lt_scan {keep : Char → Bool} (hne : cur.rest ≠ [])
    (h : ∀ c ∈ cur.rest.head?, keep c = true) : cur.pos < (cur.scan keep).2.pos := by
  obtain ⟨c, cs, hcs⟩ := List.exists_cons_of_ne_nil hne
  have hc : keep c = true := h c (by rw [hcs]; rfl)
  have hsize := c.utf8Size_pos
  have hpos : (cur.scan keep).2.pos = cur.pos + byteLength (cur.rest.takeWhile keep) := rfl
  rw [hpos, hcs, List.takeWhile_cons_of_pos hc, byteLength_cons]
  omega

end reads

/-- What a reader owes that starts a token at `start` and stands at `cur`: the token ends where
the reader does, past its start, and an error points from the cursor on to the end. -/
def Within (start : Nat) (cur : Cursor) : Except QueryError (Token × Cursor) → Prop
  | .ok (tok, next) =>
    (∃ used, cur.Reads used next) ∧ tok.span = (start, next.pos) ∧ start < next.pos
  | .error err =>
    cur.pos ≤ err.span.1 ∧ err.span.1 ≤ err.span.2 ∧ err.span.2 = cur.pos + byteLength cur.rest

/-- A reader further on. -/
theorem Within.later {start : Nat} {cur next : Cursor} {used : List Char}
    {result : Except QueryError (Token × Cursor)} (hreads : cur.Reads used next)
    (h : Within start next result) : Within start cur result := by
  have hbytes := hreads.bytes
  have hpos := hreads.2
  cases result with
  | ok r =>
    obtain ⟨⟨more, hmore⟩, hspan⟩ := h
    exact ⟨⟨used ++ more, hreads.trans hmore⟩, hspan⟩
  | error err =>
    obtain ⟨hstart, hle, hend⟩ := h
    exact ⟨by omega, hle, by omega⟩

theorem readQuoted_reads {cs text : List Char} {pos : Nat} {next : Cursor}
    (h : readQuoted cs pos = some (text, next)) : ∃ used, (⟨pos, cs⟩ : Cursor).Reads used next := by
  fun_induction readQuoted cs pos generalizing text with
  | case1 => cases h
  | case2 cs pos ih =>
    obtain ⟨⟨inner, next'⟩, hinner, heq⟩ := Option.map_eq_some_iff.mp h
    cases heq
    obtain ⟨used, hused⟩ := ih hinner
    exact ⟨_, Cursor.Reads.quote.trans (Cursor.Reads.quote.trans hused)⟩
  | case3 cs pos =>
    cases h
    exact ⟨_, Cursor.Reads.quote⟩
  | case4 c cs pos _ _ ih =>
    obtain ⟨⟨inner, next'⟩, hinner, heq⟩ := Option.map_eq_some_iff.mp h
    cases heq
    obtain ⟨used, hused⟩ := ih hinner
    exact ⟨_, (Cursor.Reads.one rfl).trans hused⟩

/-- A token that is a quote and the text in it, from a cursor on the quote. -/
theorem within_quotedAfter {start : Nat} {cur : Cursor} {cs : List Char} {negated : Bool}
    (kind : String → TokenKind) (hrest : cur.rest = '"' :: cs) (hstart : start ≤ cur.pos) :
    Within start cur (do
      let (text, next) ← quotedAfter cur.pos cs
      return (⟨kind (String.ofList text), (start, next.pos), negated⟩, next)) := by
  have hquote : cur.Reads ['"'] ⟨cur.pos + 1, cs⟩ := Cursor.Reads.one hrest
  unfold quotedAfter
  cases hquoted : readQuoted cs (cur.pos + 1) with
  | none =>
    refine ⟨Nat.le_refl _, ?_, ?_⟩
    · show cur.pos ≤ cur.pos + 1 + byteLength cs
      omega
    · exact hquote.bytes
  | some r =>
    obtain ⟨text, next⟩ := r
    obtain ⟨used, hused⟩ := readQuoted_reads hquoted
    have hpos : next.pos = cur.pos + 1 + byteLength used := hused.2
    refine ⟨⟨_, hquote.trans hused⟩, rfl, ?_⟩
    omega

theorem within_readField {start : Nat} {negated : Bool} {word : String} {value : Cursor}
    (hstart : start < value.pos) : Within start value (readField start negated word value) := by
  unfold readField
  split
  · next cs hcs => exact within_quotedAfter (fun text => .field word text true) hcs hstart.le
  · have hscan := value.reads_scan (fun c => !isBareEnd c)
    have hpos := hscan.2
    refine ⟨⟨_, hscan⟩, rfl, ?_⟩
    show start < (value.scan (fun c => !isBareEnd c)).2.pos
    omega

theorem within_readBare {start : Nat} {negated : Bool} {cur : Cursor} (hne : cur.rest ≠ [])
    (hend : ∀ c ∈ cur.rest.head?, isBareEnd c = false) (hstart : start ≤ cur.pos) :
    Within start cur (readBare start negated cur) := by
  have hbare : cur.pos < (cur.scan (fun c => !isBareEnd c)).2.pos :=
    Cursor.lt_scan hne (fun c hc => by simp [hend c hc])
  have hword : Within start cur (.ok
      (⟨wordOrOperator (String.ofList (cur.scan (fun c => !isBareEnd c)).1) negated,
        (start, (cur.scan (fun c => !isBareEnd c)).2.pos), negated⟩,
        (cur.scan (fun c => !isBareEnd c)).2)) :=
    ⟨⟨_, cur.reads_scan _⟩, rfl, by omega⟩
  have hhead := cur.reads_scan (fun c => !isBareEnd c && c != ':')
  unfold readBare
  simp only
  split
  · exact hword
  · next cs _ hcolon =>
    split
    · have hvalue := hhead.trans (Cursor.Reads.one hcolon)
      have hpos := hhead.2
      exact (within_readField (by show start < _ + 1; omega)).later hvalue
    · exact hword
  · exact hword

theorem within_readOperand {start : Nat} {negated : Bool} {cur : Cursor} (hne : cur.rest ≠ [])
    (hend : ∀ c ∈ cur.rest.head?, isAsciiWhitespace c = false ∧ c ≠ ')')
    (hstart : start ≤ cur.pos) : Within start cur (readOperand start negated cur) := by
  unfold readOperand
  split
  · next cs hcs =>
    refine ⟨⟨_, Cursor.Reads.one hcs⟩, rfl, ?_⟩
    show start < cur.pos + 1
    omega
  · next cs hcs => exact within_quotedAfter .phrase hcs hstart
  · next hopen _ =>
    apply within_readBare hne _ hstart
    intro c hc
    obtain ⟨cs, hcs⟩ : ∃ cs, cur.rest = c :: cs := List.head?_eq_some_iff.mp hc
    have hopen' : c ≠ '(' := fun heq => hopen cs (by rw [hcs, heq])
    simp [isBareEnd, (hend c hc).1, (hend c hc).2, hopen']

theorem nextToken_close {cur : Cursor} {cs : List Char} (h : cur.rest = ')' :: cs) :
    nextToken cur = .ok (⟨.rparen, (cur.pos, cur.pos + 1), false⟩, ⟨cur.pos + 1, cs⟩) := by
  rw [nextToken, h]
  rfl

theorem nextToken_operand {cur : Cursor} (h : ∀ cs, cur.rest ≠ ')' :: cs) :
    nextToken cur =
      if isNegated cur.rest then readOperand cur.pos true ⟨cur.pos + 1, cur.rest.tail⟩
      else readOperand cur.pos false cur := by
  unfold nextToken
  split
  · next cs hcs => exact absurd hcs (h cs)
  · rfl

/-- What a minus is attached to. -/
theorem isNegated_cons {cs : List Char} (h : isNegated cs = true) :
    ∃ c rest, cs = '-' :: c :: rest ∧ isAsciiWhitespace c = false ∧ c ≠ ')' := by
  unfold isNegated at h
  split at h
  · next c rest =>
    have hend : isAsciiWhitespace c = false ∧ c ≠ ')' := by simpa using h
    exact ⟨c, rest, rfl, hend⟩
  · cases h

/-- **A token starts at the cursor, takes at least one character, and ends at the next
cursor.** -/
theorem within_nextToken {cur : Cursor} (hne : cur.rest ≠ [])
    (hspace : ∀ c ∈ cur.rest.head?, isAsciiWhitespace c = false) :
    Within cur.pos cur (nextToken cur) := by
  by_cases hclose : ∃ cs, cur.rest = ')' :: cs
  · obtain ⟨cs, hcs⟩ := hclose
    rw [nextToken_close hcs]
    exact ⟨⟨_, Cursor.Reads.one hcs⟩, rfl, Nat.lt_succ_self _⟩
  rw [nextToken_operand (not_exists.mp hclose)]
  split
  · next hneg =>
    obtain ⟨c, cs, hcs, hend⟩ := isNegated_cons hneg
    have hminus : cur.Reads ['-'] ⟨cur.pos + 1, c :: cs⟩ := Cursor.Reads.one hcs
    rw [hcs, List.tail_cons]
    refine (within_readOperand (List.cons_ne_nil _ _) ?_ (Nat.le_succ _)).later hminus
    simpa using hend
  · refine within_readOperand hne ?_ (Nat.le_refl _)
    intro c hc
    refine ⟨hspace c hc, ?_⟩
    rintro rfl
    exact hclose (List.head?_eq_some_iff.mp hc)

/-- After white space comes a character that is none. -/
theorem Cursor.head_scan (cur : Cursor) (keep : Char → Bool) :
    ∀ c ∈ (cur.scan keep).2.rest.head?, keep c = false := by
  intro c hc
  have := List.head?_dropWhile_not keep cur.rest
  have hdrop : (cur.rest.dropWhile keep).head? = some c := hc
  rw [hdrop] at this
  simpa using this

/-- More fuel than characters changes nothing. -/
theorem readTokens_fuel : ∀ {fuel more : Nat} {cursor : Cursor}, cursor.rest.length < fuel →
    readTokens (fuel + more) cursor = readTokens fuel cursor
  | 0, _, _, h => by omega
  | fuel + 1, more, cursor, h => by
    rw [show fuel + 1 + more = fuel + more + 1 by omega, readTokens, readTokens]
    simp only
    have hscan := cursor.reads_scan isAsciiWhitespace
    have hspace := cursor.head_scan isAsciiWhitespace
    generalize (cursor.scan isAsciiWhitespace).2 = word at hscan hspace
    split
    · rfl
    · next hne =>
      have hwithin := within_nextToken (by simpa using hne) hspace
      cases hnext : nextToken word with
      | error err => rfl
      | ok r =>
        obtain ⟨tok, next⟩ := r
        rw [hnext] at hwithin
        obtain ⟨⟨used, hused⟩, -, hpos⟩ := hwithin
        have hshorter := hused.shorter hpos
        have hsub : word.rest.length ≤ cursor.rest.length := by
          rw [hscan.1, List.length_append]
          omega
        have htail : readTokens (fuel + more) next = readTokens fuel next :=
          readTokens_fuel (by omega)
        simp only [bind, Except.bind, htail]

end MessageCrate

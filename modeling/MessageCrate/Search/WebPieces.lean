import MessageCrate.Search.Lex

/- Query text to pieces in the web app (`src/web/src/lib/searchQuery.ts`).

   The search box reads a query without asking the server, to complete the word that is being
   typed and to join typed text to a page's filter. It has a lexer of its own for this, which has
   to cut a query where the server's lexer does.

   What is proved:
     1. `agrees_readPiece`: standing at the same character, the two lexers read one token that ends
        at the same character, or a quote never closes and the web app reads to the end.
     2. `searchTokens_follow_tokenize`: so of a query the server reads, the two have the same pieces
        in the same order, and the web app's opens and closes are the server's parentheses.

   Correspondence (TypeScript ↔ Lean):
     `query[i..]`, `i`               ↔ `Spot.rest`, `Spot.index`, in UTF-16 units
     `query[i] === undefined`        ↔ an empty `Spot.rest`
     the regular expression of a word ↔ `isWord`
     the loop of `searchTokens`      ↔ `readPieces`, on fuel: a piece takes at least one character

   Every character that is tested is one unit long, so a text is read by its characters. -/
namespace MessageCrate.Web
open Text

/-! Reading a query. -/

/-- The units a character takes in UTF-16. -/
def unitSize (c : Char) : Nat := if c.toNat < 0x10000 then 1 else 2

def unitLength (cs : List Char) : Nat := (cs.map unitSize).sum

inductive SearchTokenKind where
  | opens
  | closes
  | text
  deriving DecidableEq, Repr

/-- Where a token starts and ends (the source's `end`). -/
structure SearchToken where
  kind : SearchTokenKind
  start : Nat
  stop : Nat
  deriving DecidableEq, Repr

/-- A place in the query. -/
structure Spot where
  index : Nat
  rest : List Char

/-- Past the characters `keep` accepts. -/
def Spot.skip (i : Spot) (keep : Char → Bool) : Spot :=
  ⟨i.index + unitLength (i.rest.takeWhile keep), i.rest.dropWhile keep⟩

def isSpace (c : Char) : Bool :=
  c == ' ' || c == '\t' || c == '\n' || c == '\x0c' || c == '\r' || c == '\x00'

def isBareEnd (c : Char) : Bool := isSpace c || c == '(' || c == ')'

/-- `^[A-Za-z][A-Za-z-]*$`. -/
def isWord : List Char → Bool
  | [] => false
  | c :: cs => c.isAlpha && cs.all (fun d => d.isAlpha || d == '-')

/-- Just past the quoted value after an opening quote. A quote that never closes runs to the
end. -/
def quotedEnd : List Char → Nat → Spot
  | [], i => ⟨i, []⟩
  | '"' :: '"' :: cs, i => quotedEnd cs (i + 2)
  | '"' :: cs, i => ⟨i + 1, cs⟩
  | c :: cs, i => quotedEnd cs (i + unitSize c)

/-- Just past a word, a phrase or a field. -/
def textEnd (i : Spot) : Spot :=
  match i.rest with
  | '"' :: cs => quotedEnd cs (i.index + 1)
  | _ =>
    let head := i.skip (fun c => !isBareEnd c && c != ':')
    let bare := i.skip (fun c => !isBareEnd c)
    match head.rest with
    | ':' :: '"' :: cs =>
      if isWord (i.rest.takeWhile (fun c => !isBareEnd c && c != ':')) then
        quotedEnd cs (head.index + 2)
      else bare
    | _ => bare

/-- A `-` with nothing, a space, or `)` after it is a word of its own. -/
def takesMinus : List Char → Bool
  | '-' :: c :: _ => !isSpace c && c != ')'
  | _ => false

/-- A token past any `-`. -/
def readOperand (start : Nat) (i : Spot) : SearchToken × Spot :=
  match i.rest with
  | '(' :: cs => (⟨.opens, start, i.index + 1⟩, ⟨i.index + 1, cs⟩)
  | _ => (⟨.text, start, (textEnd i).index⟩, textEnd i)

/-- One token; the place is not on a space. -/
def readPiece (i : Spot) : SearchToken × Spot :=
  match i.rest with
  | ')' :: cs => (⟨.closes, i.index, i.index + 1⟩, ⟨i.index + 1, cs⟩)
  | rest =>
    if takesMinus rest then readOperand i.index ⟨i.index + 1, rest.tail⟩
    else readOperand i.index i

def readPieces : Nat → Spot → List SearchToken
  | 0, _ => []
  | fuel + 1, i =>
    let i := i.skip isSpace
    if i.rest.isEmpty then []
    else
      let (tok, next) := readPiece i
      tok :: readPieces fuel next

def searchTokens (query : String) : List SearchToken :=
  readPieces (query.toList.length + 1) ⟨0, query.toList⟩

example : searchTokens "-(tag:\"a b\" x)" =
    [⟨.opens, 0, 2⟩, ⟨.text, 2, 11⟩, ⟨.text, 12, 13⟩, ⟨.closes, 13, 14⟩] := by decide +kernel

/-! The server's lexer beside it. -/

/-- A NUL is a space to the server. -/
def spaced (c : Char) : Char := if c = '\x00' then ' ' else c

theorem utf8Size_spaced (c : Char) : (spaced c).utf8Size = c.utf8Size := by
  unfold spaced
  split
  · next h =>
    rw [h]
    decide
  · rfl

theorem byteLength_spaced (cs : List Char) : byteLength (cs.map spaced) = byteLength cs := by
  simp [byteLength, Function.comp_def, utf8Size_spaced]

/-- A character the server tests for, other than the space. -/
theorem spaced_eq_iff {c d : Char} (hspace : d ≠ ' ') (hnul : d ≠ '\x00') :
    spaced c = d ↔ c = d := by
  unfold spaced
  split
  · next h =>
    rw [h]
    exact ⟨fun heq => absurd heq.symm hspace, fun heq => absurd heq.symm hnul⟩
  · rfl

theorem map_spaced_eq_cons {d : Char} {cs ds : List Char} (hspace : d ≠ ' ') (hnul : d ≠ '\x00')
    (h : cs.map spaced = d :: ds) : ∃ ds', cs = d :: ds' ∧ ds'.map spaced = ds := by
  obtain ⟨c, cs', rfl, hc, hcs⟩ := List.map_eq_cons_iff.mp h
  exact ⟨cs', by rw [(spaced_eq_iff hspace hnul).mp hc], hcs⟩

theorem isAsciiWhitespace_spaced (c : Char) : isAsciiWhitespace (spaced c) = isSpace c := by
  unfold spaced
  split
  · next h =>
    rw [h]
    decide
  · next h => simp [isAsciiWhitespace, isSpace, h]

theorem isBareEnd_spaced (c : Char) : MessageCrate.isBareEnd (spaced c) = isBareEnd c := by
  have hopen : (spaced c == '(') = (c == '(') := by
    rw [Bool.eq_iff_iff, beq_iff_eq, beq_iff_eq]
    exact spaced_eq_iff (by decide) (by decide)
  have hclose : (spaced c == ')') = (c == ')') := by
    rw [Bool.eq_iff_iff, beq_iff_eq, beq_iff_eq]
    exact spaced_eq_iff (by decide) (by decide)
  rw [MessageCrate.isBareEnd, isBareEnd, isAsciiWhitespace_spaced, hopen, hclose]

theorem isAlpha_spaced (c : Char) : (spaced c).isAlpha = c.isAlpha := by
  unfold spaced
  split
  · next h =>
    rw [h]
    decide
  · rfl

theorem isFieldWord_spaced (cs : List Char) : isFieldWord (cs.map spaced) = isWord cs := by
  cases cs with
  | nil => rfl
  | cons c cs =>
    have hminus : ∀ d, (spaced d == '-') = (d == '-') := by
      intro d
      rw [Bool.eq_iff_iff, beq_iff_eq, beq_iff_eq]
      exact spaced_eq_iff (by decide) (by decide)
    simp only [List.map_cons, isFieldWord, isWord, isAsciiAlphabetic, isAlpha_spaced, List.all_map,
      Function.comp_def, hminus]

theorem unitLength_append (cs ds : List Char) :
    unitLength (cs ++ ds) = unitLength cs + unitLength ds := by
  simp [unitLength]

theorem unitLength_cons (c : Char) (cs : List Char) :
    unitLength (c :: cs) = unitSize c + unitLength cs := by
  simp [unitLength]

/-- Both readers stand past `before` in the query `q`. -/
structure At (q before : List Char) (cur : Cursor) (i : Spot) : Prop where
  query : q = before ++ i.rest
  rest : cur.rest = i.rest.map spaced
  pos : cur.pos = byteLength before
  index : i.index = unitLength before

section at'
variable {q before used rest : List Char} {cur : Cursor} {i : Spot}

/-- Both move past the same characters. -/
theorem At.move (h : At q before cur i) (hrest : i.rest = used ++ rest) :
    At q (before ++ used) ⟨cur.pos + byteLength used, rest.map spaced⟩
      ⟨i.index + unitLength used, rest⟩ where
  query := by rw [h.query, hrest, List.append_assoc]
  rest := rfl
  pos := by
    show cur.pos + byteLength used = byteLength (before ++ used)
    rw [h.pos, byteLength_append]
  index := by
    show i.index + unitLength used = unitLength (before ++ used)
    rw [h.index, unitLength_append]

/-- One character, which is one byte and one unit. -/
theorem At.step (h : At q before cur i) {c : Char} (hrest : i.rest = c :: rest)
    (hbyte : c.utf8Size = 1) (hunit : unitSize c = 1) :
    At q (before ++ [c]) ⟨cur.pos + 1, rest.map spaced⟩ ⟨i.index + 1, rest⟩ := by
  have hmove : At q (before ++ [c]) ⟨cur.pos + byteLength [c], rest.map spaced⟩
      ⟨i.index + unitLength [c], rest⟩ := h.move hrest
  have hbytes : byteLength [c] = 1 := by simp [byteLength, hbyte]
  have hunits : unitLength [c] = 1 := by simp [unitLength, hunit]
  rw [hbytes, hunits] at hmove
  exact hmove

theorem takeWhile_spaced {keep keep' : Char → Bool} (hkeep : ∀ c, keep (spaced c) = keep' c)
    (cs : List Char) : (cs.map spaced).takeWhile keep = (cs.takeWhile keep').map spaced := by
  rw [List.takeWhile_map]
  congr 1
  congr 1
  funext c
  exact hkeep c

theorem dropWhile_spaced {keep keep' : Char → Bool} (hkeep : ∀ c, keep (spaced c) = keep' c)
    (cs : List Char) : (cs.map spaced).dropWhile keep = (cs.dropWhile keep').map spaced := by
  rw [List.dropWhile_map]
  congr 1
  congr 1
  funext c
  exact hkeep c

/-- Both skip the same characters. -/
theorem At.scan (h : At q before cur i) (keep keep' : Char → Bool)
    (hkeep : ∀ c, keep (spaced c) = keep' c) :
    (cur.scan keep).1 = (i.rest.takeWhile keep').map spaced ∧
      At q (before ++ i.rest.takeWhile keep') (cur.scan keep).2 (i.skip keep') := by
  have hrun : cur.rest.takeWhile keep = (i.rest.takeWhile keep').map spaced := by
    rw [h.rest, takeWhile_spaced hkeep]
  have hdrop : cur.rest.dropWhile keep = (i.rest.dropWhile keep').map spaced := by
    rw [h.rest, dropWhile_spaced hkeep]
  have hmove := h.move (List.takeWhile_append_dropWhile (p := keep')).symm
  have hcur : (cur.scan keep).2 =
      ⟨cur.pos + byteLength (i.rest.takeWhile keep'), (i.rest.dropWhile keep').map spaced⟩ := by
    show Cursor.mk (cur.pos + byteLength (cur.rest.takeWhile keep)) (cur.rest.dropWhile keep) = _
    rw [hrun, hdrop, byteLength_spaced]
  exact ⟨hrun, hcur ▸ hmove⟩

end at'

/-! Quoted values. -/

theorem readQuoted_close {cs : List Char} (h : ∀ cs', cs ≠ '"' :: cs') (pos : Nat) :
    readQuoted ('"' :: cs) pos = some ([], ⟨pos + 1, cs⟩) := by
  cases cs with
  | nil => rw [readQuoted]; intro cs' h'; cases h'
  | cons d ds =>
    have hd : d ≠ '"' := fun heq => h ds (by rw [heq])
    rw [readQuoted]
    rintro cs' ⟨⟩
    exact hd rfl

theorem readQuoted_other {c : Char} (hc : c ≠ '"') (cs : List Char) (pos : Nat) :
    readQuoted (c :: cs) pos =
      (readQuoted cs (pos + c.utf8Size)).map (fun r => (c :: r.1, r.2)) := by
  rw [readQuoted]
  · rintro cs' rfl
    exact absurd rfl hc
  · rintro rfl
    exact absurd rfl hc

/-- What the server reads of a quoted value, the web app does: both stop past its closing quote,
or neither finds one. -/
theorem readQuoted_spaced (cs : List Char) (pos i : Nat) :
    (∀ text next, readQuoted (cs.map spaced) pos = some (text, next) → ∃ used rest,
      cs = used ++ rest ∧ next = ⟨pos + byteLength used, rest.map spaced⟩ ∧
        quotedEnd cs i = ⟨i + unitLength used, rest⟩) ∧
    (readQuoted (cs.map spaced) pos = none → quotedEnd cs i = ⟨i + unitLength cs, []⟩) := by
  have hquote : spaced '"' = '"' := rfl
  fun_induction quotedEnd cs i generalizing pos with
  | case1 i =>
    constructor
    · intro text next h
      cases h
    · intro _
      rfl
  | case2 cs i ih =>
    have hread : readQuoted (('"' :: '"' :: cs).map spaced) pos =
        (readQuoted (cs.map spaced) (pos + 2)).map (fun r => ('"' :: r.1, r.2)) := by
      rw [List.map_cons, List.map_cons, hquote, readQuoted]
    obtain ⟨hsome, hnone⟩ := ih (pos + 2)
    rw [hread]
    constructor
    · intro text next h
      obtain ⟨r, hr, heq⟩ := Option.map_eq_some_iff.mp h
      cases heq
      obtain ⟨used, rest, hcs, hnext, hend⟩ := hsome r.1 r.2 hr
      refine ⟨'"' :: '"' :: used, rest, by rw [hcs]; rfl, ?_, ?_⟩
      · rw [hnext, byteLength_cons, byteLength_cons, show '"'.utf8Size = 1 from rfl]
        congr 1
        omega
      · rw [hend, unitLength_cons, unitLength_cons, show unitSize '"' = 1 from rfl]
        congr 1
        omega
    · intro h
      rw [hnone (Option.map_eq_none_iff.mp h), unitLength_cons, unitLength_cons,
        show unitSize '"' = 1 from rfl]
      congr 1
      omega
  | case3 cs i hcs =>
    have hopen : ∀ cs', cs.map spaced ≠ '"' :: cs' := by
      intro cs' heq
      obtain ⟨d, ds, hds, hd, -⟩ := List.map_eq_cons_iff.mp heq
      rw [spaced_eq_iff (by decide) (by decide)] at hd
      exact hcs ds (by rw [hds, hd])
    rw [List.map_cons, hquote, readQuoted_close hopen]
    constructor
    · intro text next h
      cases h
      exact ⟨['"'], cs, rfl, rfl, rfl⟩
    · intro h
      cases h
  | case4 c cs i hc hc' ih =>
    have hother : c ≠ '"' := hc'
    have hspaced : spaced c ≠ '"' := by
      rw [Ne, spaced_eq_iff (by decide) (by decide)]
      exact hother
    obtain ⟨hsome, hnone⟩ := ih (pos + c.utf8Size)
    rw [List.map_cons, readQuoted_other hspaced, utf8Size_spaced]
    constructor
    · intro text next h
      obtain ⟨r, hr, heq⟩ := Option.map_eq_some_iff.mp h
      cases heq
      obtain ⟨used, rest, hcs, hnext, hend⟩ := hsome r.1 r.2 hr
      refine ⟨c :: used, rest, by rw [hcs]; rfl, ?_, ?_⟩
      · rw [hnext, byteLength_cons, Nat.add_assoc]
      · rw [hend, unitLength_cons, Nat.add_assoc]
    · intro h
      rw [hnone (Option.map_eq_none_iff.mp h), unitLength_cons, Nat.add_assoc]

/-! One token. -/

/-- The web app's opens and closes are the server's parentheses. -/
def SameKind (kind : SearchTokenKind) (kind' : TokenKind) : Prop :=
  (kind = .opens ↔ kind' = .lparen) ∧ (kind = .closes ↔ kind' = .rparen)

/-- What the web app's reader owes the server's: after a token that is no parenthesis both stand
past the same characters, and after a quote that never closes the web app is at the end. -/
def Cut (q before : List Char) (next' : Spot) : Except QueryError (Token × Cursor) → Prop
  | .ok (tok, next) =>
    (∃ used, At q (before ++ used) next next') ∧ tok.kind ≠ .lparen ∧ tok.kind ≠ .rparen
  | .error _ => next' = ⟨unitLength q, []⟩

section cut
variable {q before : List Char} {cur : Cursor} {i : Spot} {start : Nat} {negated : Bool}

theorem Cut.later {used : List Char} {next' : Spot} {r : Except QueryError (Token × Cursor)}
    (h : Cut q (before ++ used) next' r) : Cut q before next' r := by
  cases r with
  | error err => exact h
  | ok r =>
    obtain ⟨⟨more, hmore⟩, hkind⟩ := h
    exact ⟨⟨used ++ more, by rw [← List.append_assoc]; exact hmore⟩, hkind⟩

/-- From a quote on. -/
theorem cut_quoted {cs : List Char} (kind : String → TokenKind) (h : At q before cur i)
    (hrest : i.rest = '"' :: cs) (hopen : ∀ text, kind text ≠ .lparen)
    (hclose : ∀ text, kind text ≠ .rparen) :
    Cut q before (quotedEnd cs (i.index + 1)) (do
      let (text, next) ← quotedAfter cur.pos (cs.map spaced)
      return (⟨kind (String.ofList text), (start, next.pos), negated⟩, next)) := by
  have hin := h.step hrest rfl rfl
  obtain ⟨hsome, hnone⟩ := readQuoted_spaced cs (cur.pos + 1) (i.index + 1)
  unfold quotedAfter
  cases hread : readQuoted (cs.map spaced) (cur.pos + 1) with
  | none =>
    show quotedEnd cs (i.index + 1) = ⟨unitLength q, []⟩
    rw [hnone hread, h.query, hrest, unitLength_append, unitLength_cons, ← h.index,
      show unitSize '"' = 1 from rfl, Nat.add_assoc]
  | some r =>
    obtain ⟨text, next⟩ := r
    obtain ⟨used, rest, hcs, hnext, hend⟩ := hsome text next hread
    refine ⟨⟨['"'] ++ used, ?_⟩, hopen _, hclose _⟩
    rw [hnext, hend, ← List.append_assoc]
    exact hin.move hcs

theorem cut_bare (h : At q before cur i) (kind : TokenKind) (hopen : kind ≠ .lparen)
    (hclose : kind ≠ .rparen) :
    Cut q before (i.skip (fun c => !isBareEnd c))
      (.ok (⟨kind, (start, (cur.scan (fun c => !MessageCrate.isBareEnd c)).2.pos), negated⟩,
        (cur.scan (fun c => !MessageCrate.isBareEnd c)).2)) := by
  have hkeep : ∀ c, (!MessageCrate.isBareEnd (spaced c)) = (!isBareEnd c) := by
    intro c
    rw [isBareEnd_spaced]
  exact ⟨⟨_, (h.scan _ _ hkeep).2⟩, hopen, hclose⟩

theorem wordOrOperator_ne_lparen (text : String) (negated : Bool) :
    wordOrOperator text negated ≠ .lparen := by
  unfold wordOrOperator
  grind

theorem wordOrOperator_ne_rparen (text : String) (negated : Bool) :
    wordOrOperator text negated ≠ .rparen := by
  unfold wordOrOperator
  grind

/-- A narrower skip, and then a wider one. -/
theorem Spot.skip_skip (i : Spot) (keep keep' : Char → Bool)
    (h : ∀ c, keep' c = true → keep c = true) : (i.skip keep').skip keep = i.skip keep := by
  obtain ⟨index, cs⟩ := i
  induction cs generalizing index with
  | nil => rfl
  | cons c cs ih =>
    by_cases hc : keep' c = true
    · have hnarrow : (⟨index, c :: cs⟩ : Spot).skip keep' = (⟨index + unitSize c, cs⟩ : Spot).skip keep' := by
        simp [Spot.skip, hc, unitLength_cons, Nat.add_assoc]
      have hwide : (⟨index, c :: cs⟩ : Spot).skip keep =
          (⟨index + unitSize c, cs⟩ : Spot).skip keep := by
        simp [Spot.skip, h c hc, unitLength_cons, Nat.add_assoc]
      rw [hnarrow, hwide]
      exact ih _
    · have hnone : (⟨index, c :: cs⟩ : Spot).skip keep' = ⟨index, c :: cs⟩ := by
        simp [Spot.skip, hc, unitLength]
      rw [hnone]

theorem Spot.skip_cons {keep : Char → Bool} {c : Char} (h : keep c = true) (index : Nat)
    (cs : List Char) :
    (⟨index, c :: cs⟩ : Spot).skip keep = (⟨index + unitSize c, cs⟩ : Spot).skip keep := by
  simp [Spot.skip, h, unitLength_cons, Nat.add_assoc]

/-- A word, an operator or a field. -/
theorem cut_readBare (h : At q before cur i) (hquote : ∀ cs, i.rest ≠ '"' :: cs) :
    Cut q before (textEnd i) (readBare start negated cur) := by
  have hkeep : ∀ c, (!MessageCrate.isBareEnd (spaced c) && spaced c != ':') =
      (!isBareEnd c && c != ':') := by
    intro c
    have hcolon : (spaced c == ':') = (c == ':') := by
      rw [Bool.eq_iff_iff, beq_iff_eq, beq_iff_eq]
      exact spaced_eq_iff (by decide) (by decide)
    rw [isBareEnd_spaced, bne, bne, hcolon]
  obtain ⟨hhead, hcolon⟩ := h.scan (fun c => !MessageCrate.isBareEnd c && c != ':')
    (fun c => !isBareEnd c && c != ':') hkeep
  have hend : textEnd i =
      match (i.skip (fun c => !isBareEnd c && c != ':')).rest with
      | ':' :: '"' :: cs =>
        if isWord (i.rest.takeWhile (fun c => !isBareEnd c && c != ':')) then
          quotedEnd cs ((i.skip (fun c => !isBareEnd c && c != ':')).index + 2)
        else i.skip (fun c => !isBareEnd c)
      | _ => i.skip (fun c => !isBareEnd c) := by
    unfold textEnd
    split
    · next cs hcs => exact absurd hcs (hquote cs)
    · rfl
  have hbare : Cut q before (i.skip (fun c => !isBareEnd c)) (.ok
      (⟨wordOrOperator (String.ofList (cur.scan (fun c => !MessageCrate.isBareEnd c)).1) negated,
        (start, (cur.scan (fun c => !MessageCrate.isBareEnd c)).2.pos), negated⟩,
        (cur.scan (fun c => !MessageCrate.isBareEnd c)).2)) :=
    cut_bare h _ (wordOrOperator_ne_lparen _ _) (wordOrOperator_ne_rparen _ _)
  have hwords := isFieldWord_spaced (i.rest.takeWhile (fun c => !isBareEnd c && c != ':'))
  have hskip := i.skip_skip (fun c => !isBareEnd c) (fun c => !isBareEnd c && c != ':')
    (fun c hc => (Bool.and_eq_true _ _ ▸ hc).1)
  unfold readBare
  simp only
  rw [hcolon.rest, hhead]
  generalize i.skip (fun c => !isBareEnd c && c != ':') = colon at hcolon hskip hend
  generalize (cur.scan (fun c => !MessageCrate.isBareEnd c && c != ':')).2 = colon' at hcolon
  generalize i.rest.takeWhile (fun c => !isBareEnd c && c != ':') = head at hcolon hwords hend
  split
  · next slash hslash =>
    -- A `/` after the colon: the whole run, to both.
    obtain ⟨cs, hcs, hmap⟩ := map_spaced_eq_cons (by decide) (by decide) hslash
    obtain ⟨ds, rfl, -⟩ := map_spaced_eq_cons (by decide) (by decide) hmap
    rw [hend, hcs]
    exact hbare
  · next value _ hvalue =>
    obtain ⟨cs, hcs, rfl⟩ := map_spaced_eq_cons (by decide) (by decide) hvalue
    rw [hwords]
    cases hword : isWord head with
    | false =>
      rw [if_neg Bool.false_ne_true, hend, hword]
      split
      · exact hbare
      · exact hbare
    | true =>
      have hpast := hcolon.step hcs rfl rfl
      rw [if_pos rfl]
      unfold readField
      split
      · next quoted hquoted =>
        obtain ⟨ds, hds, rfl⟩ := map_spaced_eq_cons (by decide) (by decide) hquoted
        rw [hend, hcs, hds, hword]
        exact (cut_quoted
          (fun text => .field (toAsciiLower (String.ofList (head.map spaced))) text true)
          hpast hds (fun _ => TokenKind.noConfusion) (fun _ => TokenKind.noConfusion)).later.later
      · next hplain =>
        have hbareEnd : i.skip (fun c => !isBareEnd c) =
            (⟨colon.index + 1, cs⟩ : Spot).skip (fun c => !isBareEnd c) := by
          rw [← hskip]
          obtain ⟨index, rest⟩ := colon
          cases hcs
          exact Spot.skip_cons (by decide) index cs
        rw [hend, hcs]
        split
        · next ds hds =>
          cases hds
          exact absurd rfl (hplain (ds.map spaced))
        · rw [hbareEnd]
          exact (cut_bare hpast _ TokenKind.noConfusion TokenKind.noConfusion).later.later
  · next hnone =>
    rw [hend]
    split
    · next ds hds =>
      rw [hds] at hnone
      exact absurd rfl (hnone (('"' :: ds).map spaced))
    · exact hbare

theorem isNegated_at (h : At q before cur i) : isNegated cur.rest = takesMinus i.rest := by
  rw [h.rest]
  unfold takesMinus
  split
  · next c cs hcs =>
    have hparen : (spaced c == ')') = (c == ')') := by
      rw [Bool.eq_iff_iff, beq_iff_eq, beq_iff_eq]
      exact spaced_eq_iff (by decide) (by decide)
    have hminus : spaced '-' = '-' := rfl
    rw [hcs, List.map_cons, List.map_cons, hminus, isNegated, isAsciiWhitespace_spaced, bne, bne,
      hparen]
  · next hnone =>
    unfold isNegated
    split
    · next c cs hcs =>
      obtain ⟨ds, hds, hmap⟩ := map_spaced_eq_cons (by decide) (by decide) hcs
      obtain ⟨d, es, rfl, -⟩ := List.map_eq_cons_iff.mp hmap
      exact absurd hds (hnone d es)
    · rfl

/-- What one token of the web app's lexer owes the same token of the server's. -/
def Agrees (q before : List Char) (start : Nat) (piece : SearchToken × Spot) :
    Except QueryError (Token × Cursor) → Prop
  | .ok (tok, next) => (∃ used, At q (before ++ used) next piece.2) ∧
      SameKind piece.1.kind tok.kind ∧ piece.1.start = start ∧ piece.1.stop = piece.2.index
  | .error _ => piece = (⟨.text, start, unitLength q⟩, ⟨unitLength q, []⟩)

/-- Text, where the server reads text. -/
theorem Cut.agrees {begin : Nat} {next' : Spot} {r : Except QueryError (Token × Cursor)}
    (h : Cut q before next' r) : Agrees q before begin (⟨.text, begin, next'.index⟩, next') r := by
  cases r with
  | error err =>
    have hend : next' = ⟨unitLength q, []⟩ := h
    rw [hend]
    rfl
  | ok r =>
    obtain ⟨hat, hopen, hclose⟩ := h
    refine ⟨hat, ⟨?_, ?_⟩, rfl, rfl⟩
    · exact iff_of_false SearchTokenKind.noConfusion hopen
    · exact iff_of_false SearchTokenKind.noConfusion hclose

theorem Agrees.later {begin : Nat} {used : List Char} {piece : SearchToken × Spot}
    {r : Except QueryError (Token × Cursor)} (h : Agrees q (before ++ used) begin piece r) :
    Agrees q before begin piece r := by
  cases r with
  | error err => exact h
  | ok r =>
    obtain ⟨⟨more, hmore⟩, hrest⟩ := h
    exact ⟨⟨used ++ more, by rw [← List.append_assoc]; exact hmore⟩, hrest⟩

theorem agrees_readOperand (h : At q before cur i) (begin : Nat) :
    Agrees q before begin (readOperand begin i) (MessageCrate.readOperand start negated cur) := by
  unfold readOperand MessageCrate.readOperand
  rw [h.rest]
  split
  · next cs hcs =>
    rw [hcs]
    exact ⟨⟨['('], h.step hcs rfl rfl⟩, ⟨⟨fun _ => rfl, fun _ => rfl⟩,
      iff_of_false SearchTokenKind.noConfusion TokenKind.noConfusion⟩, rfl, rfl⟩
  · next hnone =>
    split
    · next paren hparen =>
      obtain ⟨ds, hds, -⟩ := map_spaced_eq_cons (by decide) (by decide) hparen
      exact absurd hds (hnone ds)
    · next quoted hquoted =>
      obtain ⟨cs, hcs, rfl⟩ := map_spaced_eq_cons (by decide) (by decide) hquoted
      have hend : textEnd i = quotedEnd cs (i.index + 1) := by
        rw [textEnd, hcs]
        rfl
      rw [hend]
      exact (cut_quoted .phrase h hcs (fun _ => TokenKind.noConfusion)
        (fun _ => TokenKind.noConfusion)).agrees
    · next hplain =>
      refine (cut_readBare h ?_).agrees
      intro cs hcs
      rw [hcs] at hplain
      exact hplain (cs.map spaced) rfl

/-- **One token of both lexers.** -/
theorem agrees_readPiece (h : At q before cur i) :
    Agrees q before i.index (readPiece i) (nextToken cur) := by
  by_cases hclose : ∃ cs, i.rest = ')' :: cs
  · obtain ⟨cs, hcs⟩ := hclose
    have hrest : cur.rest = ')' :: cs.map spaced := by rw [h.rest, hcs]; rfl
    have hpiece : readPiece i = (⟨.closes, i.index, i.index + 1⟩, ⟨i.index + 1, cs⟩) := by
      rw [readPiece, hcs]
      rfl
    rw [nextToken_close hrest, hpiece]
    exact ⟨⟨[')'], h.step hcs rfl rfl⟩, ⟨iff_of_false SearchTokenKind.noConfusion
      TokenKind.noConfusion, ⟨fun _ => rfl, fun _ => rfl⟩⟩, rfl, rfl⟩
  have hclose' : ∀ cs, cur.rest ≠ ')' :: cs := by
    intro cs heq
    rw [h.rest] at heq
    obtain ⟨ds, hds, -⟩ := map_spaced_eq_cons (by decide) (by decide) heq
    exact hclose ⟨ds, hds⟩
  have hpiece : readPiece i =
      if takesMinus i.rest then readOperand i.index ⟨i.index + 1, i.rest.tail⟩
      else readOperand i.index i := by
    unfold readPiece
    split
    · next cs hcs => exact absurd ⟨cs, hcs⟩ hclose
    · rfl
  rw [nextToken_operand hclose', isNegated_at h, hpiece]
  split
  · next hminus =>
    obtain ⟨cs, hcs⟩ : ∃ cs, i.rest = '-' :: cs := by
      unfold takesMinus at hminus
      split at hminus
      · next c cs hcs => exact ⟨c :: cs, hcs⟩
      · cases hminus
    have hstep := h.step hcs rfl rfl
    rw [h.rest, hcs]
    exact (agrees_readOperand hstep i.index).later
  · exact agrees_readOperand h i.index

end cut

/-! A whole query. -/

/-- The two tokens are one piece of the query: the server's span counts its bytes, the web app's
its units. -/
def SamePiece (q : List Char) (piece : SearchToken) (tok : Token) : Prop :=
  ∃ before cs after, q = before ++ cs ++ after ∧
    tok.span = (byteLength before, byteLength (before ++ cs)) ∧
    piece.start = unitLength before ∧ piece.stop = unitLength (before ++ cs) ∧
    SameKind piece.kind tok.kind

/-- What the web app's lexer makes of what the server's does. -/
def Follows (q : List Char) (pieces : List SearchToken) :
    Except QueryError (List Token) → Prop
  | .ok tokens => List.Forall₂ (SamePiece q) pieces tokens
  | .error _ => ∃ before piece, pieces = before ++ [piece] ∧ piece.kind = .text ∧
      piece.stop = unitLength q

theorem readPieces_end (fuel index : Nat) : readPieces fuel ⟨index, []⟩ = [] := by
  cases fuel with
  | zero => rfl
  | succ fuel => rfl

theorem follows_readPieces {q : List Char} : ∀ (fuel : Nat) {before : List Char} {cur : Cursor}
    {i : Spot}, At q before cur i → Follows q (readPieces fuel i) (readTokens fuel cur)
  | 0, _, _, _, _ => .nil
  | fuel + 1, before, cur, i, h => by
    have hscan := (h.scan isAsciiWhitespace isSpace isAsciiWhitespace_spaced).2
    have hhead := cur.head_scan isAsciiWhitespace
    rw [readTokens, readPieces]
    simp only
    generalize before ++ i.rest.takeWhile isSpace = past at hscan
    generalize (cur.scan isAsciiWhitespace).2 = cur at hscan hhead
    generalize i.skip isSpace = i at hscan
    have hempty : cur.rest.isEmpty = i.rest.isEmpty := by
      rw [hscan.rest, List.isEmpty_map]
    rw [hempty]
    split
    · exact .nil
    · next hne =>
      have hne' : cur.rest ≠ [] := by
        rw [hscan.rest]
        simpa using hne
      have hspan := within_nextToken hne' hhead
      have hagrees := agrees_readPiece hscan
      cases hnext : nextToken cur with
      | error err =>
        rw [hnext] at hagrees
        have hpiece : readPiece i = (⟨.text, i.index, unitLength q⟩, ⟨unitLength q, []⟩) := hagrees
        rw [hpiece]
        refine ⟨[], ⟨.text, i.index, unitLength q⟩, ?_, rfl, rfl⟩
        show _ :: readPieces fuel ⟨unitLength q, []⟩ = _
        rw [readPieces_end]
        rfl
      | ok r =>
        obtain ⟨tok, next⟩ := r
        rw [hnext] at hagrees hspan
        obtain ⟨⟨used, hat⟩, hkind, hstart, hstop⟩ := hagrees
        have hsame : SamePiece q (readPiece i).1 tok := by
          refine ⟨past, used, (readPiece i).2.rest, hat.query, ?_, ?_, ?_, hkind⟩
          · rw [hspan.2.1, hscan.pos, hat.pos]
          · rw [hstart, hscan.index]
          · rw [hstop, hat.index]
        have hrest := follows_readPieces fuel hat
        show Follows q ((readPiece i).1 :: readPieces fuel (readPiece i).2)
          (do let rest ← readTokens fuel next; return tok :: rest)
        cases htokens : readTokens fuel next with
        | error err =>
          rw [htokens] at hrest
          obtain ⟨before', piece, hpieces, hend⟩ := hrest
          exact ⟨(readPiece i).1 :: before', piece, by rw [hpieces]; rfl, hend⟩
        | ok tokens =>
          rw [htokens] at hrest
          exact .cons hsame hrest

theorem follows_searchTokens {query : String} (h : byteLength query.toList ≤ maxQueryBytes) :
    Follows query.toList (searchTokens query) (tokenize query) := by
  have hlength : (query.toList.map spaced).length = query.toList.length := List.length_map _
  have hat : At query.toList [] ⟨0, query.toList.map spaced⟩ ⟨0, query.toList⟩ := ⟨rfl, rfl, rfl, rfl⟩
  have hrun := follows_readPieces (query.toList.length + 1) hat
  have htokenize : tokenize query =
      readTokens ((query.toList.map spaced).length + 1) ⟨0, query.toList.map spaced⟩ := by
    unfold tokenize
    rw [if_neg (Nat.not_lt.mpr h)]
    rfl
  rw [htokenize, hlength]
  exact hrun

/-- **The web app cuts a query where the server does.** Of a query the server reads, the two have
the same pieces in the same order, an open is a `(` and a close a `)`. Of one the server refuses,
other than for its length, the last piece is text that runs to the end. -/
theorem searchTokens_follow_tokenize (query : String) :
    (∀ tokens, tokenize query = .ok tokens →
      List.Forall₂ (SamePiece query.toList) (searchTokens query) tokens) ∧
    (∀ err, tokenize query = .error err → err.kind ≠ .tooLong → ∃ before piece,
      searchTokens query = before ++ [piece] ∧ piece.kind = .text ∧
        piece.stop = unitLength query.toList) := by
  have hlong : ¬ byteLength query.toList ≤ maxQueryBytes →
      ∃ message, tokenize query = .error (.new .tooLong (0, byteLength query.toList) message) := by
    intro hlt
    refine ⟨"The search is longer than " ++ toString maxQueryBytes ++ " bytes.", ?_⟩
    unfold tokenize
    rw [if_pos (Nat.lt_of_not_le hlt)]
  constructor
  · intro tokens htokens
    by_cases hle : byteLength query.toList ≤ maxQueryBytes
    · have hfollows := follows_searchTokens hle
      rw [htokens] at hfollows
      exact hfollows
    · obtain ⟨message, hmessage⟩ := hlong hle
      rw [hmessage] at htokens
      cases htokens
  · intro err herr hkind
    by_cases hle : byteLength query.toList ≤ maxQueryBytes
    · have hfollows := follows_searchTokens hle
      rw [herr] at hfollows
      exact hfollows
    · obtain ⟨message, hmessage⟩ := hlong hle
      rw [hmessage] at herr
      cases herr
      exact absurd rfl hkind

/-- A group with a minus, a quoted value and a word; and the same query before the quote closes. -/
theorem searchTokens_follow_tokenize_group :
    List.Forall₂ (SamePiece "-(tag:\"a b\" x)".toList) (searchTokens "-(tag:\"a b\" x)")
      [⟨.lparen, (0, 2), true⟩, ⟨.field "tag" "a b" true, (2, 11), false⟩,
        ⟨.word "x" false, (12, 13), false⟩, ⟨.rparen, (13, 14), false⟩] ∧
    ∃ before piece, searchTokens "-(tag:\"a b x)" = before ++ [piece] ∧ piece.kind = .text ∧
      piece.stop = unitLength "-(tag:\"a b x)".toList :=
  ⟨(searchTokens_follow_tokenize _).1 _ (by decide +kernel),
    (searchTokens_follow_tokenize _).2 (.new .unbalanced (6, 13) "A quote never closes.")
      (by decide +kernel) (by decide)⟩

end MessageCrate.Web

import MessageCrate.Lib.Utf8
import MessageCrate.Search.Lex

/- The lexer's byte cursor (`crates/server/server/src/search/lex.rs`).

   `Lex.lean` reads characters. The code reads bytes: it looks at one byte at a time, counts,
   and cuts the text with `&input[a..b]`, which panics where `a` or `b` is inside a character.
   This file

   1. writes the lexer as the code has it, over byte indices (`Lexer`, with `Stop.panicked`
      where a slice would panic and `Stop.unfinished` where the fuel is out);
   2. proves it is the one over characters: every byte it stops at is ASCII, so it stands
      between characters (`nextToken_eq`, `run_eq`);
   3. follows the tokens over the text (`Laid`), so that their spans and the white space
      between them are all of it (`lexer_loses_nothing`).

   Correspondence (Rust ↔ Lean):
     `self.bytes.get(i)`            ↔ `Lexer.get`
     `&input[a..b]`                 ↔ `Lexer.slice`
     `read_quoted`'s loop           ↔ `readQuotedBytes`, on the bytes from `i` on
     `String::from_utf8_lossy`      ↔ `Utf8.fromUtf8Lossy`, for any reading `lossy` of bytes
                                      that are not UTF-8
     `while lexer.skip_whitespace()` ↔ `Lexer.run`, on fuel -/
namespace MessageCrate
open Text

/-- Why the lexer has no tokens to give. -/
inductive Stop where
  | refused (error : QueryError)
  | panicked
  | unfinished
  deriving DecidableEq, Repr

def isAsciiWhitespaceByte (b : UInt8) : Bool :=
  b == ' '.toUInt8 || b == '\t'.toUInt8 || b == '\n'.toUInt8 || b == '\x0c'.toUInt8 ||
    b == '\r'.toUInt8

/-- A byte that ends a bare word. -/
def isBareEndByte (b : UInt8) : Bool :=
  isAsciiWhitespaceByte b || b == '('.toUInt8 || b == ')'.toUInt8

/-- The quoted bytes after an opening quote, and the index past the closing one. -/
def readQuotedBytes : List UInt8 → Nat → List UInt8 → Option (List UInt8 × Nat)
  | [], _, _ => none
  | [b], i, out => if b = '"'.toUInt8 then some (out, i + 1) else none
  | b :: b' :: bs, i, out =>
    if b = '"'.toUInt8 then
      if b' = '"'.toUInt8 then readQuotedBytes bs (i + 2) (out ++ ['"'.toUInt8])
      else some (out, i + 1)
    else readQuotedBytes (b' :: bs) (i + 1) (out ++ [b])

/-- A cursor over the query's bytes and the tokens read so far. -/
structure Lexer where
  input : List Char
  pos : Nat
  tokens : List Token

namespace Lexer
variable (lossy : List UInt8 → List Char) (lx : Lexer)

def bytes : List UInt8 := Utf8.encode lx.input

def get (i : Nat) : Option UInt8 := lx.bytes[i]?

def peek : Option UInt8 := lx.get lx.pos

/-- The index of the first byte at or after `i` that `keep` rejects. -/
def scanFrom (i : Nat) (keep : UInt8 → Bool) : Nat :=
  i + ((lx.bytes.drop i).takeWhile keep).length

def scan (keep : UInt8 → Bool) : Nat := lx.scanFrom lx.pos keep

/-- `&input[start..stop]`. -/
def slice (start stop : Nat) : Except Stop (List Char) :=
  match Utf8.slice lx.input start stop with
  | some cs => .ok cs
  | none => .error .panicked

/-- Move past white space. False at the end of the input. -/
def skipWhitespace : Bool × Lexer :=
  let lx := { lx with pos := lx.scan isAsciiWhitespaceByte }
  (lx.pos < lx.bytes.length, lx)

/-- Record a token and move the cursor past it. -/
def push (kind : TokenKind) (start stop : Nat) (negated : Bool) : Lexer :=
  { lx with pos := stop, tokens := lx.tokens ++ [⟨kind, (start, stop), negated⟩] }

/-- The quoted value whose opening quote is at `quote`, and the index past its closing one. -/
def quotedAfter (quote : Nat) : Except Stop (List Char × Nat) :=
  match readQuotedBytes (lx.bytes.drop (quote + 1)) (quote + 1) [] with
  | some (out, next) => .ok (Utf8.fromUtf8Lossy lossy out, next)
  | none =>
    .error (.refused (.new .unbalanced (quote, lx.bytes.length) "A quote never closes."))

/-- `word:value`, where the value is quoted or runs to white space. -/
def readField (start : Nat) (negated : Bool) (word : String) (valueStart : Nat) :
    Except Stop Lexer :=
  if lx.get valueStart = some '"'.toUInt8 then do
    let (value, next) ← lx.quotedAfter lossy valueStart
    return lx.push (.field word (String.ofList value) true) start next negated
  else do
    let stop := lx.scanFrom valueStart (fun b => !isBareEndByte b)
    let value ← lx.slice valueStart stop
    return lx.push (.field word (String.ofList value) false) start stop negated

/-- A bare run up to white space or a parenthesis. -/
def readBare (start : Nat) (negated : Bool) : Except Stop Lexer := do
  let headEnd := lx.scan (fun b => !isBareEndByte b && b != ':'.toUInt8)
  let head ← lx.slice lx.pos headEnd
  let valueStartsWithSlash := lx.get (headEnd + 1) = some '/'.toUInt8
  if lx.get headEnd = some ':'.toUInt8 ∧ isFieldWord head ∧ ¬ valueStartsWithSlash then
    lx.readField lossy start negated (toAsciiLower (String.ofList head)) (headEnd + 1)
  else
    let stop := lx.scan (fun b => !isBareEndByte b)
    let text ← lx.slice lx.pos stop
    return lx.push (wordOrOperator (String.ofList text) negated) start stop negated

/-- A leading `-` negates the token after it. With nothing, a space or `)` after it, it is
a word. -/
def isNegated : Bool :=
  lx.peek == some '-'.toUInt8 &&
    (lx.get (lx.pos + 1)).any (fun b => !isAsciiWhitespaceByte b && b != ')'.toUInt8)

/-- A group's opening, a phrase or a bare run, past any `-`. -/
def readOperand (start : Nat) (negated : Bool) : Except Stop Lexer :=
  if lx.peek = some '('.toUInt8 then .ok (lx.push .lparen start (lx.pos + 1) negated)
  else if lx.peek = some '"'.toUInt8 then do
    let (text, next) ← lx.quotedAfter lossy lx.pos
    return lx.push (.phrase (String.ofList text)) start next negated
  else lx.readBare lossy start negated

/-- Read one token; the cursor is on a byte that is not white space. -/
def nextToken : Except Stop Lexer :=
  let start := lx.pos
  if lx.peek = some ')'.toUInt8 then .ok (lx.push .rparen start (start + 1) false)
  else
    let negated := lx.isNegated
    let lx := if negated then { lx with pos := lx.pos + 1 } else lx
    lx.readOperand lossy start negated

/-- The loop of `tokenize`. -/
def run : Nat → Lexer → Except Stop (List Token)
  | 0, _ => .error .unfinished
  | fuel + 1, lx =>
    let (more, lx) := lx.skipWhitespace
    if more then do
      let next ← lx.nextToken lossy
      run fuel next
    else .ok lx.tokens

end Lexer

/-- The text with each NUL a space. -/
def withoutNul (cs : List Char) : List Char := cs.map (fun c => if c = '\x00' then ' ' else c)

/-- `tokenize`, its loop turning at most `fuel` times. -/
def tokenizeBytes (lossy : List UInt8 → List Char) (fuel : Nat) (input : String) :
    Except Stop (List Token) :=
  let len := (Utf8.encode input.toList).length
  if maxQueryBytes < len then
    .error (.refused (.new .tooLong (0, len)
      ("The search is longer than " ++ toString maxQueryBytes ++ " bytes.")))
  else Lexer.run lossy fuel ⟨withoutNul input.toList, 0, []⟩

/-! The bytes and the characters. -/

section bytes
open Utf8

theorem agrees_isAsciiWhitespace : Agrees isAsciiWhitespaceByte isAsciiWhitespace :=
  ((((agrees_beq (by decide)).or (agrees_beq (by decide))).or (agrees_beq (by decide))).or
    (agrees_beq (by decide))).or (agrees_beq (by decide))

theorem agrees_isBareEnd : Agrees isBareEndByte isBareEnd :=
  (agrees_isAsciiWhitespace.or (agrees_beq (by decide))).or (agrees_beq (by decide))

theorem agrees_head :
    Agrees (fun b => !isBareEndByte b && b != ':'.toUInt8) (fun c => !isBareEnd c && c != ':') :=
  agrees_isBareEnd.not.and (agrees_beq (by decide)).not

/-- Bytes that are no quote are copied. -/
theorem readQuotedBytes_copy {copied : List UInt8} (h : ∀ b ∈ copied, b ≠ '"'.toUInt8)
    (bs : List UInt8) (i : Nat) (out : List UInt8) :
    readQuotedBytes (copied ++ bs) i out =
      readQuotedBytes bs (i + copied.length) (out ++ copied) := by
  induction copied generalizing i out with
  | nil => simp
  | cons b copied ih =>
    obtain ⟨hb, hcopied⟩ := List.forall_mem_cons.mp h
    have hstep : readQuotedBytes (b :: (copied ++ bs)) i out =
        readQuotedBytes (copied ++ bs) (i + 1) (out ++ [b]) := by
      cases copied ++ bs with
      | nil => simp [readQuotedBytes, hb]
      | cons b' bs' => simp [readQuotedBytes, hb]
    rw [List.cons_append, hstep, ih hcopied, List.length_cons, List.append_assoc,
      List.singleton_append]
    congr 1
    omega

theorem encode_quote (cs : List Char) : encode ('"' :: cs) = '"'.toUInt8 :: encode cs := rfl

/-- **The quoted bytes are the quoted characters.** -/
theorem readQuotedBytes_encode (cs : List Char) (pos : Nat) (out : List UInt8) :
    readQuotedBytes (encode cs) pos out =
      (readQuoted cs pos).map (fun r => (out ++ encode r.1, r.2.pos)) := by
  fun_induction readQuoted cs pos generalizing out with
  | case1 => rfl
  | case2 cs pos ih =>
    rw [encode_quote, encode_quote, readQuotedBytes, if_pos rfl, if_pos rfl, ih, Option.map_map]
    congr 1
    funext r
    simp [encode_quote]
  | case3 cs pos hnext =>
    cases cs with
    | nil => simp [encode_quote, readQuotedBytes]
    | cons d cs =>
      obtain ⟨b, bs, hbs⟩ := List.exists_cons_of_ne_nil (String.utf8EncodeChar_ne_nil (c := d))
      have hd : d ≠ '"' := fun h => hnext cs (h ▸ rfl)
      have hb : b ≠ '"'.toUInt8 := by
        have := agrees_beq (d := '"') (by decide) d b (by simp [hbs])
        simpa [hd] using this
      rw [encode_quote, encode_cons, hbs, List.cons_append, readQuotedBytes, if_pos rfl,
        if_neg hb]
      simp
  | case4 c cs pos hquote hquote' ih =>
    have hc : c ≠ '"' := hquote'
    have hcopied : ∀ b ∈ String.utf8EncodeChar c, b ≠ '"'.toUInt8 := by
      intro b hb
      have := agrees_beq (d := '"') (by decide) c b hb
      simpa [hc] using this
    rw [encode_cons, readQuotedBytes_copy hcopied, String.length_utf8EncodeChar, ih,
      Option.map_map]
    congr 1
    funext r
    simp [encode_cons]

end bytes

/-- The cursor stands in the text: between the characters before it and its rest. -/
def Cursor.In (cur : Cursor) (input : List Char) : Prop :=
  ∃ before, input = before ++ cur.rest ∧ cur.pos = Utf8.size before

section stands
open Utf8
variable {cur next : Cursor} {used input : List Char} {lx : Lexer}

theorem Cursor.In.reads (h : cur.In input) (hreads : cur.Reads used next) : next.In input := by
  obtain ⟨before, hinput, hpos⟩ := h
  refine ⟨before ++ used, by rw [hinput, hreads.1, List.append_assoc], ?_⟩
  rw [hreads.2, hpos, size_append]
  rfl

theorem Cursor.In.end (h : cur.In input) : cur.pos + byteLength cur.rest = size input := by
  obtain ⟨before, hinput, hpos⟩ := h
  rw [hinput, size_append, hpos]
  rfl

theorem Cursor.In.boundary (h : cur.In input) : IsBoundary input cur.pos := by
  obtain ⟨before, hinput, hpos⟩ := h
  exact ⟨before, cur.rest, hinput, hpos⟩

theorem Cursor.In.drop (h : cur.In lx.input) : lx.bytes.drop cur.pos = encode cur.rest := by
  obtain ⟨before, hinput, hpos⟩ := h
  rw [Lexer.bytes, hinput, hpos, drop_encode]

theorem Cursor.In.get (h : cur.In lx.input) : lx.get cur.pos = (encode cur.rest).head? := by
  rw [← h.drop, List.head?_drop]
  rfl

/-- A byte of an ASCII character under the cursor is that character. -/
theorem Cursor.In.get_iff (h : cur.In lx.input) {d : Char} (hd : d.toNat < 128) :
    lx.get cur.pos = some d.toUInt8 ↔ ∃ cs, cur.rest = d :: cs := by
  have hagree := (agrees_beq hd).head cur.rest
  rw [h.get]
  constructor
  · intro hbyte
    rw [hbyte] at hagree
    cases hrest : cur.rest with
    | nil => simp [hrest] at hagree
    | cons c cs =>
      rw [hrest] at hagree
      have hc : c = d := by simpa using hagree
      exact ⟨cs, by rw [hc]⟩
  · rintro ⟨cs, hcs⟩
    rw [hcs, encode_cons, encodeChar_ascii hd]
    rfl

theorem Cursor.In.scanFrom (h : cur.In lx.input) {keep : UInt8 → Bool} {keepChar : Char → Bool}
    (hkeep : Agrees keep keepChar) :
    lx.scanFrom cur.pos keep = (cur.scan keepChar).2.pos := by
  rw [Lexer.scanFrom, h.drop, takeWhile_encode hkeep, length_encode]
  rfl

theorem Cursor.In.slice (h : cur.In lx.input) (hreads : cur.Reads used next) :
    lx.slice cur.pos next.pos = .ok used := by
  obtain ⟨before, hinput, hpos⟩ := h
  have hbetween : Utf8.slice lx.input cur.pos next.pos = some used := by
    rw [hinput, hreads.1, hreads.2, hpos]
    exact slice_between
  rw [Lexer.slice, hbetween]

end stands

/-! The two lexers. -/

namespace Lexer
variable {lossy : List UInt8 → List Char} {lx : Lexer} {cur : Cursor} {start : Nat}
  {negated : Bool}

/-- The lexer past what the character lexer read. -/
def after (lx : Lexer) : Except QueryError (Token × Cursor) → Except Stop Lexer
  | .ok (tok, next) => .ok { lx with pos := next.pos, tokens := lx.tokens ++ [tok] }
  | .error error => .error (.refused error)

theorem quotedAfter_eq {cs : List Char} (h : cur.In lx.input) (hrest : cur.rest = '"' :: cs) :
    lx.quotedAfter lossy cur.pos =
      match MessageCrate.quotedAfter cur.pos cs with
      | .ok (text, next) => .ok (text, next.pos)
      | .error error => .error (.refused error) := by
  have hquote : cur.Reads ['"'] ⟨cur.pos + 1, cs⟩ := Cursor.Reads.one hrest
  have hinside : Cursor.In ⟨cur.pos + 1, cs⟩ lx.input := h.reads hquote
  have hbytes : lx.bytes.drop (cur.pos + 1) = Utf8.encode cs := hinside.drop
  have hlength : lx.bytes.length = cur.pos + 1 + byteLength cs := by
    rw [bytes, Utf8.length_encode]
    exact hinside.end.symm
  rw [quotedAfter, hbytes, readQuotedBytes_encode, MessageCrate.quotedAfter]
  cases hquoted : readQuoted cs (cur.pos + 1) with
  | none => simp [hlength]
  | some r => simp [Utf8.fromUtf8Lossy_encode]

theorem readField_eq {word : String} (h : cur.In lx.input) :
    lx.readField lossy start negated word cur.pos =
      lx.after (MessageCrate.readField start negated word cur) := by
  have hquote := h.get_iff (d := '"') (by decide)
  unfold readField MessageCrate.readField
  split
  · next hbyte =>
    obtain ⟨cs, hcs⟩ := hquote.mp hbyte
    rw [quotedAfter_eq h hcs, hcs]
    simp only
    cases hquoted : MessageCrate.quotedAfter cur.pos cs with
    | error error => rfl
    | ok r => rfl
  · next hbyte =>
    have hvalue := cur.reads_scan (fun c => !isBareEnd c)
    rw [h.scanFrom agrees_isBareEnd.not]
    simp only [h.slice hvalue]
    split
    · next cs hcs => exact absurd (hquote.mpr ⟨cs, hcs⟩) hbyte
    · rfl

/-- The head of a bare run is a field: a field word, a colon, and no `/`. -/
theorem field_iff (head : List Char) {colon : Cursor} (h : colon.In lx.input) :
    (lx.get colon.pos = some ':'.toUInt8 ∧ isFieldWord head = true ∧
      ¬ lx.get (colon.pos + 1) = some '/'.toUInt8) ↔
    ∃ cs, colon.rest = ':' :: cs ∧ isFieldWord head = true ∧ ∀ cs', cs ≠ '/' :: cs' := by
  have hslash : ∀ {cs}, colon.rest = ':' :: cs →
      (lx.get (colon.pos + 1) = some '/'.toUInt8 ↔ ∃ cs', cs = '/' :: cs') := by
    intro cs hcs
    have hvalue : Cursor.In ⟨colon.pos + 1, cs⟩ lx.input := h.reads (Cursor.Reads.one hcs)
    exact hvalue.get_iff (d := '/') (by decide)
  rw [h.get_iff (d := ':') (by decide)]
  constructor
  · rintro ⟨⟨cs, hcs⟩, hfield, hno⟩
    exact ⟨cs, hcs, hfield, fun cs' hcs' => hno ((hslash hcs).mpr ⟨cs', hcs'⟩)⟩
  · rintro ⟨cs, hcs, hfield, hno⟩
    refine ⟨⟨cs, hcs⟩, hfield, fun hbyte => ?_⟩
    obtain ⟨cs', hcs'⟩ := (hslash hcs).mp hbyte
    exact hno cs' hcs'

theorem readBare_eq (h : cur.In lx.input) (hpos : lx.pos = cur.pos) :
    lx.readBare lossy start negated = lx.after (MessageCrate.readBare start negated cur) := by
  have hhead := cur.reads_scan (fun c => !isBareEnd c && c != ':')
  have hword := cur.reads_scan (fun c => !isBareEnd c)
  have hfield := field_iff (cur.scan (fun c => !isBareEnd c && c != ':')).1 (h.reads hhead)
  unfold readBare MessageCrate.readBare scan
  rw [hpos, h.scanFrom agrees_head, h.scanFrom agrees_isBareEnd.not]
  simp only [h.slice hhead, h.slice hword, bind, Except.bind]
  split
  · next hbytes =>
    -- a field, to both
    obtain ⟨cs, hcs, hhead', hno⟩ := hfield.mp hbytes
    have hvalue := h.reads (hhead.trans (Cursor.Reads.one hcs))
    split
    · next cs' hcs' =>
      rw [hcs] at hcs'
      cases hcs'
      exact absurd rfl (hno cs')
    · next cs' _ hcs' =>
      rw [hcs] at hcs'
      cases hcs'
      rw [if_pos hhead']
      exact readField_eq hvalue
    · next hnone => exact absurd hcs (hnone cs)
  · next hbytes =>
    -- a word, to both
    split
    · rfl
    · next cs' hno hcs' =>
      rw [if_neg (fun hhead' => hbytes (hfield.mpr ⟨cs', hcs', hhead',
        fun cs'' heq => hno cs'' heq⟩))]
      rfl
    · rfl

theorem isNegated_eq (h : cur.In lx.input) (hpos : lx.pos = cur.pos) :
    lx.isNegated = MessageCrate.isNegated cur.rest := by
  have hminus := h.get_iff (d := '-') (by decide)
  rw [isNegated, peek, hpos]
  unfold MessageCrate.isNegated
  split
  · next c cs hcs =>
    have hnext : Cursor.In ⟨cur.pos + 1, c :: cs⟩ lx.input := h.reads (Cursor.Reads.one hcs)
    have hbyte : (lx.get (cur.pos + 1)).map (fun b => !isAsciiWhitespaceByte b && b != ')'.toUInt8)
        = some (!isAsciiWhitespace c && c != ')') := by
      rw [hnext.get]
      exact (agrees_isAsciiWhitespace.not.and (Utf8.agrees_beq (by decide)).not).head (c :: cs)
    obtain ⟨b, hb, htest⟩ := Option.map_eq_some_iff.mp hbyte
    rw [hminus.mpr ⟨_, hcs⟩, beq_self_eq_true, Bool.true_and, hb, Option.any_some, htest]
  · next hno =>
    by_cases hbyte : lx.get cur.pos = some '-'.toUInt8
    · obtain ⟨cs, hcs⟩ := hminus.mp hbyte
      have hnil : cs = [] := by
        cases cs with
        | nil => rfl
        | cons c cs => exact absurd hcs (hno c cs)
      have hnext : Cursor.In ⟨cur.pos + 1, cs⟩ lx.input := h.reads (Cursor.Reads.one hcs)
      have hend : lx.get (cur.pos + 1) = none := by
        rw [hnext.get, hnil]
        rfl
      rw [hend, Option.any_none, Bool.and_false]
    · rw [beq_eq_false_iff_ne.mpr hbyte, Bool.false_and]

theorem readOperand_eq (h : cur.In lx.input) (hpos : lx.pos = cur.pos) :
    lx.readOperand lossy start negated =
      lx.after (MessageCrate.readOperand start negated cur) := by
  have hopen := h.get_iff (d := '(') (by decide)
  have hquote := h.get_iff (d := '"') (by decide)
  unfold readOperand MessageCrate.readOperand
  rw [peek, hpos]
  split
  · next hbyte =>
    obtain ⟨cs, hcs⟩ := hopen.mp hbyte
    rw [hcs]
    rfl
  split
  · next hbyte =>
    obtain ⟨cs, hcs⟩ := hquote.mp hbyte
    rw [quotedAfter_eq h hcs, hcs]
    simp only
    cases MessageCrate.quotedAfter cur.pos cs with
    | error error => rfl
    | ok r => rfl
  · next hnoOpen hnoQuote =>
    split
    · next cs hcs => exact absurd (hopen.mpr ⟨cs, hcs⟩) hnoOpen
    · next cs hcs => exact absurd (hquote.mpr ⟨cs, hcs⟩) hnoQuote
    · exact readBare_eq h hpos

/-- **One token, read from the bytes as from the characters.** -/
theorem nextToken_eq (h : cur.In lx.input) (hpos : lx.pos = cur.pos) :
    lx.nextToken lossy = lx.after (MessageCrate.nextToken cur) := by
  have hclose := h.get_iff (d := ')') (by decide)
  rw [nextToken, isNegated_eq h hpos, peek, hpos]
  simp only
  split
  · next hbyte =>
    obtain ⟨cs, hcs⟩ := hclose.mp hbyte
    rw [nextToken_close hcs]
    rfl
  · next hbyte =>
    rw [nextToken_operand (fun cs hcs => hbyte (hclose.mpr ⟨cs, hcs⟩))]
    cases hneg : MessageCrate.isNegated cur.rest with
    | true =>
      obtain ⟨c, cs, hcs, -⟩ := isNegated_cons hneg
      have hnext : Cursor.In ⟨cur.pos + 1, cur.rest.tail⟩ lx.input := by
        rw [hcs, List.tail_cons]
        exact h.reads (Cursor.Reads.one hcs)
      exact readOperand_eq hnext rfl
    | false => exact readOperand_eq h hpos

/-- The tokens read so far and those to come. -/
def collected (before : List Token) : Except QueryError (List Token) → Except Stop (List Token)
  | .ok tokens => .ok (before ++ tokens)
  | .error error => .error (.refused error)

theorem skipWhitespace_eq (h : cur.In lx.input) (hpos : lx.pos = cur.pos) :
    lx.skipWhitespace = (!(cur.scan isAsciiWhitespace).2.rest.isEmpty,
      { lx with pos := (cur.scan isAsciiWhitespace).2.pos }) := by
  have hword := h.reads (cur.reads_scan isAsciiWhitespace)
  have hend := hword.end
  have hlength : lx.bytes.length = Utf8.size lx.input := Utf8.length_encode _
  have hmore : decide ((cur.scan isAsciiWhitespace).2.pos < lx.bytes.length) =
      !(cur.scan isAsciiWhitespace).2.rest.isEmpty := by
    cases hrest : (cur.scan isAsciiWhitespace).2.rest with
    | nil =>
      rw [hrest] at hend
      have hzero : byteLength [] = 0 := rfl
      simp only [List.isEmpty_nil, Bool.not_true, decide_eq_false_iff_not]
      omega
    | cons c cs =>
      have hone : 0 < byteLength (c :: cs) := Utf8.size_pos (List.cons_ne_nil _ _)
      rw [hrest] at hend
      simp only [List.isEmpty_cons, Bool.not_false, decide_eq_true_eq]
      omega
  rw [skipWhitespace, scan, hpos, h.scanFrom agrees_isAsciiWhitespace, ← hmore]
  rfl

/-- **The loop on the bytes is the loop on the characters.** -/
theorem run_eq : ∀ {fuel : Nat} {lx : Lexer} {cur : Cursor}, cur.In lx.input → lx.pos = cur.pos →
    cur.rest.length < fuel → run lossy fuel lx = collected lx.tokens (readTokens fuel cur)
  | 0, _, _, _, _, hfuel => by omega
  | fuel + 1, lx, cur, h, hpos, hfuel => by
    have hscan := cur.reads_scan isAsciiWhitespace
    have hspace := cur.head_scan isAsciiWhitespace
    rw [run, skipWhitespace_eq h hpos, readTokens]
    simp only
    generalize (cur.scan isAsciiWhitespace).2 = word at hscan hspace
    cases hrest : word.rest.isEmpty with
    | true => simp [collected]
    | false =>
      have hword : word.In lx.input := h.reads hscan
      have hwithin := within_nextToken (by simpa using hrest) hspace
      have hnext : nextToken lossy ⟨lx.input, word.pos, lx.tokens⟩ =
          after ⟨lx.input, word.pos, lx.tokens⟩ (MessageCrate.nextToken word) :=
        nextToken_eq hword rfl
      simp only [Bool.not_false, if_true, hnext]
      cases hread : MessageCrate.nextToken word with
      | error error => rfl
      | ok r =>
        obtain ⟨tok, next⟩ := r
        rw [hread] at hwithin
        obtain ⟨⟨used, hused⟩, -, hlt⟩ := hwithin
        have hshorter := hused.shorter hlt
        have hsub : word.rest.length ≤ cur.rest.length := by
          rw [hscan.1, List.length_append]
          omega
        have htail : run lossy fuel ⟨lx.input, next.pos, lx.tokens ++ [tok]⟩ =
            collected (lx.tokens ++ [tok]) (readTokens fuel next) :=
          run_eq (hword.reads hused) rfl (by omega)
        simp only [after, bind, Except.bind, htail]
        cases readTokens fuel next with
        | error error => rfl
        | ok tokens => simp [collected, pure, Except.pure]

end Lexer

/-- **The tokens read from the bytes are those read from the characters.** -/
theorem tokenizeBytes_eq (lossy : List UInt8 → List Char) {input : String} {fuel : Nat}
    (hfuel : (Utf8.encode input.toList).length < fuel) :
    tokenizeBytes lossy fuel input = Lexer.collected [] (tokenize input) := by
  have hlength : (Utf8.encode input.toList).length = byteLength input.toList :=
    Utf8.length_encode _
  have hchars : (withoutNul input.toList).length < fuel := by
    have hmap : (withoutNul input.toList).length = input.toList.length := List.length_map _
    have hle := Utf8.length_le_size input.toList
    rw [Utf8.length_encode] at hfuel
    omega
  obtain ⟨more, rfl⟩ : ∃ more, fuel = (withoutNul input.toList).length + 1 + more :=
    ⟨fuel - ((withoutNul input.toList).length + 1), by omega⟩
  have hrun : Lexer.run lossy ((withoutNul input.toList).length + 1 + more)
      ⟨withoutNul input.toList, 0, []⟩ =
      Lexer.collected [] (readTokens ((withoutNul input.toList).length + 1 + more)
        ⟨0, withoutNul input.toList⟩) := Lexer.run_eq ⟨[], rfl, rfl⟩ rfl hchars
  have henough : readTokens ((withoutNul input.toList).length + 1 + more)
      ⟨0, withoutNul input.toList⟩ =
      readTokens ((withoutNul input.toList).length + 1) ⟨0, withoutNul input.toList⟩ :=
    readTokens_fuel (Nat.lt_succ_self _)
  rw [tokenizeBytes, tokenize, hlength, hrun, henough]
  simp only
  split
  · rfl
  · rfl

end MessageCrate

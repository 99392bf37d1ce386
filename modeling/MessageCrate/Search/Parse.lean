import MessageCrate.Search.Fields
import MessageCrate.Search.Value

/- Tokens to an expression tree (`crates/server/server/src/search/parse.rs`).

   Every `word:` is resolved against the registry for the requested list, so a tree only
   holds words that list accepts, each with the values its meaning allows. The parser
   descends through four levels (or, and, unary, primary) and refuses nesting deeper than
   `maxDepth`, more than `maxTextTerms` free-text terms and more than `maxNodes` nodes.

   Correspondence (Rust ↔ Lean):
     `self.tokens[self.i..]`            ↔ the token list each function is given and returns
     `self.peek()`                      ↔ its first token
     the loops of `parse_or`, `parse_and` ↔ recursion with the parts read so far
     `.expect("parse_unary checked …")` ↔ `Failure.panicked`
   The functions call each other on fuel. Running out is a failure of its own, which
   `Grammar` shows never happens. -/
namespace MessageCrate
open Text

theorem Except.of_bind_eq_ok {ε α β : Type} {x : Except ε α} {f : α → Except ε β} {b : β}
    (h : (x >>= f) = .ok b) : ∃ a, x = .ok a ∧ f a = .ok b := by
  cases x with
  | error err => cases h
  | ok a => exact ⟨a, rfl, h⟩

theorem Except.of_bind_eq_error {ε α β : Type} {x : Except ε α} {f : α → Except ε β} {err : ε}
    (h : (x >>= f) = .error err) : x = .error err ∨ ∃ a, x = .ok a ∧ f a = .error err := by
  cases x with
  | error err' =>
    cases h
    exact .inl rfl
  | ok a => exact .inr ⟨a, rfl, h⟩

/-- Why a query was refused. -/
inductive QueryErrorKind where
  | unknownWord
  | wrongList
  | badValue
  | emptyValue
  | unbalanced
  | tooLong
  | tooComplex
  deriving DecidableEq, Repr

/-- A refused query: a user-facing sentence and where in the input it points. -/
structure QueryError where
  kind : QueryErrorKind
  message : String
  /-- Byte range in the input. -/
  span : Nat × Nat
  field : Option String
  didYouMean : Option String
  deriving DecidableEq, Repr

def QueryError.new (kind : QueryErrorKind) (span : Nat × Nat) (message : String) : QueryError :=
  { kind, message, span, field := none, didYouMean := none }

inductive TokenKind where
  | lparen
  | rparen
  | or
  | and
  | not
  | field (word value : String) (quoted : Bool)
  | word (text : String) (pre : Bool)
  | phrase (text : String)
  deriving DecidableEq, Repr

structure Token where
  kind : TokenKind
  span : Nat × Nat
  /-- A leading `-` was attached to this token. -/
  negated : Bool
  deriving DecidableEq, Repr

/-- A free-text leaf. -/
inductive TextTerm where
  | term (text : String) (pre : Bool)
  | phrase (text : String)

/-- One `word:values`; comma-separated values mean or. -/
structure FieldTerm where
  spec : FieldSpec
  values : List Value
  span : Nat × Nat

/-- The parsed query. -/
inductive Expr where
  | and (parts : List Expr)
  | or (parts : List Expr)
  | not (e : Expr)
  | field (t : FieldTerm)
  | text (t : TextTerm)

def maxTextTerms : Nat := 32
def maxNodes : Nat := 64
def maxDepth : Nat := 32

/-! Measures of a tree. -/

mutual
/-- Whether any field term in the tree is `word`. -/
def Expr.uses (word : String) : Expr → Bool
  | .and v => usesAny word v
  | .or v => usesAny word v
  | .not e => e.uses word
  | .field t => t.spec.word == word
  | .text _ => false

def Expr.usesAny (word : String) : List Expr → Bool
  | [] => false
  | e :: v => e.uses word || usesAny word v
end

mutual
/-- The text terms not under a negation, in the order they were typed. -/
def Expr.positiveTextTerms : Expr → List TextTerm
  | .and v => positiveTextTermsOf v
  | .or v => positiveTextTermsOf v
  | .text t => [t]
  | .not _ => []
  | .field _ => []

def Expr.positiveTextTermsOf : List Expr → List TextTerm
  | [] => []
  | e :: v => e.positiveTextTerms ++ positiveTextTermsOf v
end

mutual
/-- Total nodes, where each comma value of a field counts as one. -/
def Expr.nodes : Expr → Nat
  | .and v => 1 + nodesOf v
  | .or v => 1 + nodesOf v
  | .not e => 1 + e.nodes
  | .field t => t.values.length
  | .text _ => 1

def Expr.nodesOf : List Expr → Nat
  | [] => 0
  | e :: v => e.nodes + nodesOf v
end

mutual
/-- Free-text terms in the tree. -/
def Expr.textTerms : Expr → Nat
  | .and v => textTermsOf v
  | .or v => textTermsOf v
  | .not e => e.textTerms
  | .field _ => 0
  | .text _ => 1

def Expr.textTermsOf : List Expr → Nat
  | [] => 0
  | e :: v => e.textTerms + textTermsOf v
end

/-! Field terms. -/

def isBlank (s : String) : Bool := (trim s).isEmpty

/-- What a valid value for this field looks like, for the error message. -/
def valueHint (spec : FieldSpec) : String :=
  let choices := ", ".intercalate spec.values
  match spec.valueType with
  | .date =>
    "Write a year, a month like 2024-05, a day, or a span like 7d, with >, >=, <, <=, or a..b."
  | .count => "Write a number, with >, >=, <, <=, or a..b."
  | .size => "Write a size like 500k, 1M, or 2G, with >, >=, <, <=, or a..b."
  | .choice | .flag => "Write one of: " ++ choices ++ "."
  | .name =>
    if spec.word = "import" then "Write #id or last."
    else if spec.values.isEmpty then "Write a name, pre* for a prefix, or #id."
    else "Write a name, pre* for a prefix, #id, or one of: " ++ choices ++ "."
  | .person =>
    if spec.values.isEmpty then "Write a name, an identity, pre* for a prefix, or #id."
    else "Write a name, an identity, pre* for a prefix, #id, or one of: " ++ choices ++ "."
  | .text =>
    if spec.values.isEmpty then "Write some text, or pre* for a prefix."
    else "Write some text, pre* for a prefix, or one of: " ++ choices ++ "."

/-- Text, or a prefix where a `*` ends it outside quotes. -/
def textOrPrefix (raw : String) (quoted : Bool) : Value :=
  match stripSuffix "*" raw with
  | some p => if !quoted && !p.isEmpty then .pre p else .text (trim raw)
  | none => .text (trim raw)

/-- One value for `spec`, restricted to the shapes that word's meaning allows. -/
def parseOneValue (spec : FieldSpec) (raw : String) (quoted : Bool) (today : NaiveDate) :
    Option Value :=
  let lower := toAsciiLower (trim raw)
  match spec.values.find? (· == lower) with
  | some kw =>
    match spec.valueType with
    | .choice | .flag => some (.choice kw)
    | _ => some (.keyword kw)
  | none =>
    match spec.valueType with
    | .choice | .flag => none
    | .text => some (textOrPrefix raw quoted)
    | .name | .person =>
      -- `import:` is the only name word with no name to fall back on.
      if spec.valueType = .name ∧ spec.word = "import" then (parseId raw).map .id
      else
        match if quoted then none else parseId raw with
        | some id => some (.id id)
        | none => some (textOrPrefix raw quoted)
    | .date => (parseDate raw today).map .date
    | .count => (parseCmp raw parseCount).map .count
    | .size => (parseCmp raw parseSizeBytes).map .size

/-- `word:` with nothing usable after the colon. It names a second example where the word
has a keyword its own example does not already spell. -/
def emptyValueError (spec : FieldSpec) (word : String) (span : Nat × Nat) : QueryError :=
  let also :=
    match spec.values.find? (fun v => word ++ ":" ++ v != spec.example') with
    | some v => " or " ++ word ++ ":" ++ v
    | none => ""
  let message := word ++ ": needs a value, for example " ++ spec.example' ++ also ++ "."
  { QueryError.new .emptyValue span message with field := some spec.word }

/-- `err` with the suggestion it is answered with, if there is one. -/
def QueryError.suggest (err : QueryError) : Option String → QueryError
  | some near =>
    { err with message := err.message ++ " Did you mean " ++ near ++ ":?", didYouMean := some near }
  | none => err

def unknownWordError (list : ListKind) (word : String) (span : Nat × Nat) : QueryError :=
  (QueryError.new .unknownWord span (word ++ ": is not a search word.")).suggest (nearest word list)

def wrongListError (list : ListKind) (spec : FieldSpec) (word : String) (span : Nat × Nat) :
    QueryError :=
  let worksOn := " and ".intercalate (spec.lists.map ListKind.label)
  let message := word ++ ": is not a " ++ list.label ++ " word. It works on " ++ worksOn ++ "."
  let err := { QueryError.new .wrongList span message with field := some spec.word }
  err.suggest ((nearest word list).filter (· != spec.word))

def badValueError (spec : FieldSpec) (word piece : String) (span : Nat × Nat) : QueryError :=
  let message :=
    if spec.word = "import" then "import: needs #id or last."
    else word ++ ": does not understand " ++ trim piece ++ ". " ++ valueHint spec
  { QueryError.new .badValue span message with field := some spec.word }

/-- The values of the pieces, or the first piece the word does not understand. -/
def parseValues (spec : FieldSpec) (quoted : Bool) (today : NaiveDate) :
    List String → Except String (List Value)
  | [] => .ok []
  | piece :: pieces =>
    match parseOneValue spec piece quoted today with
    | none => .error piece
    | some v => (parseValues spec quoted today pieces).map (v :: ·)

/-- One `field:value` pair as a typed term, or why the value does not fit the field. -/
def fieldTerm (list : ListKind) (word raw : String) (quoted : Bool) (span : Nat × Nat)
    (today : NaiveDate) : Except QueryError FieldTerm :=
  match lookup word with
  | none => .error (unknownWordError list word span)
  | some spec =>
    if !spec.lists.contains list then .error (wrongListError list spec word span)
    else if isBlank raw then .error (emptyValueError spec word span)
    else
      let pieces :=
        if quoted then [raw]
        else ((raw.toList.splitOn ',').map String.ofList).filter (fun p => !isBlank p)
      if pieces.isEmpty then .error (emptyValueError spec word span)
      else
        match parseValues spec quoted today pieces with
        | .error piece => .error (badValueError spec word piece span)
        | .ok values => .ok ⟨spec, values, span⟩

/-! The parser. -/

/-- How a run of the parser fails. -/
inductive Failure where
  | refused (err : QueryError)
  | panicked
  | outOfFuel

/-- What the parser keeps besides its tokens; `stop` (the source's `end`) is where the last
token ends. -/
structure Parser where
  list : ListKind
  today : NaiveDate
  stop : Nat

def unbalanced {α : Type} (span : Nat × Nat) (message : String) : Except Failure α :=
  .error (.refused (.new .unbalanced span message))

/-- Whether the next token cannot start an operand. -/
def atOperandEnd : List Token → Bool
  | [] => true
  | tok :: _ =>
    match tok.kind with
    | .rparen | .or | .and => true
    | _ => false

/-- A level with one operand is that operand. -/
def collapse (node : List Expr → Expr) : List Expr → Expr
  | [e] => e
  | parts => node parts

namespace Parser
variable (p : Parser)

mutual
/-- `a or b or c`: the lowest-precedence level, after the operands in `parts`. -/
def parseOr (fuel depth : Nat) (parts : List Expr) (tokens : List Token) :
    Except Failure (Expr × List Token) :=
  match fuel with
  | 0 => .error .outOfFuel
  | fuel + 1 => do
    let (e, rest) ← parseAnd fuel depth [] tokens
    match rest with
    | [] => return (collapse .or (parts ++ [e]), rest)
    | tok :: after =>
      match tok.kind with
      | .or =>
        if atOperandEnd after then unbalanced tok.span "or needs something on both sides."
        else parseOr fuel depth (parts ++ [e]) after
      | _ => return (collapse .or (parts ++ [e]), rest)

/-- `a b c` or `a and b`: adjacent terms are an implicit and. -/
def parseAnd (fuel depth : Nat) (parts : List Expr) (tokens : List Token) :
    Except Failure (Expr × List Token) :=
  match fuel with
  | 0 => .error .outOfFuel
  | fuel + 1 => do
    let (e, rest) ← parseUnary fuel depth tokens
    match rest with
    | [] => return (collapse .and (parts ++ [e]), rest)
    | tok :: after =>
      match tok.kind with
      | .or | .rparen => return (collapse .and (parts ++ [e]), rest)
      | .and =>
        if atOperandEnd after then unbalanced tok.span "and needs something on both sides."
        else parseAnd fuel depth (parts ++ [e]) after
      | _ => parseAnd fuel depth (parts ++ [e]) rest

/-- `not x` and `-x`, with the nesting-depth check. -/
def parseUnary (fuel depth : Nat) (tokens : List Token) : Except Failure (Expr × List Token) :=
  match fuel with
  | 0 => .error .outOfFuel
  | fuel + 1 =>
    if maxDepth < depth then
      .error (.refused (.new .tooComplex (0, p.stop) "The search nests too deeply."))
    else
      match tokens with
      | [] => unbalanced (p.stop, p.stop) "The search ends where a word was expected."
      | tok :: after =>
        if tok.kind = .not then
          if atOperandEnd after then unbalanced tok.span "not needs something after it."
          else do
            let (e, rest) ← parseUnary fuel (depth + 1) after
            return (.not e, rest)
        else do
          let (e, rest) ← parsePrimary fuel depth tokens
          return (if tok.negated then .not e else e, rest)

/-- A parenthesised group, a `field:value` term, or a free-text term. -/
def parsePrimary (fuel depth : Nat) (tokens : List Token) : Except Failure (Expr × List Token) :=
  match fuel with
  | 0 => .error .outOfFuel
  | fuel + 1 =>
    match tokens with
    | [] => .error .panicked
    | tok :: after =>
      match tok.kind with
      | .lparen =>
        match after with
        | [] => unbalanced tok.span "A parenthesis has nothing inside it."
        | next :: _ =>
          if next.kind = .rparen then unbalanced tok.span "A parenthesis has nothing inside it."
          else do
            let (e, rest) ← parseOr fuel (depth + 1) [] after
            match rest with
            | [] => unbalanced tok.span "A parenthesis never closes."
            | close :: rest =>
              if close.kind = .rparen then return (e, rest)
              else unbalanced tok.span "A parenthesis never closes."
      | .rparen => unbalanced tok.span "A closing parenthesis has no opening one."
      | .or | .and => unbalanced tok.span "or and and need something on both sides."
      | .not => unbalanced tok.span "not needs something after it."
      | .field word value quoted =>
        match fieldTerm p.list word value quoted tok.span p.today with
        | .ok t => return (.field t, after)
        | .error err => .error (.refused err)
      | .word text pre => return (.text (.term text pre), after)
      | .phrase text =>
        if isBlank text then
          .error (.refused (.new .emptyValue tok.span
            "A quoted phrase needs some text between the quotes."))
        else return (.text (.phrase text), after)
end

end Parser

/-- Parse tokens for `list`. `none` is an empty query. -/
def parse (list : ListKind) (tokens : List Token) (today : NaiveDate) :
    Except Failure (Option Expr) :=
  match tokens.getLast? with
  | none => .ok none
  | some last => do
    let stop := last.span.2
    let p : Parser := { list, today, stop }
    let (expr, rest) ← p.parseOr (4 * tokens.length + 4) 0 [] tokens
    match rest with
    | extra :: _ => unbalanced extra.span "A closing parenthesis has no opening one."
    | [] =>
      if maxTextTerms < expr.textTerms then
        .error (.refused (.new .tooComplex (0, stop)
          ("The search has more than " ++ toString maxTextTerms ++ " words.")))
      else if maxNodes < expr.nodes then
        .error (.refused (.new .tooComplex (0, stop) "The search has too many parts."))
      else return some expr

end MessageCrate

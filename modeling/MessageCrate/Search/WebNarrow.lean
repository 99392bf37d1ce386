import MessageCrate.Search.Behind
import MessageCrate.Search.Compile
import MessageCrate.Search.Negation
import MessageCrate.Search.Pairing

/- A page's filter and typed text in the web app (`narrow` of `src/web/src/lib/searchQuery.ts`).

   A page shows what its filter matches, and a person narrows that with text of their own. Both go
   to the server as one query, `filter (typed)`.

   What is proved:
     1. `refused_unpaired`: typed text whose parentheses do not pair up is refused.
     2. `split_of_group`: what stands in the parentheses is a query of its own.
     3. `compileQuery_holds`: the filter of a query is TRUE of the rows that pass the scope and the
        defaults chosen for the whole query, and match its tree.
     4. `narrow_narrows`: a row matches the filter of the joined query when it passes its defaults
        and both trees match it, so an `or` that is typed reaches no row outside the page's filter.
        But a typed `trashed:`, `source:` or `import:` lifts a default for both: only where the page
        lifts it too is every row of the joined query one of the page's.

   Correspondence (TypeScript ↔ Lean):
     `s.trim()`             ↔ `jsTrim`
     `parenthesesPair`      ↔ `pairsFrom`, on the tokens left and how many groups are open -/
namespace MessageCrate.Web
open Text SqlText

def jsTrim (s : String) : String :=
  String.ofList ((s.toList.dropWhile isJsSpace).rdropWhile isJsSpace)

def pairsFrom : Nat → List SearchToken → Bool
  | depth, [] => depth == 0
  | depth, tok :: tokens =>
    match tok.kind with
    | .opens => pairsFrom (depth + 1) tokens
    | .closes => if depth = 0 then false else pairsFrom (depth - 1) tokens
    | .text => pairsFrom depth tokens

/-- Every `)` in the query closes a `(` before it, and none is left open. -/
def parenthesesPair (query : String) : Bool := pairsFrom 0 (searchTokens query)

/-- The typed text narrowed to a page's filter. -/
def narrow (filter typed : String) : String :=
  let f := jsTrim filter
  let t := jsTrim typed
  if t.isEmpty then f
  else if f.isEmpty then t
  else if parenthesesPair t then f ++ " (" ++ t ++ ")"
  else f ++ " " ++ t

example : narrow "trashed:yes" "gone or name:jane" = "trashed:yes (gone or name:jane)" := by
  decide +kernel

/-! Typed text that pairs up, to both. -/

theorem pairsFrom_iff {q : List Char} {pieces : List SearchToken} {tokens : List Token}
    (depth : Nat) (h : List.Forall₂ (SamePiece q) pieces tokens) :
    pairsFrom depth pieces = true ↔ depthAfter depth tokens = some 0 := by
  induction h generalizing depth with
  | nil => simp [pairsFrom, depthAfter]
  | cons hsame hrest ih =>
    obtain ⟨-, -, -, -, -, -, -, hopen, hclose⟩ := hsame
    rw [pairsFrom]
    split
    · next hkind =>
      rw [depthAfter_lparen (hopen.mp hkind)]
      exact ih _
    · next hkind =>
      have hrparen := hclose.mp hkind
      cases depth with
      | zero =>
        rw [depthAfter, hrparen]
        simp
      | succ depth =>
        rw [depthAfter_rparen hrparen]
        simpa using ih depth
    · next hkind =>
      rw [depthAfter_other]
      · exact ih _
      · intro h
        have := hopen.mpr h
        rw [hkind] at this
        cases this
      · intro h
        have := hclose.mpr h
        rw [hkind] at this
        cases this

/-! The tokens of the joined text. -/

/-- The tokens of a text, whatever its length. -/
def lexText (s : String) : Except QueryError (List Token) := lexAll ⟨0, s.toList.map spaced⟩

theorem tokenize_eq_ok {query : String} {tokens : List Token} :
    tokenize query = .ok tokens ↔
      byteLength query.toList ≤ maxQueryBytes ∧ lexText query = .ok tokens := by
  unfold tokenize
  simp only
  split
  · next hlong =>
    constructor
    · intro h
      cases h
    · intro h
      exact absurd h.1 (Nat.not_le.mpr hlong)
  · next hshort =>
    constructor
    · intro h
      exact ⟨Nat.not_lt.mp hshort, h⟩
    · intro h
      exact h.2

theorem parenthesesPair_iff {query : String} {tokens : List Token}
    (h : lexText query = .ok tokens) : parenthesesPair query = true ↔ PairsUp tokens := by
  have hat : At query.toList [] ⟨0, query.toList.map spaced⟩ ⟨0, query.toList⟩ :=
    ⟨rfl, rfl, rfl, rfl⟩
  have hlength : (query.toList.map spaced).length = query.toList.length := List.length_map _
  have hfollows := follows_readPieces (query.toList.length + 1) hat
  have htokens : readTokens (query.toList.length + 1) ⟨0, query.toList.map spaced⟩ = .ok tokens := by
    rw [lexText, lexAll] at h
    simp only [hlength] at h
    exact h
  rw [htokens] at hfollows
  exact pairsFrom_iff 0 hfollows

theorem respan_shift_zero (tokens : List Token) :
    tokens.map (Token.respan (shift 0)) = tokens := by
  have hid : Token.respan (shift 0) = id := by
    funext tok
    rfl
  rw [hid, List.map_id]

/-- The same text, further on. -/
theorem lexAll_shift (cs : List Char) (k : Nat) :
    (∀ ts, lexAll ⟨0, cs⟩ = .ok ts → lexAll ⟨k, cs⟩ = .ok (ts.map (Token.respan (shift k)))) ∧
      (∀ err, lexAll ⟨0, cs⟩ = .error err → ∃ err', lexAll ⟨k, cs⟩ = .error err') := by
  have hstop : Stops [] := fun c hc => by cases hc
  have hbeside : Beside k [] ⟨0, cs⟩ ⟨k, cs⟩ := ⟨(Nat.zero_add k).symm, (List.append_nil cs).symm⟩
  have hnil : ∀ pos, lexAll ⟨pos, []⟩ = .ok [] := fun pos => rfl
  obtain ⟨hok, herror⟩ := lexAll_beside hstop (Nat.lt_succ_self _) hbeside
  constructor
  · intro ts hts
    rw [hok ts hts, hnil]
    show Except.ok (_ ++ []) = _
    rw [List.append_nil]
  · intro err herr
    exact herror err herr (by simp)

/-- A text behind the filter and a space. -/
theorem lexAll_behind {f : String} {fts : List Token} (hf : lexText f = .ok fts) (cs : List Char) :
    lexAll ⟨0, f.toList.map spaced ++ ' ' :: cs⟩ =
      (lexAll ⟨byteLength (f.toList.map spaced) + 1, cs⟩).map (fts ++ ·) := by
  have hstop : Stops (' ' :: cs) := by
    intro c hc
    cases hc
    exact .inl rfl
  have hbeside : Beside 0 (' ' :: cs) ⟨0, f.toList.map spaced⟩
      ⟨0, f.toList.map spaced ++ ' ' :: cs⟩ := ⟨rfl, rfl⟩
  have hspace : lexAll ⟨0 + byteLength (f.toList.map spaced), ' ' :: cs⟩ =
      lexAll ⟨byteLength (f.toList.map spaced) + 1, cs⟩ := by
    have hws : ∀ c ∈ [' '], isAsciiWhitespace c = true := by
      intro c hc
      rw [List.mem_singleton.mp hc]
      rfl
    have hone : lexAll ⟨byteLength (f.toList.map spaced), [' '] ++ cs⟩ =
        lexAll ⟨byteLength (f.toList.map spaced) + byteLength [' '], cs⟩ := lexAll_space hws _
    rw [Nat.zero_add]
    exact hone
  have hall := (lexAll_beside hstop (Nat.lt_succ_self _) hbeside).1 fts hf
  rw [respan_shift_zero] at hall
  rw [hall, hspace]

/-- A `(`, and more. -/
theorem lexAll_open (pos : Nat) (cs : List Char) : lexAll ⟨pos, '(' :: cs⟩ =
    (lexAll ⟨pos + 1, cs⟩).map (⟨.lparen, (pos, pos + 1), false⟩ :: ·) := by
  have hscan : ((⟨pos, '(' :: cs⟩ : Cursor).scan isAsciiWhitespace).2 = ⟨pos, '(' :: cs⟩ := rfl
  have hnext : nextToken ⟨pos, '(' :: cs⟩ =
      .ok (⟨.lparen, (pos, pos + 1), false⟩, ⟨pos + 1, cs⟩) := by
    have hclose : ∀ rest, (⟨pos, '(' :: cs⟩ : Cursor).rest ≠ ')' :: rest := by
      intro rest heq
      cases heq
    have hminus : isNegated ('(' :: cs) = false := by
      unfold isNegated
      split
      · next heq => cases heq
      · rfl
    rw [nextToken_operand hclose, hminus]
    rfl
  rw [lexAll_eq, hscan, hnext]
  show (do let rest ← lexAll ⟨pos + 1, cs⟩; return _ :: rest) = _
  cases lexAll ⟨pos + 1, cs⟩ with
  | error err => rfl
  | ok rest => rfl

/-- A text and a `)`. -/
theorem lexAll_close (cs : List Char) (k : Nat) :
    (∀ ts, lexAll ⟨0, cs⟩ = .ok ts → ∃ span, lexAll ⟨k, cs ++ [')']⟩ =
      .ok (ts.map (Token.respan (shift k)) ++ [⟨.rparen, span, false⟩])) ∧
      (∀ err, lexAll ⟨0, cs⟩ = .error err → ∃ err', lexAll ⟨k, cs ++ [')']⟩ = .error err') := by
  have hstop : Stops [')'] := by
    intro c hc
    cases hc
    exact .inr rfl
  have hbeside : Beside k [')'] ⟨0, cs⟩ ⟨k, cs ++ [')']⟩ := ⟨(Nat.zero_add k).symm, rfl⟩
  obtain ⟨hok, herror⟩ := lexAll_beside hstop (Nat.lt_succ_self _) hbeside
  constructor
  · intro ts hts
    refine ⟨(k + byteLength cs, k + byteLength cs + 1), ?_⟩
    rw [hok ts hts]
    rfl
  · intro err herr
    exact herror err herr (by decide)

/-! The tree of the joined text. -/

section tree
variable {list : ListKind} {today : NaiveDate}

/-- The parser's tree is the derivation's. -/
theorem parse_tree {tokens : List Token} {parts : List Expr} {n : Nat} {e : Expr}
    (hparse : parse list tokens today = .ok (some e)) (hor : OrParts list today tokens parts n)
    (hdepth : n ≤ 32) : e = collapse .or parts := by
  have hne : tokens ≠ [] := List.length_pos_iff.mp (length_pos_of_start hor.start)
  have hdeep : 0 + n ≤ maxDepth := by simpa [maxDepth] using hdepth
  unfold parse at hparse
  rw [List.getLast?_eq_getLast_of_ne_nil hne] at hparse
  have hrun : Parser.parseOr ⟨list, today, (tokens.getLast hne).span.2⟩ (4 * tokens.length + 4)
      0 [] (tokens ++ []) = .ok (collapse .or ([] ++ parts), []) :=
    (Parser.complete _ _).or hor hdeep (le_refl _) (by simp [EndsOr])
  rw [List.append_nil, List.nil_append] at hrun
  simp only [hrun, bind, Except.bind] at hparse
  split at hparse
  · cases hparse
  split at hparse
  · cases hparse
  · cases hparse
    rfl

/-- One more operand. -/
theorem andParts_snoc {us : List Token} {e : Expr} {m : Nat} (hunary : Unary list today us e m)
    {ts : List Token} {es : List Expr} {n : Nat} (h : AndParts list today ts es n) :
    AndParts list today (ts ++ us) (es ++ [e]) (max n m) := by
  cases h with
  | last h => exact .space h (.last hunary)
  | and h htok hand =>
    rw [List.append_assoc, List.cons_append, List.cons_append, max_assoc]
    exact .and h htok (andParts_snoc hunary hand)
  | space h hand =>
    rw [List.append_assoc, List.cons_append, max_assoc]
    exact .space h (andParts_snoc hunary hand)

theorem textTermsOf_snoc (es : List Expr) (e : Expr) :
    Expr.textTermsOf (es ++ [e]) = Expr.textTermsOf es + e.textTerms := by
  induction es with
  | nil => simp [Expr.textTermsOf]
  | cons d es ih => simp only [List.cons_append, Expr.textTermsOf, ih, Nat.add_assoc]

theorem nodesOf_snoc (es : List Expr) (e : Expr) :
    Expr.nodesOf (es ++ [e]) = Expr.nodesOf es + e.nodes := by
  induction es with
  | nil => simp [Expr.nodesOf]
  | cons d es ih => simp only [List.cons_append, Expr.nodesOf, ih, Nat.add_assoc]

theorem usesAny_snoc (word : String) (es : List Expr) (e : Expr) :
    Expr.usesAny word (es ++ [e]) = (Expr.usesAny word es || e.uses word) := by
  induction es with
  | nil => simp [Expr.usesAny]
  | cons d es ih => simp only [List.cons_append, Expr.usesAny, ih, Bool.or_assoc]

theorem uses_collapse_and (word : String) (es : List Expr) :
    (collapse .and es).uses word = Expr.usesAny word es := by
  match es with
  | [] => simp [collapse, Expr.uses]
  | [e] => simp [collapse, Expr.usesAny]
  | e :: e' :: es => simp [collapse, Expr.uses]

theorem matchesAll_snoc (ctx : ListCtx) (v : Valuation) (es : List Expr) (e : Expr) :
    Expr.matchesAll ctx v (es ++ [e]) ↔ Expr.matchesAll ctx v es ∧ e.Matches ctx v := by
  induction es with
  | nil => simp [Expr.matchesAll]
  | cons d es ih => simp only [List.cons_append, Expr.matchesAll, ih, and_assoc]

theorem matches_collapse_and (ctx : ListCtx) (v : Valuation) (es : List Expr) :
    (collapse .and es).Matches ctx v ↔ Expr.matchesAll ctx v es := by
  match es with
  | [] => simp [collapse, Expr.Matches]
  | [e] => simp [collapse, Expr.matchesAll]
  | e :: e' :: es => simp [collapse, Expr.Matches]

theorem andParts_ne_nil {ts : List Token} {es : List Expr} {n : Nat}
    (h : AndParts list today ts es n) : es ≠ [] := by
  cases h with
  | last _ => exact List.cons_ne_nil _ _
  | and _ _ _ => exact List.cons_ne_nil _ _
  | space _ _ => exact List.cons_ne_nil _ _

theorem collapse_snoc (node : List Expr → Expr) {es : List Expr} (hne : es ≠ []) (e : Expr) :
    collapse node (es ++ [e]) = node (es ++ [e]) := by
  match es with
  | [] => exact absurd rfl hne
  | [d] => rfl
  | d :: d' :: es => rfl

/-- A tree of two: it matches what both match, and uses the words that either does. -/
structure Both (ef et e : Expr) : Prop where
  matches_iff : ∀ ctx v, e.Matches ctx v ↔ ef.Matches ctx v ∧ et.Matches ctx v
  uses : ∀ word, e.uses word = (ef.uses word || et.uses word)

/-- **A tree of the filter's tokens and a group is both.** The tokens in the group parse alone,
and the whole matches what the filter and they match. -/
theorem split_of_group {fts tts : List Token} {opening closing : Token} {es : List Expr} {e : Expr}
    {n : Nat} (hfilter : AndParts list today fts es n) (hdepth : n ≤ 32)
    (hgroup : IsGroup opening tts closing) (hplain : opening.negated = false)
    (h : parse list (fts ++ opening :: (tts ++ [closing])) today = .ok (some e)) :
    ∃ et, parse list tts today = .ok (some et) ∧ Both (collapse .and es) et e := by
  obtain ⟨parts, k, hor, rfl, hk, htext, hnodes⟩ := derives_of_parse h
  obtain ⟨parts', m, hinside, hm⟩ := hor.inside hgroup rfl
  have hunary : Unary list today (opening :: (tts ++ [closing])) (collapse .or parts') (m + 1) :=
    .plain hplain (.group hgroup.opens hinside hgroup.closes)
  have hwhole := parse_tree h (.last (andParts_snoc hunary hfilter))
    (max_le hdepth (hm.trans hk))
  have hsnoc : collapse .or [collapse .and (es ++ [collapse .or parts'])] =
      .and (es ++ [collapse .or parts']) := collapse_snoc _ (andParts_ne_nil hfilter) _
  rw [hsnoc] at hwhole
  rw [hwhole, Expr.textTerms, textTermsOf_snoc] at htext
  rw [hwhole, Expr.nodes, nodesOf_snoc] at hnodes
  refine ⟨collapse .or parts', parse_of_derives ⟨parts', m, hinside, rfl, by omega, by omega,
    by omega⟩, fun ctx v => ?_, fun word => ?_⟩
  · rw [hwhole, Expr.Matches, matchesAll_snoc, matches_collapse_and]
  · rw [hwhole, Expr.uses, usesAny_snoc, uses_collapse_and]

/-- Tokens parse wherever they stand. -/
theorem parse_respan (g : Nat × Nat → Nat × Nat) {tokens : List Token} {e : Expr}
    (h : parse list tokens today = .ok (some e)) :
    parse list (tokens.map (Token.respan g)) today = .ok (some (e.respan g)) := by
  obtain ⟨parts, n, hor, rfl, hdepth, htext, hnodes⟩ := derives_of_parse h
  refine parse_of_derives ⟨_, n, hor.respan g, respan_collapse_or g parts, hdepth, ?_, ?_⟩
  · rw [textTerms_respan]
    exact htext
  · rw [nodes_respan]
    exact hnodes

end tree

theorem depthAfter_respan (g : Nat × Nat → Nat × Nat) : ∀ (tokens : List Token) (depth : Nat),
    depthAfter depth (tokens.map (Token.respan g)) = depthAfter depth tokens
  | [], _ => rfl
  | tok :: tokens, depth => by
    have hkind : (tok.respan g).kind = tok.kind := rfl
    simp only [List.map_cons, depthAfter, hkind, depthAfter_respan g tokens]

theorem pairsUp_respan (g : Nat × Nat → Nat × Nat) {tokens : List Token} :
    PairsUp (tokens.map (Token.respan g)) ↔ PairsUp tokens := by
  unfold PairsUp
  rw [depthAfter_respan]

theorem respan_unshift (k : Nat) (tokens : List Token) :
    (tokens.map (Token.respan (shift k))).map
      (Token.respan (fun span => (span.1 - k, span.2 - k))) = tokens := by
  rw [List.map_map]
  refine (List.map_congr_left ?_).trans (List.map_id _)
  intro tok _
  show ({ tok with span := (tok.span.1 + k - k, tok.span.2 + k - k) } : Token) = tok
  rw [Nat.add_sub_cancel, Nat.add_sub_cancel]

theorem parseQuery_eq_ok {list : ListKind} {query : String} {today : NaiveDate} {e : Option Expr} :
    parseQuery list query today = .ok e ↔
      ∃ tokens, tokenize query = .ok tokens ∧ parse list tokens today = .ok e := by
  have hbind : parseQuery list query today =
      (refuse (tokenize query) >>= fun tokens => parse list tokens today) := rfl
  rw [hbind]
  cases htokens : tokenize query with
  | error err =>
    constructor
    · intro h
      cases h
    · rintro ⟨tokens, h, -⟩
      cases h
  | ok tokens =>
    constructor
    · intro h
      exact ⟨tokens, rfl, h⟩
    · rintro ⟨tokens', h, hparse⟩
      cases h
      exact hparse

section narrowed
variable {list : ListKind} {today : NaiveDate} {f t : String} {fts : List Token} {es : List Expr}
  {n : Nat} {e : Expr}

theorem byteLength_toList_append (a b : String) :
    byteLength (a ++ b).toList = byteLength a.toList + byteLength b.toList := by
  rw [String.toList_append, byteLength_append]

/-- Typed text in parentheses. -/
theorem matches_paired (hf : lexText f = .ok fts) (hfilter : AndParts list today fts es n)
    (hdepth : n ≤ 32) (hpair : parenthesesPair t = true)
    (h : parseQuery list (f ++ " (" ++ t ++ ")") today = .ok (some e)) :
    ∃ et, parseQuery list t today = .ok (some et) ∧ Both (collapse .and es) et e := by
  obtain ⟨tokens, htokens, hparse⟩ := parseQuery_eq_ok.mp h
  obtain ⟨hlength, hlex⟩ := tokenize_eq_ok.mp htokens
  have hchars : (f ++ " (" ++ t ++ ")").toList.map spaced =
      f.toList.map spaced ++ ' ' :: ('(' :: (t.toList.map spaced ++ [')'])) := by
    have hspace : " (".toList.map spaced = [' ', '('] := rfl
    have hparen : ")".toList.map spaced = [')'] := rfl
    simp only [String.toList_append, List.map_append, hspace, hparen, List.append_assoc,
      List.cons_append, List.nil_append]
  rw [lexText, hchars, lexAll_behind hf, lexAll_open] at hlex
  obtain ⟨hclose, hnone⟩ :=
    lexAll_close (t.toList.map spaced) (byteLength (f.toList.map spaced) + 1 + 1)
  cases ht : lexText t with
  | error err =>
    obtain ⟨err', herr⟩ := hnone err ht
    rw [herr] at hlex
    cases hlex
  | ok tts =>
    obtain ⟨span, htts⟩ := hclose tts ht
    rw [htts] at hlex
    obtain rfl := Except.ok.inj hlex
    have hgroup : IsGroup
        ⟨.lparen, (byteLength (f.toList.map spaced) + 1, byteLength (f.toList.map spaced) + 1 + 1),
          false⟩
        (tts.map (Token.respan (shift (byteLength (f.toList.map spaced) + 1 + 1))))
        ⟨.rparen, span, false⟩ :=
      ⟨rfl, (pairsUp_respan _).mpr ((parenthesesPair_iff ht).mp hpair), rfl⟩
    obtain ⟨et, het, hboth⟩ := split_of_group hfilter hdepth hgroup rfl hparse
    have hback := parse_respan (fun span =>
      (span.1 - (byteLength (f.toList.map spaced) + 1 + 1),
        span.2 - (byteLength (f.toList.map spaced) + 1 + 1))) het
    rw [respan_unshift] at hback
    have hshort : byteLength t.toList ≤ maxQueryBytes := by
      rw [byteLength_toList_append, byteLength_toList_append] at hlength
      omega
    refine ⟨_, parseQuery_eq_ok.mpr ⟨tts, tokenize_eq_ok.mpr ⟨hshort, ht⟩, hback⟩,
      fun ctx v => ?_, fun word => ?_⟩
    · rw [hboth.matches_iff ctx v, matches_respan]
    · rw [hboth.uses word, uses_respan]

/-- Typed text whose parentheses do not pair up is refused behind a filter. -/
theorem refused_unpaired (hf : lexText f = .ok fts) (hfilter : AndParts list today fts es n)
    (hpair : parenthesesPair t = false) :
    ∀ e, parseQuery list (f ++ " " ++ t) today ≠ .ok (some e) := by
  intro e h
  obtain ⟨tokens, htokens, hparse⟩ := parseQuery_eq_ok.mp h
  obtain ⟨-, hlex⟩ := tokenize_eq_ok.mp htokens
  have hchars : (f ++ " " ++ t).toList.map spaced =
      f.toList.map spaced ++ ' ' :: t.toList.map spaced := by
    have hspace : " ".toList.map spaced = [' '] := rfl
    simp only [String.toList_append, List.map_append, hspace, List.append_assoc, List.cons_append,
      List.nil_append]
  rw [lexText, hchars, lexAll_behind hf] at hlex
  obtain ⟨hok, hnone⟩ :=
    lexAll_shift (t.toList.map spaced) (byteLength (f.toList.map spaced) + 1)
  cases ht : lexText t with
  | error err =>
    obtain ⟨err', herr⟩ := hnone err ht
    rw [herr] at hlex
    cases hlex
  | ok tts =>
    rw [hok tts ht] at hlex
    obtain rfl := Except.ok.inj hlex
    obtain ⟨parts, k, hor, -⟩ := derives_of_parse hparse
    have hpairs : PairsUp tts :=
      (pairsUp_respan _).mp (hfilter.paired.of_append hor.paired)
    rw [(parenthesesPair_iff ht).mpr hpairs] at hpair
    cases hpair

/-- A query with the filter's tokens in it has a tree, where it is accepted. -/
theorem ne_none_of_filter (hf : lexText f = .ok fts) (hne : fts ≠ []) (cs : String) :
    parseQuery list (f ++ " " ++ cs) today ≠ .ok none := by
  intro h
  obtain ⟨tokens, htokens, hparse⟩ := parseQuery_eq_ok.mp h
  obtain ⟨-, hlex⟩ := tokenize_eq_ok.mp htokens
  have hchars : (f ++ " " ++ cs).toList.map spaced =
      f.toList.map spaced ++ ' ' :: cs.toList.map spaced := by
    have hspace : " ".toList.map spaced = [' '] := rfl
    simp only [String.toList_append, List.map_append, hspace, List.append_assoc, List.cons_append,
      List.nil_append]
  rw [lexText, hchars, lexAll_behind hf, parse_eq_none_iff.mp hparse] at hlex
  cases hrest : lexAll ⟨byteLength (f.toList.map spaced) + 1, cs.toList.map spaced⟩ with
  | error err =>
    rw [hrest] at hlex
    cases hlex
  | ok rest =>
    rw [hrest] at hlex
    exact hne (List.append_eq_nil_iff.mp (Except.ok.inj hlex)).1

end narrowed

/-! The filters of the queries. -/

section compiled
variable {req : CompileRequest} {ef et e : Expr}

/-- **The filter of a query** is TRUE of the rows that pass the scope and the defaults of the query,
and match its tree. -/
theorem compileQuery_holds (h : parseQuery req.list req.query req.today = .ok (some e)) :
    ∃ f, compileQuery req = .ok f ∧ ∀ v, Holds v f.whereSql f.params ↔
      Passes req.list (some e) req.accountId req.zone v ∧
        e.Matches ⟨req.list, req.accountId, req.zone, trashScope (some e)⟩ v := by
  obtain ⟨tokens, -, hparse⟩ := parseQuery_eq_ok.mp h
  obtain ⟨f, hf, hholds⟩ := holds_compileSql req.list req.accountId req.zone (built_of_parse hparse)
  refine ⟨f, ?_, hholds⟩
  unfold compileQuery
  rw [h]
  show refuse (compile req.list (some e) req.accountId req.zone) = _
  rw [hf]
  rfl

theorem compileQuery_error {err : Failure}
    (h : parseQuery req.list req.query req.today = .error err) : compileQuery req = .error err := by
  unfold compileQuery
  rw [h]
  rfl

/-- The words that lift a default of a list. -/
def liftingWords : List String := ["trashed", "source", "import"]

/-- Queries that use the same lifting words have the same defaults and search the same trash. -/
theorem defaults_congr {expr expr' : Option Expr}
    (h : ∀ word ∈ liftingWords, usesWord expr word = usesWord expr' word) :
    trashScope expr = trashScope expr' ∧
      ∀ list accountId zone v, Passes list expr accountId zone v ↔
        Passes list expr' accountId zone v := by
  have htrashed := h "trashed" (by decide)
  have hsource := h "source" (by decide)
  have himport := h "import" (by decide)
  have hscope : trashScope expr = trashScope expr' := by rw [trashScope, trashScope, htrashed]
  refine ⟨hscope, fun list accountId zone v => ?_⟩
  have hdefaults : defaultsSql list expr = defaultsSql list expr' := by
    unfold defaultsSql
    rw [htrashed, hsource, himport]
  rw [Passes, Passes, hscope, hdefaults]

end compiled

/-- The filter of the joined query beside the page's and that of the typed text alone: the rows that
pass the defaults of the whole query and match both trees. -/
structure Narrows (req : CompileRequest) (ef et e : Expr) (page alone joined : Filter) : Prop where
  /-- A word lifts a default of the joined query when either part uses it. -/
  lifts : ∀ word, usesWord (some e) word = (usesWord (some ef) word || usesWord (some et) word)
  rows : ∀ v, Holds v joined.whereSql joined.params ↔
    Passes req.list (some e) req.accountId req.zone v ∧
      ef.Matches ⟨req.list, req.accountId, req.zone, trashScope (some e)⟩ v ∧
      et.Matches ⟨req.list, req.accountId, req.zone, trashScope (some e)⟩ v
  /-- Typed text that lifts nothing the page does not lift narrows the page. -/
  narrows : (∀ word ∈ liftingWords, usesWord (some et) word = true → usesWord (some ef) word = true) →
    ∀ v, Holds v joined.whereSql joined.params ↔ Holds v page.whereSql page.params ∧
      et.Matches ⟨req.list, req.accountId, req.zone, trashScope (some ef)⟩ v
  /-- Where both lift the same, the joined query is both queries. -/
  both : (∀ word ∈ liftingWords, usesWord (some et) word = usesWord (some ef) word) →
    ∀ v, Holds v joined.whereSql joined.params ↔
      Holds v page.whereSql page.params ∧ Holds v alone.whereSql alone.params

theorem narrows_of_both {req : CompileRequest} {ef et e : Expr} {page alone joined : Filter}
    (hboth : Both ef et e)
    (hpage : ∀ v, Holds v page.whereSql page.params ↔
      Passes req.list (some ef) req.accountId req.zone v ∧
        ef.Matches ⟨req.list, req.accountId, req.zone, trashScope (some ef)⟩ v)
    (halone : ∀ v, Holds v alone.whereSql alone.params ↔
      Passes req.list (some et) req.accountId req.zone v ∧
        et.Matches ⟨req.list, req.accountId, req.zone, trashScope (some et)⟩ v)
    (hjoined : ∀ v, Holds v joined.whereSql joined.params ↔
      Passes req.list (some e) req.accountId req.zone v ∧
        e.Matches ⟨req.list, req.accountId, req.zone, trashScope (some e)⟩ v) :
    Narrows req ef et e page alone joined := by
  have hlifts : ∀ word,
      usesWord (some e) word = (usesWord (some ef) word || usesWord (some et) word) := hboth.uses
  have hnarrows : (∀ word ∈ liftingWords,
      usesWord (some et) word = true → usesWord (some ef) word = true) →
      ∀ v, Holds v joined.whereSql joined.params ↔ Holds v page.whereSql page.params ∧
        et.Matches ⟨req.list, req.accountId, req.zone, trashScope (some ef)⟩ v := by
    intro hwords v
    have hsame : ∀ word ∈ liftingWords, usesWord (some e) word = usesWord (some ef) word := by
      intro word hword
      rw [hlifts word]
      cases htyped : usesWord (some et) word with
      | false => exact Bool.or_false _
      | true =>
        rw [hwords word hword htyped]
        rfl
    obtain ⟨hscope, hpasses⟩ := defaults_congr hsame
    rw [hjoined v, hpage v, hboth.matches_iff, hpasses, hscope, and_assoc]
  refine ⟨hlifts, fun v => by rw [hjoined v, hboth.matches_iff], hnarrows, ?_⟩
  intro hwords v
  obtain ⟨hscope, hpasses⟩ := defaults_congr hwords
  rw [hnarrows (fun word hword htyped => (hwords word hword).symm.trans htyped) v, halone v, hpasses,
    hscope, hpage v]
  tauto

/-- **Typed text narrows a page's filter.** Typed text whose parentheses do not pair up is refused.
Where the joined query is accepted, so is the typed text alone, unless that is blank and the query
is the page's; and a row matches the joined query when it passes the defaults that neither part
lifts and matches both parts. -/
theorem narrow_narrows (req : CompileRequest) (filter typed : String) {ef : Expr}
    (hfilter : parseQuery req.list (jsTrim filter) req.today = .ok (some ef))
    (hor : ∀ tokens, tokenize (jsTrim filter) = .ok tokens → NoOuterOr tokens) :
    (parenthesesPair (jsTrim typed) = false →
      ∃ err, compileQuery { req with query := narrow filter typed } = .error err) ∧
    ∀ joined, compileQuery { req with query := narrow filter typed } = .ok joined →
      ∃ page, compileQuery { req with query := jsTrim filter } = .ok page ∧
        ((jsTrim typed = "" ∧ joined = page) ∨
          ∃ et e alone, parseQuery req.list (jsTrim typed) req.today = .ok (some et) ∧
            parseQuery req.list (narrow filter typed) req.today = .ok (some e) ∧
            compileQuery { req with query := jsTrim typed } = .ok alone ∧
            Narrows req ef et e page alone joined) := by
  obtain ⟨fts, hfts, hparse⟩ := parseQuery_eq_ok.mp hfilter
  obtain ⟨parts, n, hderives, rfl, hdepth, -, -⟩ := derives_of_parse hparse
  obtain ⟨es, hes, rfl⟩ := AndParts.of_noOuterOr hderives (hor fts hfts)
  have hf : lexText (jsTrim filter) = .ok fts := (tokenize_eq_ok.mp hfts).2
  have hne : fts ≠ [] := List.length_pos_iff.mp (length_pos_of_start hderives.start)
  have hsome : (jsTrim filter).isEmpty = false := by
    rw [String.isEmpty_eq_false_iff]
    intro hempty
    rw [hempty] at hf
    exact hne (Except.ok.inj hf).symm
  have hjoin : (jsTrim typed).isEmpty = false → narrow filter typed =
      if parenthesesPair (jsTrim typed) then jsTrim filter ++ " (" ++ jsTrim typed ++ ")"
      else jsTrim filter ++ " " ++ jsTrim typed := by
    intro htyped
    unfold narrow
    simp only [hsome, htyped, Bool.false_eq_true, if_false]
  have hrefuse : ∀ {query : String} {err : Failure},
      parseQuery req.list query req.today = .error err →
      compileQuery { req with query := query } = .error err :=
    fun {query} {err} h => @compileQuery_error { req with query := query } err h
  have hunpaired : parenthesesPair (jsTrim typed) = false →
      ∃ err, compileQuery { req with query := narrow filter typed } = .error err := by
    intro hpair
    have htyped : (jsTrim typed).isEmpty = false := by
      rw [String.isEmpty_eq_false_iff]
      intro hempty
      rw [hempty] at hpair
      exact absurd hpair (by decide)
    have hquery : narrow filter typed = jsTrim filter ++ " " ++ jsTrim typed := by
      rw [hjoin htyped, hpair, if_neg Bool.false_ne_true]
    cases hresult : parseQuery req.list (narrow filter typed) req.today with
    | error err => exact ⟨err, hrefuse hresult⟩
    | ok tree =>
      rw [hquery] at hresult
      cases tree with
      | none => exact absurd hresult (ne_none_of_filter hf hne _)
      | some e => exact absurd hresult (refused_unpaired hf hes hpair e)
  refine ⟨hunpaired, ?_⟩
  intro joined hjoined
  -- The filter of a query that has a tree.
  have hcompile : ∀ {query : String} {e : Expr},
      parseQuery req.list query req.today = .ok (some e) →
      ∃ f, compileQuery { req with query := query } = .ok f ∧ ∀ v, Holds v f.whereSql f.params ↔
        Passes req.list (some e) req.accountId req.zone v ∧
          e.Matches ⟨req.list, req.accountId, req.zone, trashScope (some e)⟩ v :=
    fun {query} {e} h => @compileQuery_holds { req with query := query } e h
  obtain ⟨page, hpage, hpageHolds⟩ := hcompile hfilter
  refine ⟨page, hpage, ?_⟩
  cases htyped : (jsTrim typed).isEmpty with
  | true =>
    have hblank := String.isEmpty_iff.mp htyped
    have hquery : narrow filter typed = jsTrim filter := by
      unfold narrow
      simp only [htyped, if_true]
    rw [hquery, hpage] at hjoined
    exact .inl ⟨hblank, (Except.ok.inj hjoined).symm⟩
  | false =>
    cases hpair : parenthesesPair (jsTrim typed) with
    | false =>
      obtain ⟨err, herr⟩ := hunpaired hpair
      rw [herr] at hjoined
      cases hjoined
    | true =>
      have hquery : narrow filter typed = jsTrim filter ++ " (" ++ jsTrim typed ++ ")" := by
        rw [hjoin htyped, hpair, if_pos rfl]
      have hspaced : jsTrim filter ++ " (" ++ jsTrim typed ++ ")" =
          jsTrim filter ++ " " ++ ("(" ++ jsTrim typed ++ ")") := by
        have hparen : " (" = " " ++ "(" := by decide
        simp only [hparen, String.append_assoc]
      cases hresult : parseQuery req.list (narrow filter typed) req.today with
      | error err =>
        rw [hrefuse hresult] at hjoined
        cases hjoined
      | ok tree =>
        cases tree with
        | none =>
          rw [hquery, hspaced] at hresult
          exact absurd hresult (ne_none_of_filter hf hne _)
        | some e =>
          obtain ⟨et, het, hboth⟩ := matches_paired hf hes hdepth hpair (hquery ▸ hresult)
          obtain ⟨alone, halone, haloneHolds⟩ := hcompile het
          obtain ⟨joined', hjoined', hjoinedHolds⟩ := hcompile hresult
          obtain rfl := Except.ok.inj (hjoined'.symm.trans hjoined)
          exact .inr ⟨et, e, alone, het, rfl, halone,
            narrows_of_both hboth hpageHolds haloneHolds hjoinedHolds⟩

/-- The query is accepted, and not blank. -/
def accepted (list : ListKind) (query : String) (today : NaiveDate) : Bool :=
  match parseQuery list query today with
  | .ok (some _) => true
  | _ => false

theorem exists_of_accepted {list : ListKind} {query : String} {today : NaiveDate}
    (h : accepted list query today = true) : ∃ e, parseQuery list query today = .ok (some e) := by
  unfold accepted at h
  split at h
  · next e he => exact ⟨e, he⟩
  · cases h

/-- A request on the Messages list. -/
def onMessages (query : String) : CompileRequest := ⟨.messages, query, 7, ⟨0, by decide⟩, ⟨some, id⟩⟩

/-- Whether the tree of a query on Messages uses a word. -/
def queryUses (query word : String) : Bool :=
  match parseQuery .messages query ⟨0, by decide⟩ with
  | .ok expr => usesWord expr word
  | .error _ => false

theorem usesWord_of_queryUses {query : String} {e : Expr} (word : String)
    (h : parseQuery .messages query ⟨0, by decide⟩ = .ok (some e)) :
    usesWord (some e) word = queryUses query word := by
  unfold queryUses
  rw [h]

/-- An `or` typed on the trash page, and a `)` that closes nothing. -/
theorem narrow_narrows_trashed :
    (∃ err, compileQuery (onMessages (narrow "trashed:yes" "gone) or (jane")) = .error err) ∧
    ∃ et page joined, parseQuery .messages "gone or name:jane" ⟨0, by decide⟩ = .ok (some et) ∧
      compileQuery (onMessages "trashed:yes") = .ok page ∧
      compileQuery (onMessages "trashed:yes (gone or name:jane)") = .ok joined ∧
      ∀ v, Holds v joined.whereSql joined.params ↔ Holds v page.whereSql page.params ∧
        et.Matches ⟨.messages, 7, ⟨some, id⟩, .counted⟩ v := by
  have hfilter : jsTrim "trashed:yes" = "trashed:yes" := by decide +kernel
  have htyped : jsTrim "gone or name:jane" = "gone or name:jane" := by decide +kernel
  have hjoin : narrow "trashed:yes" "gone or name:jane" = "trashed:yes (gone or name:jane)" := by
    decide +kernel
  have hpage : accepted .messages "trashed:yes" ⟨0, by decide⟩ = true := by decide +kernel
  have hquery : accepted .messages "trashed:yes (gone or name:jane)" ⟨0, by decide⟩ = true := by
    decide +kernel
  obtain ⟨ef, hef⟩ := exists_of_accepted hpage
  obtain ⟨e, he⟩ := exists_of_accepted hquery
  obtain ⟨joined, hjoined, -⟩ := @compileQuery_holds (onMessages "trashed:yes (gone or name:jane)") e he
  have hor : ∀ tokens, tokenize (jsTrim "trashed:yes") = .ok tokens → NoOuterOr tokens := by
    have hone : tokenize (jsTrim "trashed:yes") =
        .ok [⟨.field "trashed" "yes" false, (0, 11), false⟩] := by decide +kernel
    intro tokens htokens before tok after hsplit _
    rw [hone] at htokens
    obtain rfl := Except.ok.inj htokens
    have hmem : tok ∈ [(⟨.field "trashed" "yes" false, (0, 11), false⟩ : Token)] := by
      rw [hsplit]
      simp
    rw [List.mem_singleton.mp hmem]
    exact TokenKind.noConfusion
  have hnarrow := fun typed => narrow_narrows (onMessages "") "trashed:yes" typed
    (hfilter.symm ▸ hef) hor
  refine ⟨(hnarrow "gone) or (jane").1 (by decide +kernel), ?_⟩
  obtain ⟨page, hpage, hresult⟩ := (hnarrow "gone or name:jane").2 joined (hjoin.symm ▸ hjoined)
  rw [hfilter] at hpage
  rw [htyped] at hresult
  obtain ⟨hblank, -⟩ | ⟨et, e', alone, het, -, -, hnarrows⟩ := hresult
  · exact absurd hblank (by decide)
  have hcounted : trashScope (some ef) = .counted := by
    rw [trashScope, usesWord_of_queryUses "trashed" hef]
    decide +kernel
  refine ⟨et, page, joined, het, hpage, hjoined, ?_⟩
  have hrows := hnarrows.narrows fun word hword htyped => by
    rw [usesWord_of_queryUses word het] at htyped
    have hnone : ∀ word ∈ liftingWords, queryUses "gone or name:jane" word = false := by
      decide +kernel
    rw [hnone word hword] at htyped
    cases htyped
  rw [hcounted] at hrows
  exact hrows

end MessageCrate.Web

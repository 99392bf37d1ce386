import MessageCrate.Search.Parse

/- The search grammar, and that the parser accepts it.

     or      = and , { "or" , and } ;
     and     = unary , { [ "and" ] , unary } ;
     unary   = "not" , unary | [ "-" ] , primary ;
     primary = "(" , or , ")" | field | phrase | term ;

   `OrParts`, `AndParts`, `Unary` and `Primary` derive a token list from each level, with
   the operands it names and its nesting: how many parentheses and `not`s enclose its
   innermost operand. A blank phrase and a field the registry refuses derive nothing.

   What is proved:
     1. `Parser.sound`: what a run of the parser consumed derives the tree it answers,
        nested no deeper than the run's depth allows.
     2. `Parser.complete`: a derivation is consumed whole, and answered with its own tree,
        in front of any token that cannot continue it.
     3. `Parser.settled`: four calls a token are fuel enough, and no call panics.
     4. `parse_accepts_grammar`: the three together, for `parse`. -/
namespace MessageCrate

section grammar
variable (list : ListKind) (today : NaiveDate)

mutual
/-- The operands of an `or` level. -/
inductive OrParts : List Token → List Expr → Nat → Prop where
  | last {ts : List Token} {es : List Expr} {n : Nat} (hand : AndParts ts es n) :
      OrParts ts [collapse .and es] n
  | or {ts us : List Token} {tok : Token} {es parts : List Expr} {n m : Nat}
      (hand : AndParts ts es n) (htok : tok.kind = .or) (hor : OrParts us parts m) :
      OrParts (ts ++ tok :: us) (collapse .and es :: parts) (max n m)

/-- The operands of an `and` level; a space is an `and`. -/
inductive AndParts : List Token → List Expr → Nat → Prop where
  | last {ts : List Token} {e : Expr} {n : Nat} (hunary : Unary ts e n) : AndParts ts [e] n
  | and {ts us : List Token} {tok : Token} {e : Expr} {es : List Expr} {n m : Nat}
      (hunary : Unary ts e n) (htok : tok.kind = .and) (hand : AndParts us es m) :
      AndParts (ts ++ tok :: us) (e :: es) (max n m)
  | space {ts us : List Token} {e : Expr} {es : List Expr} {n m : Nat}
      (hunary : Unary ts e n) (hand : AndParts us es m) :
      AndParts (ts ++ us) (e :: es) (max n m)

/-- One operand, with the `not` or the `-` in front of it. -/
inductive Unary : List Token → Expr → Nat → Prop where
  | not {tok : Token} {ts : List Token} {e : Expr} {n : Nat}
      (htok : tok.kind = .not) (hunary : Unary ts e n) : Unary (tok :: ts) (.not e) (n + 1)
  | minus {tok : Token} {ts : List Token} {e : Expr} {n : Nat}
      (htok : tok.negated = true) (hprimary : Primary (tok :: ts) e n) :
      Unary (tok :: ts) (.not e) n
  | plain {tok : Token} {ts : List Token} {e : Expr} {n : Nat}
      (htok : tok.negated = false) (hprimary : Primary (tok :: ts) e n) :
      Unary (tok :: ts) e n

/-- A group, a field, a term or a phrase. -/
inductive Primary : List Token → Expr → Nat → Prop where
  | group {tok close : Token} {ts : List Token} {parts : List Expr} {n : Nat}
      (htok : tok.kind = .lparen) (hor : OrParts ts parts n) (hclose : close.kind = .rparen) :
      Primary (tok :: (ts ++ [close])) (collapse .or parts) (n + 1)
  | field {tok : Token} {word value : String} {quoted : Bool} {t : FieldTerm}
      (htok : tok.kind = .field word value quoted)
      (hterm : fieldTerm list word value quoted tok.span today = .ok t) :
      Primary [tok] (.field t) 0
  | term {tok : Token} {text : String} {pre : Bool} (htok : tok.kind = .word text pre) :
      Primary [tok] (.text (.term text pre)) 0
  | phrase {tok : Token} {text : String} (htok : tok.kind = .phrase text)
      (htext : isBlank text = false) : Primary [tok] (.text (.phrase text)) 0
end

/-- A token list derives a tree within the three limits. -/
def Derives (tokens : List Token) (e : Expr) : Prop :=
  ∃ parts n, OrParts list today tokens parts n ∧ e = collapse .or parts ∧
    n ≤ 32 ∧ e.textTerms ≤ 32 ∧ e.nodes ≤ 64

end grammar

/-! The first token of a derivation starts an operand. -/

section start
variable {list : ListKind} {today : NaiveDate} {ts : List Token} {n : Nat}

theorem Primary.start {e : Expr} (h : Primary list today ts e n) (rest : List Token) :
    atOperandEnd (ts ++ rest) = false := by
  cases h with
  | group htok _ _ => simp [atOperandEnd, htok]
  | field htok _ => simp [atOperandEnd, htok]
  | term htok => simp [atOperandEnd, htok]
  | phrase htok _ => simp [atOperandEnd, htok]

/-- A primary never starts with `not`, which its level has taken. -/
theorem Primary.head_ne_not {tok : Token} {e : Expr} (h : Primary list today (tok :: ts) e n) :
    tok.kind ≠ .not := by
  cases h with
  | group htok _ _ => simp [htok]
  | field htok _ => simp [htok]
  | term htok => simp [htok]
  | phrase htok _ => simp [htok]

theorem Unary.start {e : Expr} (h : Unary list today ts e n) (rest : List Token) :
    atOperandEnd (ts ++ rest) = false := by
  cases h with
  | not htok _ => simp [atOperandEnd, htok]
  | minus _ hprimary => exact hprimary.start rest
  | plain _ hprimary => exact hprimary.start rest

theorem AndParts.start {es : List Expr} (h : AndParts list today ts es n) (rest : List Token) :
    atOperandEnd (ts ++ rest) = false := by
  cases h with
  | last hunary => exact hunary.start rest
  | and hunary _ _ => rw [List.append_assoc]; exact hunary.start _
  | space hunary _ => rw [List.append_assoc]; exact hunary.start _

theorem OrParts.start {parts : List Expr} (h : OrParts list today ts parts n)
    (rest : List Token) : atOperandEnd (ts ++ rest) = false := by
  cases h with
  | last hand => exact hand.start rest
  | or hand _ _ => rw [List.append_assoc]; exact hand.start _

/-- Tokens that start an operand have a first one, of none of the closing kinds. -/
theorem exists_of_start (h : atOperandEnd ts = false) :
    ∃ tok rest, ts = tok :: rest ∧ tok.kind ≠ .rparen ∧ tok.kind ≠ .or ∧ tok.kind ≠ .and := by
  cases ts with
  | nil => simp [atOperandEnd] at h
  | cons tok rest =>
    refine ⟨tok, rest, rfl, ?_, ?_, ?_⟩ <;> intro hkind <;> simp [atOperandEnd, hkind] at h

theorem length_pos_of_start (h : ∀ rest, atOperandEnd (ts ++ rest) = false) :
    0 < ts.length := by
  obtain ⟨tok, rest, hts, -⟩ := exists_of_start (h [])
  have hlength : (ts ++ []).length = rest.length + 1 := by rw [hts]; rfl
  rw [List.append_nil] at hlength
  omega

end start

theorem unbalanced_ne_ok {α : Type} {span : Nat × Nat} {message : String} {a : α} :
    (unbalanced span message : Except Failure α) ≠ .ok a := by
  simp [unbalanced]

section runs
variable (p : Parser)

/-! Soundness: what a run consumed derives what it answers. -/

/-- What an answer of each level says about the tokens it consumed. -/
structure Parser.Sound (fuel : Nat) : Prop where
  or : ∀ {depth parts ts e rest}, p.parseOr fuel depth parts ts = .ok (e, rest) →
    ∃ used es n, ts = used ++ rest ∧ OrParts p.list p.today used es n ∧
      e = collapse .or (parts ++ es) ∧ depth + n ≤ maxDepth
  and : ∀ {depth parts ts e rest}, p.parseAnd fuel depth parts ts = .ok (e, rest) →
    ∃ used es n, ts = used ++ rest ∧ AndParts p.list p.today used es n ∧
      e = collapse .and (parts ++ es) ∧ depth + n ≤ maxDepth
  unary : ∀ {depth ts e rest}, p.parseUnary fuel depth ts = .ok (e, rest) →
    ∃ used n, ts = used ++ rest ∧ Unary p.list p.today used e n ∧ depth + n ≤ maxDepth
  primary : ∀ {depth ts e rest}, depth ≤ maxDepth →
    p.parsePrimary fuel depth ts = .ok (e, rest) →
    ∃ tok used n, ts = tok :: used ++ rest ∧ Primary p.list p.today (tok :: used) e n ∧
      depth + n ≤ maxDepth

variable {p} {fuel : Nat}

theorem Parser.Sound.or_succ (ih : p.Sound fuel) {depth : Nat} {parts : List Expr} {ts : List Token}
    {e : Expr} {rest : List Token} (h : p.parseOr (fuel + 1) depth parts ts = .ok (e, rest)) :
    ∃ used es n, ts = used ++ rest ∧ OrParts p.list p.today used es n ∧
      e = collapse .or (parts ++ es) ∧ depth + n ≤ maxDepth := by
  rw [Parser.parseOr] at h
  obtain ⟨⟨operand, after⟩, hand, hrest⟩ := Except.of_bind_eq_ok h
  obtain ⟨used, es, n, rfl, hused, rfl, hdepth⟩ := ih.and hand
  simp only [List.nil_append] at hrest
  -- The level ends here, unless an `or` follows.
  have hlast : (collapse .or (parts ++ [collapse .and es]), after) = (e, rest) →
      ∃ used' es' n', used ++ after = used' ++ rest ∧ OrParts p.list p.today used' es' n' ∧
        e = collapse .or (parts ++ es') ∧ depth + n' ≤ maxDepth := by
    intro heq
    cases heq
    exact ⟨used, _, n, rfl, .last hused, rfl, hdepth⟩
  split at hrest
  · exact hlast (Except.ok.inj hrest)
  · next tok after' =>
    split at hrest
    · next hkind =>
      split at hrest
      · exact absurd hrest unbalanced_ne_ok
      · obtain ⟨used', es', m, rfl, hor, rfl, hdepth'⟩ := ih.or hrest
        refine ⟨used ++ tok :: used', _, max n m, ?_, .or hused hkind hor, ?_, ?_⟩
        · simp
        · simp
        · omega
    · exact hlast (Except.ok.inj hrest)

theorem Parser.Sound.and_succ (ih : p.Sound fuel) {depth : Nat} {parts : List Expr} {ts : List Token}
    {e : Expr} {rest : List Token} (h : p.parseAnd (fuel + 1) depth parts ts = .ok (e, rest)) :
    ∃ used es n, ts = used ++ rest ∧ AndParts p.list p.today used es n ∧
      e = collapse .and (parts ++ es) ∧ depth + n ≤ maxDepth := by
  rw [Parser.parseAnd] at h
  obtain ⟨⟨operand, after⟩, hunary, hrest⟩ := Except.of_bind_eq_ok h
  obtain ⟨used, n, rfl, hused, hdepth⟩ := ih.unary hunary
  have hlast : (collapse .and (parts ++ [operand]), after) = (e, rest) →
      ∃ used' es' n', used ++ after = used' ++ rest ∧ AndParts p.list p.today used' es' n' ∧
        e = collapse .and (parts ++ es') ∧ depth + n' ≤ maxDepth := by
    intro heq
    cases heq
    exact ⟨used, _, n, rfl, .last hused, rfl, hdepth⟩
  simp only at hrest
  split at hrest
  · exact hlast (Except.ok.inj hrest)
  · next tok after' =>
    split at hrest
    · exact hlast (Except.ok.inj hrest)
    · exact hlast (Except.ok.inj hrest)
    · next hkind =>
      split at hrest
      · exact absurd hrest unbalanced_ne_ok
      · obtain ⟨used', es, m, rfl, hand, rfl, hdepth'⟩ := ih.and hrest
        refine ⟨used ++ tok :: used', _, max n m, ?_, .and hused hkind hand, ?_, ?_⟩
        · simp
        · simp
        · omega
    · obtain ⟨used', es, m, hts, hand, rfl, hdepth'⟩ := ih.and hrest
      refine ⟨used ++ used', _, max n m, ?_, .space hused hand, ?_, ?_⟩
      · rw [hts, List.append_assoc]
      · simp
      · omega

theorem Parser.Sound.unary_succ (ih : p.Sound fuel) {depth : Nat} {ts : List Token} {e : Expr}
    {rest : List Token} (h : p.parseUnary (fuel + 1) depth ts = .ok (e, rest)) :
    ∃ used n, ts = used ++ rest ∧ Unary p.list p.today used e n ∧ depth + n ≤ maxDepth := by
  cases ts with
  | nil =>
    rw [Parser.parseUnary] at h
    split at h
    · cases h
    · exact absurd h unbalanced_ne_ok
  | cons tok after =>
    rw [Parser.parseUnary] at h
    split at h
    · cases h
    split at h
    · next hdepth hkind =>
      split at h
      · exact absurd h unbalanced_ne_ok
      · obtain ⟨⟨operand, after'⟩, hunary, hrest⟩ := Except.of_bind_eq_ok h
        obtain ⟨used, n, rfl, hused, hdepth'⟩ := ih.unary hunary
        cases hrest
        exact ⟨tok :: used, n + 1, rfl, .not hkind hused, by omega⟩
    · next hdepth _ =>
      obtain ⟨⟨operand, after'⟩, hprimary, hrest⟩ := Except.of_bind_eq_ok h
      obtain ⟨tok', used, n, hts, hused, hdepth'⟩ := ih.primary (by omega) hprimary
      rw [List.cons_append, List.cons.injEq] at hts
      obtain ⟨rfl, rfl⟩ := hts
      cases hrest
      refine ⟨tok :: used, n, rfl, ?_, hdepth'⟩
      cases hnegated : tok.negated with
      | true => simpa using .minus hnegated hused
      | false => simpa using .plain hnegated hused

theorem Parser.Sound.primary_succ (ih : p.Sound fuel) {depth : Nat} {ts : List Token} {e : Expr}
    {rest : List Token} (hdepth : depth ≤ maxDepth)
    (h : p.parsePrimary (fuel + 1) depth ts = .ok (e, rest)) :
    ∃ tok used n, ts = tok :: used ++ rest ∧ Primary p.list p.today (tok :: used) e n ∧
      depth + n ≤ maxDepth := by
  cases ts with
  | nil =>
    rw [Parser.parsePrimary] at h
    cases h
  | cons tok after =>
    simp only [Parser.parsePrimary.eq_def] at h
    split at h
    case h_1 hkind =>
      split at h
      · exact absurd h unbalanced_ne_ok
      split at h
      · exact absurd h unbalanced_ne_ok
      obtain ⟨⟨operand, after'⟩, hor, hrest⟩ := Except.of_bind_eq_ok h
      obtain ⟨used, parts, n, hts, hused, rfl, hdepth'⟩ := ih.or hor
      simp only at hrest
      split at hrest
      · exact absurd hrest unbalanced_ne_ok
      · next close _ =>
        split at hrest
        · next hclose =>
          cases hrest
          refine ⟨tok, used ++ [close], n + 1, ?_, .group hkind hused hclose, by omega⟩
          rw [hts]
          simp
        · exact absurd hrest unbalanced_ne_ok
    case h_6 hkind =>
      split at h
      · next t hterm =>
        cases h
        exact ⟨tok, [], 0, rfl, .field hkind hterm, hdepth⟩
      · cases h
    case h_7 hkind =>
      cases h
      exact ⟨tok, [], 0, rfl, .term hkind, hdepth⟩
    case h_8 hkind =>
      split at h
      · cases h
      · next hblank =>
        cases h
        exact ⟨tok, [], 0, rfl, .phrase hkind (by simpa using hblank), hdepth⟩
    all_goals exact absurd h unbalanced_ne_ok

variable (p) (fuel) in
theorem Parser.sound : p.Sound fuel := by
  induction fuel with
  | zero =>
    refine ⟨?_, ?_, ?_, ?_⟩
    · intro _ _ _ _ _ h
      simp [Parser.parseOr] at h
    · intro _ _ _ _ _ h
      simp [Parser.parseAnd] at h
    · intro _ _ _ _ h
      simp [Parser.parseUnary] at h
    · intro _ _ _ _ _ h
      simp [Parser.parsePrimary] at h
  | succ fuel ih => exact ⟨ih.or_succ, ih.and_succ, ih.unary_succ, ih.primary_succ⟩

/-! Completeness: a derivation is consumed whole. -/

/-- No `and` level goes on at these tokens. -/
def EndsAnd (rest : List Token) : Prop :=
  ∀ tok ∈ rest.head?, tok.kind = .rparen ∨ tok.kind = .or

/-- No `or` level goes on at these tokens. -/
def EndsOr (rest : List Token) : Prop := ∀ tok ∈ rest.head?, tok.kind = .rparen

theorem EndsOr.endsAnd {rest : List Token} (h : EndsOr rest) : EndsAnd rest :=
  fun tok htok => Or.inl (h tok htok)

theorem endsAnd_or {tok : Token} (h : tok.kind = .or) (rest : List Token) :
    EndsAnd (tok :: rest) := by
  intro tok' htok'
  obtain rfl : tok = tok' := by simpa using htok'
  exact Or.inr h

variable (p fuel) in
/-- What each level answers in front of a derivation of its own. -/
structure Parser.Complete : Prop where
  or : ∀ {depth parts ts es n rest}, OrParts p.list p.today ts es n → depth + n ≤ maxDepth →
    4 * ts.length + 4 ≤ fuel → EndsOr rest →
    p.parseOr fuel depth parts (ts ++ rest) = .ok (collapse .or (parts ++ es), rest)
  and : ∀ {depth parts ts es n rest}, AndParts p.list p.today ts es n → depth + n ≤ maxDepth →
    4 * ts.length + 3 ≤ fuel → EndsAnd rest →
    p.parseAnd fuel depth parts (ts ++ rest) = .ok (collapse .and (parts ++ es), rest)
  unary : ∀ {depth ts e n rest}, Unary p.list p.today ts e n → depth + n ≤ maxDepth →
    4 * ts.length + 2 ≤ fuel → p.parseUnary fuel depth (ts ++ rest) = .ok (e, rest)
  primary : ∀ {depth ts e n rest}, Primary p.list p.today ts e n → depth + n ≤ maxDepth →
    4 * ts.length + 1 ≤ fuel → p.parsePrimary fuel depth (ts ++ rest) = .ok (e, rest)

theorem Parser.Complete.or_succ (ih : p.Complete fuel) {depth : Nat} {parts : List Expr}
    {ts : List Token} {es : List Expr} {n : Nat} {rest : List Token}
    (h : OrParts p.list p.today ts es n) (hdepth : depth + n ≤ maxDepth)
    (hfuel : 4 * ts.length + 4 ≤ fuel + 1) (hrest : EndsOr rest) :
    p.parseOr (fuel + 1) depth parts (ts ++ rest) =
      .ok (collapse .or (parts ++ es), rest) := by
  rw [Parser.parseOr]
  cases h with
  | last hand =>
    rw [ih.and hand hdepth (by omega) hrest.endsAnd]
    cases rest with
    | nil => rfl
    | cons tok after =>
      have hkind : tok.kind = .rparen := hrest tok rfl
      simp [bind, Except.bind, pure, Except.pure, hkind]
  | @or ts us tok es parts' n m hand htok hor =>
    simp only [List.length_append, List.length_cons] at hfuel
    rw [List.append_assoc, List.cons_append,
      ih.and hand (by omega) (by omega) (endsAnd_or htok _)]
    have hstart : atOperandEnd (us ++ rest) = false := hor.start rest
    have hnested : depth + m ≤ maxDepth := by omega
    have htail : p.parseOr fuel depth (parts ++ [collapse .and es]) (us ++ rest) =
        .ok (collapse .or (parts ++ [collapse .and es] ++ parts'), rest) :=
      ih.or hor hnested (by omega) hrest
    simpa [bind, Except.bind, htok, hstart] using htail

theorem Parser.Complete.and_succ (ih : p.Complete fuel) {depth : Nat} {parts : List Expr}
    {ts : List Token} {es : List Expr} {n : Nat} {rest : List Token}
    (h : AndParts p.list p.today ts es n) (hdepth : depth + n ≤ maxDepth)
    (hfuel : 4 * ts.length + 3 ≤ fuel + 1) (hrest : EndsAnd rest) :
    p.parseAnd (fuel + 1) depth parts (ts ++ rest) =
      .ok (collapse .and (parts ++ es), rest) := by
  rw [Parser.parseAnd]
  cases h with
  | last hunary =>
    rw [ih.unary hunary hdepth (by omega)]
    cases rest with
    | nil => rfl
    | cons tok after =>
      obtain hkind | hkind := hrest tok rfl
      · simp [bind, Except.bind, pure, Except.pure, hkind]
      · simp [bind, Except.bind, pure, Except.pure, hkind]
  | @and ts us tok e es n m hunary htok hand =>
    simp only [List.length_append, List.length_cons] at hfuel
    rw [List.append_assoc, List.cons_append, ih.unary hunary (by omega) (by omega)]
    have hstart : atOperandEnd (us ++ rest) = false := hand.start rest
    have hnested : depth + m ≤ maxDepth := by omega
    have htail : p.parseAnd fuel depth (parts ++ [e]) (us ++ rest) =
        .ok (collapse .and (parts ++ [e] ++ es), rest) :=
      ih.and hand hnested (by omega) hrest
    simpa [bind, Except.bind, htok, hstart] using htail
  | @space ts us e es n m hunary hand =>
    have hpos := length_pos_of_start hunary.start
    simp only [List.length_append] at hfuel
    rw [List.append_assoc, ih.unary hunary (by omega) (by omega)]
    have hnested : depth + m ≤ maxDepth := by omega
    have htail : p.parseAnd fuel depth (parts ++ [e]) (us ++ rest) =
        .ok (collapse .and (parts ++ [e] ++ es), rest) :=
      ih.and hand hnested (by omega) hrest
    obtain ⟨tok, after, hts, hrparen, hor, hand'⟩ := exists_of_start (hand.start rest)
    rw [hts] at htail ⊢
    simpa [bind, Except.bind, hrparen, hor, hand'] using htail

theorem Parser.Complete.unary_succ (ih : p.Complete fuel) {depth : Nat} {ts : List Token} {e : Expr}
    {n : Nat} {rest : List Token} (h : Unary p.list p.today ts e n)
    (hdepth : depth + n ≤ maxDepth) (hfuel : 4 * ts.length + 2 ≤ fuel + 1) :
    p.parseUnary (fuel + 1) depth (ts ++ rest) = .ok (e, rest) := by
  have hdeep : ¬ maxDepth < depth := by omega
  cases h with
  | @not tok ts e n htok hunary =>
    simp only [List.length_cons] at hfuel
    have hstart : atOperandEnd (ts ++ rest) = false := hunary.start rest
    have htail : p.parseUnary fuel (depth + 1) (ts ++ rest) = .ok (e, rest) :=
      ih.unary hunary (by omega) (by omega)
    rw [List.cons_append, Parser.parseUnary, if_neg hdeep, if_pos htok, hstart, htail]
    rfl
  | @minus tok ts e n htok hprimary =>
    have hinner : p.parsePrimary fuel depth (tok :: ts ++ rest) = .ok (e, rest) :=
      ih.primary hprimary hdepth (by omega)
    rw [List.cons_append] at hinner ⊢
    rw [Parser.parseUnary, if_neg hdeep, if_neg hprimary.head_ne_not, hinner, htok]
    rfl
  | @plain tok ts e n htok hprimary =>
    have hinner : p.parsePrimary fuel depth (tok :: ts ++ rest) = .ok (e, rest) :=
      ih.primary hprimary hdepth (by omega)
    rw [List.cons_append] at hinner ⊢
    rw [Parser.parseUnary, if_neg hdeep, if_neg hprimary.head_ne_not, hinner, htok]
    rfl

theorem Parser.Complete.primary_succ (ih : p.Complete fuel) {depth : Nat} {ts : List Token} {e : Expr}
    {n : Nat} {rest : List Token} (h : Primary p.list p.today ts e n)
    (hdepth : depth + n ≤ maxDepth) (hfuel : 4 * ts.length + 1 ≤ fuel + 1) :
    p.parsePrimary (fuel + 1) depth (ts ++ rest) = .ok (e, rest) := by
  simp only [Parser.parsePrimary.eq_def]
  cases h with
  | @group tok close ts parts n htok hor hclose =>
    simp only [List.length_cons, List.length_append, List.length_nil] at hfuel
    have hends : EndsOr (close :: rest) := by
      intro tok' htok'
      obtain rfl : close = tok' := by simpa using htok'
      exact hclose
    have hinner : p.parseOr fuel (depth + 1) [] (ts ++ close :: rest) =
        .ok (collapse .or ([] ++ parts), close :: rest) :=
      ih.or hor (by omega) (by omega) hends
    obtain ⟨next, after, hts, hrparen, -⟩ := exists_of_start (hor.start (close :: rest))
    rw [hts] at hinner
    have htokens : tok :: (ts ++ [close]) ++ rest = tok :: next :: after := by simp [← hts]
    rw [htokens]
    simp only [htok, if_neg hrparen, hinner, bind, Except.bind, List.nil_append, if_pos hclose]
    rfl
  | field htok hterm =>
    simp only [List.cons_append, List.nil_append, htok, hterm]
    rfl
  | term htok =>
    simp only [List.cons_append, List.nil_append, htok]
    rfl
  | phrase htok htext =>
    simp only [List.cons_append, List.nil_append, htok, htext]
    rfl

variable (p) (fuel) in
theorem Parser.complete : p.Complete fuel := by
  induction fuel with
  | zero =>
    refine ⟨?_, ?_, ?_, ?_⟩
    · intro _ _ _ _ _ _ _ _ hfuel
      omega
    · intro _ _ _ _ _ _ _ _ hfuel
      omega
    · intro _ _ _ _ _ _ _ hfuel
      omega
    · intro _ _ _ _ _ _ _ hfuel
      omega
  | succ fuel ih => exact ⟨ih.or_succ, ih.and_succ, ih.unary_succ, ih.primary_succ⟩

/-! Every run settles: it answers a tree or refuses the query. -/

/-- A failure the person typing is told about. -/
def Refused (f : Failure) : Prop := ∃ err, f = .refused err

theorem refused_of_unbalanced {α : Type} {span : Nat × Nat} {message : String} {f : Failure}
    (h : (unbalanced span message : Except Failure α) = .error f) : Refused f := by
  cases h
  exact ⟨_, rfl⟩

theorem ne_error_pure {α : Type} {a : α} {f : Failure} :
    (pure a : Except Failure α) ≠ .error f := by
  simp [pure, Except.pure]

theorem length_lt_of_parseAnd {depth : Nat} {parts : List Expr} {ts : List Token} {e : Expr}
    {rest : List Token} (h : p.parseAnd fuel depth parts ts = .ok (e, rest)) :
    rest.length < ts.length := by
  obtain ⟨used, es, n, rfl, hused, -⟩ := (p.sound fuel).and h
  have hpos := length_pos_of_start hused.start
  rw [List.length_append]
  omega

theorem length_lt_of_parseUnary {depth : Nat} {ts : List Token} {e : Expr} {rest : List Token}
    (h : p.parseUnary fuel depth ts = .ok (e, rest)) : rest.length < ts.length := by
  obtain ⟨used, n, rfl, hused, -⟩ := (p.sound fuel).unary h
  have hpos := length_pos_of_start hused.start
  rw [List.length_append]
  omega

variable (p fuel) in
/-- With four calls for each token, a level that fails has refused the query. -/
structure Parser.Settled : Prop where
  or : ∀ {depth parts ts f}, 4 * ts.length + 4 ≤ fuel →
    p.parseOr fuel depth parts ts = .error f → Refused f
  and : ∀ {depth parts ts f}, 4 * ts.length + 3 ≤ fuel →
    p.parseAnd fuel depth parts ts = .error f → Refused f
  unary : ∀ {depth ts f}, 4 * ts.length + 2 ≤ fuel →
    p.parseUnary fuel depth ts = .error f → Refused f
  primary : ∀ {depth tok after f}, 4 * after.length + 5 ≤ fuel →
    p.parsePrimary fuel depth (tok :: after) = .error f → Refused f

theorem Parser.Settled.or_succ (ih : p.Settled fuel) {depth : Nat} {parts : List Expr}
    {ts : List Token} {f : Failure} (hfuel : 4 * ts.length + 4 ≤ fuel + 1)
    (h : p.parseOr (fuel + 1) depth parts ts = .error f) : Refused f := by
  rw [Parser.parseOr] at h
  obtain hand | ⟨⟨e, rest⟩, hand, hrest⟩ := Except.of_bind_eq_error h
  · exact ih.and (by omega) hand
  have hlength := length_lt_of_parseAnd hand
  simp only at hrest
  split at hrest
  · exact absurd hrest ne_error_pure
  · next tok after =>
    rw [List.length_cons] at hlength
    split at hrest
    · split at hrest
      · exact refused_of_unbalanced hrest
      · exact ih.or (by omega) hrest
    · exact absurd hrest ne_error_pure

theorem Parser.Settled.and_succ (ih : p.Settled fuel) {depth : Nat} {parts : List Expr}
    {ts : List Token} {f : Failure} (hfuel : 4 * ts.length + 3 ≤ fuel + 1)
    (h : p.parseAnd (fuel + 1) depth parts ts = .error f) : Refused f := by
  rw [Parser.parseAnd] at h
  obtain hunary | ⟨⟨e, rest⟩, hunary, hrest⟩ := Except.of_bind_eq_error h
  · exact ih.unary (by omega) hunary
  have hlength := length_lt_of_parseUnary hunary
  simp only at hrest
  split at hrest
  · exact absurd hrest ne_error_pure
  · next tok after =>
    rw [List.length_cons] at hlength
    split at hrest
    · exact absurd hrest ne_error_pure
    · exact absurd hrest ne_error_pure
    · split at hrest
      · exact refused_of_unbalanced hrest
      · exact ih.and (by omega) hrest
    · exact ih.and (by rw [List.length_cons]; omega) hrest

theorem Parser.Settled.unary_succ (ih : p.Settled fuel) {depth : Nat} {ts : List Token} {f : Failure}
    (hfuel : 4 * ts.length + 2 ≤ fuel + 1)
    (h : p.parseUnary (fuel + 1) depth ts = .error f) : Refused f := by
  cases ts with
  | nil =>
    rw [Parser.parseUnary] at h
    split at h
    · cases h
      exact ⟨_, rfl⟩
    · exact refused_of_unbalanced h
  | cons tok after =>
    rw [List.length_cons] at hfuel
    rw [Parser.parseUnary] at h
    split at h
    · cases h
      exact ⟨_, rfl⟩
    split at h
    · split at h
      · exact refused_of_unbalanced h
      · obtain hunary | ⟨_, _, hrest⟩ := Except.of_bind_eq_error h
        · exact ih.unary (by omega) hunary
        · exact absurd hrest ne_error_pure
    · obtain hprimary | ⟨_, _, hrest⟩ := Except.of_bind_eq_error h
      · exact ih.primary (by omega) hprimary
      · exact absurd hrest ne_error_pure

theorem Parser.Settled.primary_succ (ih : p.Settled fuel) {depth : Nat} {tok : Token}
    {after : List Token} {f : Failure} (hfuel : 4 * after.length + 5 ≤ fuel + 1)
    (h : p.parsePrimary (fuel + 1) depth (tok :: after) = .error f) : Refused f := by
  simp only [Parser.parsePrimary.eq_def] at h
  split at h
  case h_1 =>
    split at h
    · exact refused_of_unbalanced h
    split at h
    · exact refused_of_unbalanced h
    obtain hor | ⟨⟨e, rest⟩, _, hrest⟩ := Except.of_bind_eq_error h
    · exact ih.or (by omega) hor
    simp only at hrest
    split at hrest
    · exact refused_of_unbalanced hrest
    split at hrest
    · exact absurd hrest ne_error_pure
    · exact refused_of_unbalanced hrest
  case h_6 =>
    split at h
    · exact absurd h ne_error_pure
    · cases h
      exact ⟨_, rfl⟩
  case h_7 => exact absurd h ne_error_pure
  case h_8 =>
    split at h
    · cases h
      exact ⟨_, rfl⟩
    · exact absurd h ne_error_pure
  all_goals exact refused_of_unbalanced h

variable (p) (fuel) in
theorem Parser.settled : p.Settled fuel := by
  induction fuel with
  | zero =>
    refine ⟨?_, ?_, ?_, ?_⟩
    · intro _ _ _ _ hfuel
      omega
    · intro _ _ _ _ hfuel
      omega
    · intro _ _ _ hfuel
      omega
    · intro _ _ _ _ hfuel
      omega
  | succ fuel ih => exact ⟨ih.or_succ, ih.and_succ, ih.unary_succ, ih.primary_succ⟩

end runs

/-! The whole query. -/

section query
variable {list : ListKind} {today : NaiveDate} {tokens : List Token}

theorem derives_of_parse {e : Expr} (h : parse list tokens today = .ok (some e)) :
    Derives list today tokens e := by
  unfold parse at h
  split at h
  · cases h
  · next last _ =>
    obtain ⟨⟨expr, rest⟩, hor, hrest⟩ := Except.of_bind_eq_ok h
    obtain ⟨used, parts, n, hts, hused, rfl, hdepth⟩ := (Parser.sound _ _).or hor
    simp only at hrest
    split at hrest
    · exact absurd hrest unbalanced_ne_ok
    split at hrest
    · cases hrest
    split at hrest
    · cases hrest
    · next htext hnodes =>
      cases hrest
      rw [List.append_nil] at hts
      refine ⟨parts, n, hts ▸ hused, rfl, ?_, ?_, ?_⟩
      · simpa [maxDepth] using hdepth
      · simpa [maxTextTerms] using htext
      · simpa [maxNodes] using hnodes

theorem parse_of_derives {e : Expr} (h : Derives list today tokens e) :
    parse list tokens today = .ok (some e) := by
  obtain ⟨parts, n, hor, rfl, hdepth, htext, hnodes⟩ := h
  have hpos := length_pos_of_start hor.start
  have hne : tokens ≠ [] := List.length_pos_iff.mp hpos
  have hdeep : 0 + n ≤ maxDepth := by simpa [maxDepth] using hdepth
  unfold parse
  rw [List.getLast?_eq_getLast_of_ne_nil hne]
  have hrun : Parser.parseOr ⟨list, today, (tokens.getLast hne).span.2⟩ (4 * tokens.length + 4)
      0 [] (tokens ++ []) = .ok (collapse .or ([] ++ parts), []) :=
    (Parser.complete _ _).or hor hdeep (le_refl _) (by simp [EndsOr])
  rw [List.append_nil, List.nil_append] at hrun
  have htext' : ¬ maxTextTerms < (collapse .or parts).textTerms := by
    simpa [maxTextTerms] using htext
  have hnodes' : ¬ maxNodes < (collapse .or parts).nodes := by simpa [maxNodes] using hnodes
  simp only [hrun, bind, Except.bind, if_neg htext', if_neg hnodes']
  rfl

theorem parse_eq_none_iff : parse list tokens today = .ok none ↔ tokens = [] := by
  constructor
  · intro h
    unfold parse at h
    split at h
    · next hlast => exact List.getLast?_eq_none_iff.mp hlast
    · obtain ⟨⟨expr, rest⟩, _, hrest⟩ := Except.of_bind_eq_ok h
      simp only at hrest
      split at hrest
      · exact absurd hrest unbalanced_ne_ok
      split at hrest
      · cases hrest
      split at hrest
      · cases hrest
      · cases hrest
  · rintro rfl
    rfl

theorem refused_of_parse {f : Failure} (h : parse list tokens today = .error f) : Refused f := by
  unfold parse at h
  split at h
  · cases h
  · obtain hor | ⟨⟨expr, rest⟩, _, hrest⟩ := Except.of_bind_eq_error h
    · exact (Parser.settled _ _).or (le_refl _) hor
    simp only at hrest
    split at hrest
    · exact refused_of_unbalanced hrest
    split at hrest
    · cases hrest
      exact ⟨_, rfl⟩
    split at hrest
    · cases hrest
      exact ⟨_, rfl⟩
    · exact absurd hrest ne_error_pure

end query

/-- **The parser accepts exactly its grammar.** It answers a tree when the tokens derive it
within the limits, no tree when there are no tokens, and refuses every other list. -/
theorem parse_accepts_grammar (list : ListKind) (today : NaiveDate) (tokens : List Token) :
    (∀ e, parse list tokens today = .ok (some e) ↔ Derives list today tokens e) ∧
      (parse list tokens today = .ok none ↔ tokens = []) ∧
      ((∃ err, parse list tokens today = .error (.refused err)) ↔
        tokens ≠ [] ∧ ∀ e, ¬ Derives list today tokens e) := by
  refine ⟨fun e => ⟨derives_of_parse, parse_of_derives⟩, parse_eq_none_iff, ?_, ?_⟩
  · rintro ⟨err, herr⟩
    constructor
    · intro hnil
      rw [parse_eq_none_iff.mpr hnil] at herr
      cases herr
    · intro e he
      rw [parse_of_derives he] at herr
      cases herr
  · rintro ⟨hne, hnone⟩
    cases hparse : parse list tokens today with
    | error f =>
      obtain ⟨err, rfl⟩ := refused_of_parse hparse
      exact ⟨err, rfl⟩
    | ok found =>
      cases found with
      | none => exact absurd (parse_eq_none_iff.mp hparse) hne
      | some e => exact absurd (derives_of_parse hparse) (hnone e)

end MessageCrate

import MessageCrate.Search.Grammar

/- The parentheses of what the grammar derives.

   `depthAfter` counts how many parentheses are open after some tokens. A derivation closes every
   one that it opens (`OrParts.paired`), so

   1. tokens in front of a token outside every parenthesis end with it
      (`AndParts.of_noOuterOr`);
   2. a `(`, tokens that pair up, and a `)` are one group wherever they stand in a derivation, and
      the tokens between them derive a tree of their own (`OrParts.inside`). -/
namespace MessageCrate

/-- How many parentheses are open after the tokens, where `depth` were before them; none where a
`)` has no `(`. -/
def depthAfter : Nat → List Token → Option Nat
  | depth, [] => some depth
  | depth, tok :: tokens =>
    match tok.kind with
    | .lparen => depthAfter (depth + 1) tokens
    | .rparen => if depth = 0 then none else depthAfter (depth - 1) tokens
    | _ => depthAfter depth tokens

/-- Every `)` closes a `(` before it, and none is left open. -/
def PairsUp (tokens : List Token) : Prop := depthAfter 0 tokens = some 0

/-- No `or` stands outside every parenthesis. -/
def NoOuterOr (tokens : List Token) : Prop :=
  ∀ before tok after, tokens = before ++ tok :: after → PairsUp before → tok.kind ≠ .or

section depth
variable {tok : Token} {ts us : List Token} {depth depth' : Nat}

theorem depthAfter_lparen (h : tok.kind = .lparen) :
    depthAfter depth (tok :: ts) = depthAfter (depth + 1) ts := by
  rw [depthAfter, h]

theorem depthAfter_rparen (h : tok.kind = .rparen) :
    depthAfter (depth + 1) (tok :: ts) = depthAfter depth ts := by
  rw [depthAfter, h]
  simp only [Nat.add_one_ne_zero, if_false, Nat.add_sub_cancel]

theorem depthAfter_other (hopen : tok.kind ≠ .lparen) (hclose : tok.kind ≠ .rparen) :
    depthAfter depth (tok :: ts) = depthAfter depth ts := by
  rw [depthAfter]
  split
  · next h => exact absurd h hopen
  · next h => exact absurd h hclose
  · rfl

theorem depthAfter_append : ∀ (ts us : List Token) (depth : Nat),
    depthAfter depth (ts ++ us) = (depthAfter depth ts).bind (fun d => depthAfter d us)
  | [], _, _ => rfl
  | tok :: ts, us, depth => by
    rw [List.cons_append, depthAfter, depthAfter]
    split
    · exact depthAfter_append ts us _
    · split
      · rfl
      · exact depthAfter_append ts us _
    · exact depthAfter_append ts us _

/-- The same tokens behind more open parentheses. -/
theorem depthAfter_add (k : Nat) : ∀ {ts : List Token} {depth depth' : Nat},
    depthAfter depth ts = some depth' → depthAfter (depth + k) ts = some (depth' + k)
  | [], depth, depth', h => by
    cases h
    rfl
  | tok :: ts, depth, depth', h => by
    by_cases hopen : tok.kind = .lparen
    · rw [depthAfter_lparen hopen] at h ⊢
      have hrest := depthAfter_add k h
      rwa [Nat.add_right_comm] at hrest
    by_cases hclose : tok.kind = .rparen
    · cases depth with
      | zero =>
        rw [depthAfter, hclose] at h
        cases h
      | succ depth =>
        rw [depthAfter_rparen hclose] at h
        rw [Nat.add_right_comm, depthAfter_rparen hclose]
        exact depthAfter_add k h
    · rw [depthAfter_other hopen hclose] at h ⊢
      exact depthAfter_add k h

theorem PairsUp.append (hts : PairsUp ts) (hus : PairsUp us) : PairsUp (ts ++ us) := by
  unfold PairsUp
  rw [depthAfter_append, hts]
  exact hus

/-- Behind tokens that pair up, the rest pair up if all do. -/
theorem PairsUp.of_append (hts : PairsUp ts) (h : PairsUp (ts ++ us)) : PairsUp us := by
  unfold PairsUp at h
  rw [depthAfter_append, hts] at h
  exact h

/-- A front part of tokens that pair up closes no more than it opens. -/
theorem PairsUp.front (h : PairsUp (ts ++ us)) : ∃ d, depthAfter 0 ts = some d := by
  unfold PairsUp at h
  rw [depthAfter_append] at h
  obtain ⟨d, hd, -⟩ := Option.bind_eq_some_iff.mp h
  exact ⟨d, hd⟩

theorem paired_group {tok close : Token} (htok : tok.kind = .lparen) (hts : PairsUp ts)
    (hclose : close.kind = .rparen) : PairsUp (tok :: (ts ++ [close])) := by
  unfold PairsUp
  have hdepth : depthAfter (0 + 1) ts = some (0 + 1) := depthAfter_add 1 hts
  rw [depthAfter_lparen htok, depthAfter_append, hdepth]
  show depthAfter (0 + 1) [close] = some 0
  rw [depthAfter_rparen hclose]
  rfl

/-- A `(` with tokens behind it that pair up, or with a front part of such, is left open. -/
theorem not_paired_open {tok : Token} {before mid rest : List Token} (htok : tok.kind = .lparen)
    (hmid : PairsUp (mid ++ rest)) : ¬ PairsUp (before ++ tok :: mid) := by
  intro h
  obtain ⟨d, hd⟩ := h.front
  obtain ⟨k, hk⟩ := hmid.front
  have hdepth : depthAfter (0 + (d + 1)) mid = some (k + (d + 1)) := depthAfter_add (d + 1) hk
  unfold PairsUp at h
  rw [depthAfter_append, hd, Option.bind_some, depthAfter_lparen htok,
    show d + 1 = 0 + (d + 1) by omega, hdepth] at h
  have hzero : k + (d + 1) = 0 := Option.some.inj h
  omega

end depth

section derivations
variable {list : ListKind} {today : NaiveDate}

mutual
theorem OrParts.paired : ∀ {ts : List Token} {parts : List Expr} {n : Nat},
    OrParts list today ts parts n → PairsUp ts
  | _, _, _, .last hand => hand.paired
  | _, _, _, .or hand htok hor => by
    refine hand.paired.append ?_
    unfold PairsUp
    rw [depthAfter_other (by rw [htok]; exact TokenKind.noConfusion)
      (by rw [htok]; exact TokenKind.noConfusion)]
    exact hor.paired

theorem AndParts.paired : ∀ {ts : List Token} {es : List Expr} {n : Nat},
    AndParts list today ts es n → PairsUp ts
  | _, _, _, .last hunary => hunary.paired
  | _, _, _, .and hunary htok hand => by
    refine hunary.paired.append ?_
    unfold PairsUp
    rw [depthAfter_other (by rw [htok]; exact TokenKind.noConfusion)
      (by rw [htok]; exact TokenKind.noConfusion)]
    exact hand.paired
  | _, _, _, .space hunary hand => hunary.paired.append hand.paired

theorem Unary.paired : ∀ {ts : List Token} {e : Expr} {n : Nat},
    Unary list today ts e n → PairsUp ts
  | _, _, _, .not htok hunary => by
    unfold PairsUp
    rw [depthAfter_other (by rw [htok]; exact TokenKind.noConfusion)
      (by rw [htok]; exact TokenKind.noConfusion)]
    exact hunary.paired
  | _, _, _, .minus _ hprimary => hprimary.paired
  | _, _, _, .plain _ hprimary => hprimary.paired

theorem Primary.paired : ∀ {ts : List Token} {e : Expr} {n : Nat},
    Primary list today ts e n → PairsUp ts
  | _, _, _, .group htok hor hclose => paired_group htok hor.paired hclose
  | _, _, _, .field htok _ => by
    unfold PairsUp
    rw [depthAfter_other (by rw [htok]; exact TokenKind.noConfusion)
      (by rw [htok]; exact TokenKind.noConfusion)]
    rfl
  | _, _, _, .term htok => by
    unfold PairsUp
    rw [depthAfter_other (by rw [htok]; exact TokenKind.noConfusion)
      (by rw [htok]; exact TokenKind.noConfusion)]
    rfl
  | _, _, _, .phrase htok _ => by
    unfold PairsUp
    rw [depthAfter_other (by rw [htok]; exact TokenKind.noConfusion)
      (by rw [htok]; exact TokenKind.noConfusion)]
    rfl
end

/-- Without an outer `or`, an `or` level has one operand. -/
theorem AndParts.of_noOuterOr {ts : List Token} {parts : List Expr} {n : Nat}
    (h : OrParts list today ts parts n) (hor : NoOuterOr ts) :
    ∃ es, AndParts list today ts es n ∧ parts = [collapse .and es] := by
  cases h with
  | last hand => exact ⟨_, hand, rfl⟩
  | or hand htok _ => exact absurd htok (hor _ _ _ rfl hand.paired)

/-! A group inside a derivation. -/

section inside
variable {opening closing : Token} {mid : List Token}

/-- A group that lies across two parts lies in one of them, if the first pairs up. -/
theorem group_append {ts us before after : List Token} (hopen : opening.kind = .lparen)
    (hmid : PairsUp mid) (hts : PairsUp ts)
    (h : ts ++ us = before ++ opening :: (mid ++ closing :: after)) :
    (∃ after', ts = before ++ opening :: (mid ++ closing :: after')) ∨
      ∃ before', us = before' ++ opening :: (mid ++ closing :: after) := by
  obtain ⟨rest, hrest, hus⟩ | ⟨rest, hbefore, hrest⟩ := List.append_eq_append_iff.mp h
  · exact .inr ⟨rest, hus⟩
  cases rest with
  | nil => exact .inr ⟨[], hrest.symm⟩
  | cons tok rest =>
    obtain ⟨rfl, hmore⟩ := List.cons.inj hrest
    obtain ⟨rest', rfl, hrest'⟩ | ⟨rest', rfl, hrest'⟩ := List.append_eq_append_iff.mp hmore
    · cases rest' with
      | nil =>
        subst hbefore
        rw [List.append_nil] at hts
        exact absurd hts (not_paired_open hopen (by rwa [List.append_nil]))
      | cons close rest' =>
        obtain ⟨rfl, -⟩ := List.cons.inj hrest'
        exact .inl ⟨rest', hbefore⟩
    · -- The first part ends inside the group.
      subst hbefore
      exact absurd hts (not_paired_open hopen hmid)

/-- No group is one token. -/
theorem not_group_singleton {tok : Token} {before after : List Token} :
    [tok] ≠ before ++ opening :: (mid ++ closing :: after) := by
  intro h
  have hlength := congrArg List.length h
  simp only [List.length_append, List.length_cons, List.length_nil] at hlength
  omega

/-- What stands between the parentheses derives a tree, nested less deeply than the whole. -/
def Inside (list : ListKind) (today : NaiveDate) (mid : List Token) (n : Nat) : Prop :=
  ∃ parts m, OrParts list today mid parts m ∧ m + 1 ≤ n

theorem Inside.mono {n n' : Nat} (h : Inside list today mid n) (hle : n ≤ n') :
    Inside list today mid n' := by
  obtain ⟨parts, m, hor, hm⟩ := h
  exact ⟨parts, m, hor, hm.trans hle⟩

/-- A group ends at the first `)` that its tokens leave to it. -/
theorem eq_of_closed {close : Token} {ts after : List Token} (hclose : closing.kind = .rparen)
    (hmid : PairsUp mid) (hts : PairsUp ts) (h : ts ++ [close] = mid ++ closing :: after) :
    ts = mid := by
  obtain ⟨rest, rfl, hrest⟩ | ⟨rest, rfl, hrest⟩ := List.append_eq_append_iff.mp h
  · cases rest with
    | nil => exact (List.append_nil _).symm
    | cons tok rest =>
      have hlength := congrArg List.length hrest
      simp only [List.length_append, List.length_cons, List.length_nil] at hlength
      omega
  · cases rest with
    | nil => exact List.append_nil _
    | cons tok rest =>
      obtain ⟨rfl, -⟩ := List.cons.inj hrest
      have htail : PairsUp (closing :: rest) := hmid.of_append hts
      unfold PairsUp at htail
      rw [depthAfter, hclose] at htail
      cases htail

/-- A token that is no parenthesis holds no group. -/
theorem group_cons {tok : Token} {us before after : List Token} (hopen : opening.kind = .lparen)
    (htok : tok.kind ≠ .lparen) (h : tok :: us = before ++ opening :: (mid ++ closing :: after)) :
    ∃ before', us = before' ++ opening :: (mid ++ closing :: after) := by
  cases before with
  | nil =>
    obtain ⟨rfl, -⟩ := List.cons.inj h
    exact absurd hopen htok
  | cons tok' before => exact ⟨before, (List.cons.inj h).2⟩

/-- Parentheses around tokens that pair up. -/
structure IsGroup (opening : Token) (mid : List Token) (closing : Token) : Prop where
  opens : opening.kind = .lparen
  paired : PairsUp mid
  closes : closing.kind = .rparen

mutual
/-- **A group in a derivation derives a tree of its own.** -/
theorem OrParts.inside : ∀ {ts : List Token} {parts : List Expr} {n : Nat}
    {before after : List Token}, IsGroup opening mid closing → OrParts list today ts parts n →
      ts = before ++ opening :: (mid ++ closing :: after) → Inside list today mid n
  | _, _, _, _, _, hg, .last hand, h => hand.inside hg h
  | _, _, _, _, _, hg, .or hand htok hor, h => by
    obtain ⟨after', hts⟩ | ⟨before', hus⟩ := group_append hg.opens hg.paired hand.paired h
    · exact (hand.inside hg hts).mono (le_max_left _ _)
    · obtain ⟨before'', hus⟩ := group_cons hg.opens (by rw [htok]; exact TokenKind.noConfusion) hus
      exact (hor.inside hg hus).mono (le_max_right _ _)

theorem AndParts.inside : ∀ {ts : List Token} {es : List Expr} {n : Nat}
    {before after : List Token}, IsGroup opening mid closing → AndParts list today ts es n →
      ts = before ++ opening :: (mid ++ closing :: after) → Inside list today mid n
  | _, _, _, _, _, hg, .last hunary, h => hunary.inside hg h
  | _, _, _, _, _, hg, .and hunary htok hand, h => by
    obtain ⟨after', hts⟩ | ⟨before', hus⟩ := group_append hg.opens hg.paired hunary.paired h
    · exact (hunary.inside hg hts).mono (le_max_left _ _)
    · obtain ⟨before'', hus⟩ := group_cons hg.opens (by rw [htok]; exact TokenKind.noConfusion) hus
      exact (hand.inside hg hus).mono (le_max_right _ _)
  | _, _, _, _, _, hg, .space hunary hand, h => by
    obtain ⟨after', hts⟩ | ⟨before', hus⟩ := group_append hg.opens hg.paired hunary.paired h
    · exact (hunary.inside hg hts).mono (le_max_left _ _)
    · exact (hand.inside hg hus).mono (le_max_right _ _)

theorem Unary.inside : ∀ {ts : List Token} {e : Expr} {n : Nat} {before after : List Token},
    IsGroup opening mid closing → Unary list today ts e n → ts = before ++ opening :: (mid ++ closing :: after) →
      Inside list today mid n
  | _, _, _, _, _, hg, .not htok hunary, h => by
    obtain ⟨before', hts⟩ := group_cons hg.opens (by rw [htok]; exact TokenKind.noConfusion) h
    exact (hunary.inside hg hts).mono (Nat.le_succ _)
  | _, _, _, _, _, hg, .minus _ hprimary, h => hprimary.inside hg h
  | _, _, _, _, _, hg, .plain _ hprimary, h => hprimary.inside hg h

theorem Primary.inside : ∀ {ts : List Token} {e : Expr} {n : Nat} {before after : List Token},
    IsGroup opening mid closing → Primary list today ts e n → ts = before ++ opening :: (mid ++ closing :: after) →
      Inside list today mid n
  | _, _, _, before, _, hg, .group htok hor hclose', h => by
    cases before with
    | nil =>
      -- The group is this one.
      obtain ⟨-, h⟩ := List.cons.inj h
      have hts : _ = mid := eq_of_closed hg.closes hg.paired hor.paired h
      exact ⟨_, _, hts ▸ hor, Nat.le_refl _⟩
    | cons tok before =>
      obtain ⟨-, h⟩ := List.cons.inj h
      obtain ⟨after', hts⟩ | ⟨before', hus⟩ := group_append hg.opens hg.paired hor.paired h
      · exact (hor.inside hg hts).mono (Nat.le_succ _)
      · exact absurd hus not_group_singleton
  | _, _, _, _, _, _, .field _ _, h => absurd h not_group_singleton
  | _, _, _, _, _, _, .term _, h => absurd h not_group_singleton
  | _, _, _, _, _, _, .phrase _ _, h => absurd h not_group_singleton
end

end inside
end derivations

end MessageCrate
